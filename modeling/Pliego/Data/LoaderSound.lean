import Pliego.Data.LoaderRun

/-!
The sharing of loader results: calls that share one are calls of one policy with one input.
-/

namespace Pliego

open Bytes JsonText Sorting CanonicalJson

namespace Data

section Canonical

variable {value value' : Value}

theorem writeCanonicalValues_eq {values : List Value}
    : writeCanonicalValues values = values.map writeCanonicalJson := by
  induction values with
  | nil => rfl
  | cons value rest ih => rw [writeCanonicalValues, ih, List.map_cons]

theorem writeCanonicalEntries_eq {values : List (String × Value)}
    : writeCanonicalEntries values = values.map fun entry => (entry.1, writeCanonicalJson entry.2) := by
  induction values with
  | nil => rfl
  | cons entry rest ih => rw [writeCanonicalEntries, ih, List.map_cons]

theorem writeCanonicalJson_eq : writeCanonicalJson value = write quoteText (value.normal id) := by
  induction value using Value.induct with
  | h value ih =>
    cases value with
    | null => rfl
    | bool value => cases value <;> rfl
    | number lexeme => rfl
    | text value => rfl
    | array items =>
      have hitems : items.map writeCanonicalJson = items.map (write quoteText ∘ Value.normal id) :=
        List.map_congr_left ih
      rw [writeCanonicalJson, writeCanonicalValues_eq, Value.normal, itemsNormal_eq, write, writeItems_eq,
        List.map_map, hitems]
    | object members =>
      have hmembers : ∀ member ∈ sortBy Prod.fst members,
          quoteText member.1 ++ [58] ++ writeCanonicalJson member.2
            = quoteText member.1 ++ [58] ++ write quoteText (member.2.normal id) := by
        intro member hmember
        rw [ih member.2 (List.mem_map_of_mem (mem_sortBy.mp hmember))]
      rw [writeCanonicalJson, writeCanonicalEntries_eq, Value.normal, membersNormal_eq, write, writeMembers_eq,
        sortBy_map, sortBy_map, List.map_map, List.map_map]
      unfold Function.comp
      dsimp only
      rw [List.map_congr_left hmembers]

theorem json_eq_of_canonical (json json' : JsonInput)
    (h : writeCanonicalJson json.value = writeCanonicalJson json'.value)
    : json.value.json = json'.value.json := by
  have hid : ∀ lexeme : String, Decimal.IsNumber lexeme.toList → Decimal.IsNumber (id lexeme).toList := fun _ h => h
  have hreads : ∀ json : JsonInput, Reads (writeCanonicalJson json.value) (json.value.normal id) := by
    intro json
    rw [writeCanonicalJson_eq]
    exact reads_write isLiteral_quoteText (json.proper.normal fun part => properNumber_normal hid)
  have hnormal : json.value.normal id = json'.value.normal id := by
    apply Reads.unique (hreads json)
    rw [h]
    exact hreads json'
  have hjson : ∀ json : JsonInput, (json.value.normal id).json = json.value.json :=
    fun json => Value.json_normal json.unique json.proper fun _ _ => rfl
  rw [← hjson json, hnormal, hjson json']

end Canonical

section Keys

variable {sha256 : Sha256} {policy policy' : LoaderPolicy} {json json' : JsonInput}

theorem length_invocationFields (hvalid : policy.Valid) (identity : DataIdentity)
    : ∀ field ∈ invocationFields policy (writeCanonicalJson json.value) identity.routeId, field.length < 256 ^ 8 := by
  have hroute : (utf8 identity.routeId).length < 256 ^ 8 := by
    have hgrammar := identity.validRoute
    unfold identityGrammar at hgrammar
    rw [Bool.and_eq_true, Bool.and_eq_true, decide_eq_true_eq] at hgrammar
    exact Nat.lt_of_le_of_lt hgrammar.1.2 (by decide)
  have hcache : (utf8 (policy.cachePolicyId.getD "")).length < 256 ^ 8 := by
    cases hid : policy.cachePolicyId with
    | none => decide
    | some id => exact (length_of_validateStableId (hvalid.cachePolicyId id hid)).1
  have hrevision : (beBytes 4 policy.semanticRevision).length < 256 ^ 8 := by
    rw [beBytes_length]
    decide
  have hinput : (writeCanonicalJson json.value).length < 256 ^ 8 :=
    Nat.lt_trans json.addressable (by decide)
  intro field hfield
  unfold invocationFields at hfield
  simp only [List.mem_cons, List.not_mem_nil, or_false] at hfield
  rcases hfield with rfl | rfl | rfl | rfl | rfl | rfl | rfl
  . exact (length_of_validateStableId hvalid.id).1
  . exact hrevision
  . exact (length_of_validateStableId hvalid.inputSchemaId).1
  . exact (length_of_validateStableId hvalid.outputSchemaId).1
  . exact hcache
  . exact hroute
  . exact hinput

theorem input_eq_of_preimage {identity : DataIdentity} (hvalid : policy.Valid) (hvalid' : policy'.Valid)
    (h : invocationPreimage policy (writeCanonicalJson json.value) identity.routeId
      = invocationPreimage policy' (writeCanonicalJson json'.value) identity.routeId)
    : writeCanonicalJson json.value = writeCanonicalJson json'.value := by
  unfold invocationPreimage at h
  rw [List.append_cancel_left_eq] at h
  have hfields := flatMap_lenPrefixed_inj (length_invocationFields hvalid identity)
    (length_invocationFields hvalid' identity) h
  unfold invocationFields at hfields
  simp only [List.cons.injEq, and_true] at hfields
  exact hfields.2.2.2.2.2.2

end Keys

namespace DataLoads

section Closing

variable {context next : CleanupContext} {move : ContextMove}

theorem cancelled_of_step (h : context.step move = some next) (hcancelled : context.cancelled = true)
    : next.cancelled = true := by
  unfold CleanupContext.step at h
  split at h
  . cases h
    exact hcancelled
  . split at h
    . cases h
    . next task hget =>
      split at h
      . unfold CleanupContext.stepRegister at h
        split at h
        . split at h <;> cases h <;> exact hcancelled
        . split at h <;> cases h <;> exact hcancelled
        . cases h
      . unfold CleanupContext.stepCancel at h
        split at h
        . cases h
          exact hcancelled
        . cases h
          rfl
        . cases h
      . unfold CleanupContext.stepClose at h
        split at h
        . split at h <;> cases h <;> exact hcancelled
        . cases h
          exact hcancelled
        . cases h
          rfl
        . cases h
          exact hcancelled
        . split at h <;> cases h <;> exact hcancelled
        . cases h
          exact hcancelled
        . cases h

theorem Cancels.goTo {index : Nat} {task : ContextTask} {point : CallPoint} (h : Cancels context)
    (hmem : task ∈ context.tasks) (htasks : next.tasks = (context.goTo index task point).tasks)
    (hkept : context.cancelled = true → next.cancelled = true)
    (hself : draining point = true → draining task.point = true ∨ next.cancelled = true)
    : Cancels next := by
  intro other hother hclose hdraining
  rw [htasks] at hother
  cases CleanupContext.mem_goTo hother with
  | inl hnew =>
    subst hnew
    cases hself hdraining with
    | inl hbefore => exact hkept (h task hmem hclose hbefore)
    | inr hcancelled => exact hcancelled
  | inr hold => exact hkept (h other hold hclose hdraining)

theorem Cancels.step (hcancels : Cancels context) (h : context.step move = some next) : Cancels next := by
  have hkept := cancelled_of_step h
  unfold CleanupContext.step at h
  split at h
  . cases h
    intro task htask hclose hdraining
    cases List.mem_append.mp htask with
    | inl hold => exact hcancels task hold hclose hdraining
    | inr hnew =>
      rw [List.mem_singleton] at hnew
      rw [hnew] at hdraining
      cases hdraining
  . split at h
    . cases h
    . next task hget =>
      have hmem := List.mem_of_getElem? hget
      split at h
      . unfold CleanupContext.stepRegister at h
        split at h
        . split at h <;> cases h <;> exact hcancels.goTo hmem rfl hkept nofun
        . split at h <;> cases h <;> exact hcancels.goTo hmem rfl hkept nofun
        . cases h
      . unfold CleanupContext.stepCancel at h
        split at h
        . cases h
          exact hcancels.goTo hmem rfl hkept nofun
        . cases h
          exact hcancels.goTo hmem rfl hkept nofun
        . cases h
      . unfold CleanupContext.stepClose at h
        split at h
        . split at h <;> cases h <;> exact hcancels.goTo hmem rfl hkept nofun
        . cases h
          exact hcancels.goTo hmem rfl hkept nofun
        . cases h
          exact hcancels.goTo hmem rfl hkept fun _ => .inr rfl
        . next hpoint =>
          cases h
          refine hcancels.goTo hmem rfl hkept fun _ => .inl ?_
          rw [hpoint]
          rfl
        . next hpoint =>
          split at h <;> cases h <;> refine hcancels.goTo hmem rfl hkept fun _ => .inl ?_ <;> rw [hpoint] <;> rfl
        . cases h
          exact hcancels.goTo hmem rfl hkept nofun
        . cases h

end Closing

section Reaching

variable {sha256 : Sha256} {loads next : DataLoads} {move : LoadMove}

theorem cancelled_of_clears {move : ContextMove} (hcancels : Cancels loads.context)
    (h : clears loads.context move = true)
    : loads.context.cancelled = true := by
  unfold clears at h
  split at h
  . cases h
  . split at h
    . next hget => exact hcancels _ (List.mem_of_getElem? hget) rfl rfl
    . cases h

theorem step_context {move : ContextMove} {context : CleanupContext} (hinv : loads.Inv sha256)
    (h : loads.context.step move = some context)
    : ({ loads with
        context := context
        loaderCells := if clears loads.context move then fun _ => none else loads.loaderCells } : DataLoads).Inv sha256 := by
  have hkept := cancelled_of_step h
  refine ⟨⟨hinv.seats.agreed, hinv.seats.seated, hinv.seats.alone⟩,
    ⟨hinv.states.stands, hinv.states.running, hinv.states.filled⟩, ?_, hinv.closing.step h, hinv.receipts⟩
  constructor
  . intro key place hplace
    dsimp only at hplace
    split at hplace
    . cases hplace
    . exact hinv.keys.mapped key place hplace
  . intro hrunning
    have hbefore : loads.context.cancelled = false := by
      cases hcancelled : loads.context.cancelled with
      | false => rfl
      | true =>
        rw [hkept hcancelled] at hrunning
        cases hrunning
    dsimp only
    rw [if_neg]
    . exact hinv.keys.kept hbefore
    . intro hclears
      rw [cancelled_of_clears hinv.closing hclears] at hbefore
      cases hbefore
  . exact fun cell hcell hlate => hkept (hinv.keys.late cell hcell hlate)
  . exact hinv.keys.single
  . exact hinv.keys.polled
  . exact hinv.keys.completed

theorem inv_step (hinv : loads.Inv sha256) (hguard : loads.agrees sha256 move)
    (h : loads.step sha256 move = some next)
    : next.Inv sha256 := by
  unfold step at h
  split at h
  . cases h
    exact step_call hinv hguard
  . split at h
    . cases h
    . next hget => exact step_load hinv hget hguard h
  . split at h
    . cases h
    . next hget => exact step_drop hinv hget h
  . split at h
    . cases h
    . next hcontext =>
      cases h
      exact step_context hinv hcontext
  . cases h
    unfold recordReceipt
    split
    . apply hinv.record
      intro index hindex
      cases hindex
    . exact hinv

def Opened (loads : DataLoads) : Prop :=
  ∃ identity policyGrants options, openLoads identity policyGrants options = .ok loads

theorem inv_opened (h : loads.Opened) : loads.Inv sha256 := by
  obtain ⟨identity, policyGrants, options, hopen⟩ := h
  unfold openLoads CleanupContext.openContext at hopen
  cases hvalid : options.validate with
  | error error =>
    rw [hvalid] at hopen
    cases hopen
  | ok _ =>
    rw [hvalid] at hopen
    cases hopen
    have hnone : ∀ {α : Type} {index : Nat} {x : α}, ([] : List α)[index]? = some x → False := by
      intro α index x h
      cases h
    constructor
    . constructor
      . intro _ hmem
        cases hmem
      . exact fun _ _ _ hget => (hnone hget).elim
      . exact fun _ _ _ _ _ _ hget => (hnone hget).elim
    . constructor
      . exact fun _ _ hget => (hnone hget).elim
      . intro _ _ hstate
        cases hstate
      . intro _ _ hstate
        cases hstate
    . constructor
      . intro _ _ hplace
        cases hplace
      . exact fun _ _ _ _ hcell => (hnone hcell).elim
      . intro _ hmem
        cases hmem
      . exact fun _ _ _ _ _ hcell => (hnone hcell).elim
      . exact fun _ _ _ _ hget => (hnone hget).elim
      . exact fun _ => .inl rfl
    . intro _ hmem
      cases hmem
    . intro _ _ hmem
      cases hmem

theorem Inv.shared {index other : Nat} {task found : LoadTask} {seat seat' : Seat} (hinv : loads.Inv sha256)
    (hsha : Set.InjOn sha256 loads.invocations) (hget : loads.tasks[index]? = some task)
    (hfound : loads.tasks[other]? = some found) (hat : task.point.seat = some seat)
    (hat' : found.point.seat = some seat') (hcell : seat.cell = seat'.cell)
    : task.call.policy = found.call.policy ∧ task.call.SameInput found.call := by
  have hvalue : ∀ {index : Nat} {task : LoadTask} {seat : Seat}, loads.tasks[index]? = some task →
      task.point.seat = some seat → ∃ json, task.call.input = .value json := by
    intro index task seat hget hat
    obtain ⟨cell, -, hkey⟩ := hinv.seats.seated index task seat hget hat
    cases hinput : task.call.input with
    | value json => exact ⟨json, rfl⟩
    | fails =>
      unfold LoadCall.cellKey LoadCall.key at hkey
      rw [hinput] at hkey
      cases hkey
    | panics =>
      unfold LoadCall.cellKey LoadCall.key at hkey
      rw [hinput] at hkey
      cases hkey
  obtain ⟨json, hinput⟩ := hvalue hget hat
  obtain ⟨json', hinput'⟩ := hvalue hfound hat'
  refine ⟨(hinv.agrees hget hfound hat hat' hcell).1, json, json', hinput, hinput', ?_⟩
  cases hinv.seats.shares hget hfound hat hat' hcell with
  | inl hsame =>
    rw [hsame, hfound] at hget
    cases hget
    rw [hinput] at hinput'
    cases hinput'
    rfl
  | inr hshares =>
    obtain ⟨key, hkey, hkey'⟩ := hshares
    have hhash : ∀ {call : LoadCall} {json : JsonInput}, call.input = .value json →
        call.cellKey sha256 loads.identity.routeId = some (some key) →
        invocationKey sha256 call.policy (writeCanonicalJson json.value) loads.identity.routeId = key := by
      intro call json hinput hkey
      unfold LoadCall.cellKey LoadCall.key at hkey
      rw [hinput, Option.map_some, Option.some.injEq] at hkey
      split at hkey
      . exact Option.some.inj hkey
      . cases hkey
    have hpreimage := eq_of_hex_sha256_eq
      (hsha ⟨task, List.mem_of_getElem? hget, json, hinput, rfl⟩ ⟨found, List.mem_of_getElem? hfound, json', hinput', rfl⟩)
      ((hhash hinput hkey).trans (hhash hinput' hkey').symm)
    exact json_eq_of_canonical json json' (input_eq_of_preimage task.call.built.valid found.call.built.valid hpreimage)

theorem Inv.sound (hinv : loads.Inv sha256) (hsha : Set.InjOn sha256 loads.invocations) : loads.Sound sha256 := by
  have hrunnable : ∀ {index : Nat} {task : LoadTask} {cell : Nat}, loads.tasks[index]? = some task →
      task.point.body = some cell → ∀ reading, (loads.step sha256 (.step index reading)).isSome = true := by
    intro index task cell hget hbody reading
    unfold step
    dsimp only
    rw [hget]
    dsimp only
    unfold stepLoad
    cases hpoint : task.point with
    | starting seat =>
      dsimp only
      split <;> rfl
    | loading seat registered =>
      dsimp only
      split
      . rfl
      . split <;> rfl
    | polling seat =>
      dsimp only
      split <;> rfl
    | _ =>
      rw [hpoint] at hbody
      cases hbody
  constructor
  . intro index other task found seat seat' result result' hget hfound hpoint hpoint' hcell
    apply hinv.shared hsha hget hfound _ _ hcell
    . rw [hpoint]
      rfl
    . rw [hpoint']
      rfl
  . intro index task seat output hget hpoint
    have hstands := hinv.states.stands index task hget
    unfold LoadTask.Stands at hstands
    rw [hpoint] at hstands
    cases seat with
    | none =>
      obtain ⟨error, herror⟩ := hstands
      cases herror
    | some seat =>
      obtain ⟨result, hready, hreturned⟩ := hstands
      have hfits := hinv.fits hget (by rw [hpoint]; rfl) hready
      rw [downcast_of_fits hfits] at hreturned
      exact (hfits output hreturned.symm).2
  . intro key
    cases hinv.keys.completed key with
    | inl hnone => omega
    | inr hone => omega
  . intro index task seat hget hpoint
    cases hstate : loads.states seat.cell with
    | running other =>
      obtain ⟨found, hfound, hbody⟩ := hinv.states.running seat.cell other hstate
      exact .inr ⟨other, found, hfound, hbody, hrunnable hfound hbody⟩
    | empty =>
      refine .inl fun reading => ?_
      unfold step
      dsimp only
      rw [hget]
      dsimp only
      unfold stepLoad
      rw [hpoint]
      dsimp only
      rw [hstate]
      rfl
    | ready result =>
      refine .inl fun reading => ?_
      unfold step
      dsimp only
      rw [hget]
      dsimp only
      unfold stepLoad
      rw [hpoint]
      dsimp only
      rw [hstate]
      rfl
  . exact hinv.receipts

theorem loads_shared_soundly (hreach : Reach.Under Opened (step sha256) (agrees sha256) loads)
    (hsha : Set.InjOn sha256 loads.invocations)
    : loads.Sound sha256 := by
  have hinv : loads.Inv sha256 := by
    apply Reach.Under.invariant _ _ hreach
    . intro loads hopened
      exact inv_opened hopened
    . intro loads move next hinv hguard hstep
      exact inv_step hinv hguard hstep
  exact hinv.sound hsha

end Reaching

section Samples

def nullInput : JsonInput where
  value := .null
  unique := by
    rw [Value.every_iff]
    exact ⟨nofun, nofun⟩
  proper := by
    rw [Value.every_iff]
    exact ⟨nofun, nofun⟩
  addressable := by decide

def ordersIdentity : DataIdentity where
  requestId := "request-1"
  routeId := "orders"
  deploymentId := "local"
  validRequest := by decide
  validRoute := by decide
  validDeployment := by decide

def ordersOptions : DataContextOptions := { maxReceipts := 128, maxCleanups := 64 }

theorem ordersLoader_nil_built : (ordersLoader []).Built :=
  ordersLoader_built nofun (by decide) (by decide)

def ordersLoad (type : TypeId) : LoadCall where
  policy := ordersLoader []
  built := ordersLoader_nil_built
  input := .value nullInput
  outputType := type

def narrowLoad : LoadCall where
  policy := { ordersLoader [] with maxOutputBytes := 10 }
  built := @LoaderPolicy.Built.withMaxOutputBytes _ _ 10 ordersLoader_nil_built rfl
  input := .value nullInput
  outputType := 0

def loadReading (answer : LoadAnswer) : LoadReading := ⟨false, false, answer⟩

def elevenBytes : Serialized := .bytes (List.replicate 11 48)

def arrives (index : Nat) : List LoadMove :=
  [.step index (loadReading .pending), .step index (loadReading .pending)]

def fills (index : Nat) : List LoadMove :=
  [.step index (loadReading .pending), .step index (loadReading .pending), .step index (loadReading .pending),
    .step index (loadReading (.ready (.ok elevenBytes))), .step index (loadReading .pending)]

theorem locate_found {loads : DataLoads} {index existing : Nat} {task : LoadTask} {key : String}
    (hshared : task.call.policy.deduplicateInRequest = true) (hfound : loads.loaderCells key = some existing)
    : loads.locate index task key = loads.goTo index task (.waiting ⟨existing, true⟩) := by
  unfold locate
  rw [if_pos hshared, hfound]

def ordersKey (sha256 : Sha256) : String :=
  invocationKey sha256 (ordersLoader []) (writeCanonicalJson .null) "orders"

def ordersLoads (sha256 : Sha256) (others : List LoadCall) : DataLoads where
  identity := ordersIdentity
  policyGrants := none
  context := {
    options := ordersOptions
    closed := false
    cancelReason := none
    cancelled := false
    cleanups := []
    tasks := []
    given := []
    read := none
    taken := false
    registered := []
    ran := []
  }
  cells := [⟨some (ordersKey sha256), false⟩]
  states := Function.update (fun _ => .empty) 0 .empty
  loaderCells := Function.update (fun _ => none) (ordersKey sha256) (some 0)
  tasks := ⟨ordersLoad 0, .waiting ⟨0, false⟩⟩ :: others.map fun call => ⟨call, .locating⟩
  receipts := []
  completed := []

theorem ordersLoads_found (sha256 : Sha256) (others : List LoadCall)
    : (ordersLoads sha256 others).loaderCells (ordersKey sha256) = some 0 := by
  exact Function.update_self (ordersKey sha256) (some 0) fun _ => none

theorem injOn_of_same {loads : DataLoads} {sha256 : Sha256} {preimage : List UInt8}
    (h : ∀ task ∈ loads.tasks, ∀ json, task.call.input = .value json →
      invocationPreimage task.call.policy (writeCanonicalJson json.value) loads.identity.routeId = preimage)
    : Set.InjOn sha256 loads.invocations := by
  rintro _ ⟨task, htask, json, hinput, rfl⟩ _ ⟨task', htask', json', hinput', rfl⟩ -
  rw [h task htask json hinput, h task' htask' json' hinput']

-- Two calls whose policies differ in what they take, and a third that asks for another type, share one output.
theorem nearly_equal_loads_share
    : ∃ loads : DataLoads, Reach.Any Opened (step sha256Digest) loads
        ∧ Set.InjOn sha256Digest loads.invocations
        ∧ loads.tasks.map LoadTask.point
          = [.returned (some ⟨0, false⟩) (.ok ⟨0, elevenBytes⟩), .returned (some ⟨0, true⟩) (.ok ⟨0, elevenBytes⟩),
            .returned (some ⟨0, true⟩) (.error (.loaderFailure "deduplicated output type mismatch"))]
        ∧ loads.tasks.map (fun task => task.call.policy.maxOutputBytes) = [262144, 10, 262144]
        ∧ loads.receipts.map (fun entry => (entry.1, entry.2.outcome))
          = [(some 0, .success), (some 1, .success), (some 2, .success)]
        ∧ ¬ loads.Sound sha256Digest := by
  generalize sha256Digest = sha256
  have hstart : Reach.Any Opened (step sha256) (ordersLoads sha256 [narrowLoad, ordersLoad 1]) := by
    obtain ⟨start, hopen⟩ : ∃ start, openLoads ordersIdentity none ordersOptions = .ok start := ⟨_, rfl⟩
    have hrun : Reach.exec (step sha256) start ([.call (ordersLoad 0), .call narrowLoad, .call (ordersLoad 1)]
        ++ arrives 0 ++ arrives 1 ++ arrives 2 ++ [.step 0 (loadReading .pending)])
        = some (ordersLoads sha256 [narrowLoad, ordersLoad 1]) := by
      cases hopen
      rfl
    exact Reach.exec_any _ (.init ⟨ordersIdentity, none, ordersOptions, hopen⟩) hrun
  have hsecond : step sha256 (ordersLoads sha256 [narrowLoad, ordersLoad 1]) (.step 1 (loadReading .pending))
      = some ((ordersLoads sha256 [narrowLoad, ordersLoad 1]).goTo 1 ⟨narrowLoad, .locating⟩ (.waiting ⟨0, true⟩)) := by
    have hlocate : step sha256 (ordersLoads sha256 [narrowLoad, ordersLoad 1]) (.step 1 (loadReading .pending))
        = some ((ordersLoads sha256 [narrowLoad, ordersLoad 1]).locate 1 ⟨narrowLoad, .locating⟩ (ordersKey sha256)) := rfl
    rw [hlocate, locate_found rfl (ordersLoads_found _ _)]
  have hthird : step sha256
        ((ordersLoads sha256 [narrowLoad, ordersLoad 1]).goTo 1 ⟨narrowLoad, .locating⟩ (.waiting ⟨0, true⟩))
        (.step 2 (loadReading .pending))
      = some (((ordersLoads sha256 [narrowLoad, ordersLoad 1]).goTo 1 ⟨narrowLoad, .locating⟩ (.waiting ⟨0, true⟩)).goTo
          2 ⟨ordersLoad 1, .locating⟩ (.waiting ⟨0, true⟩)) := by
    have hlocate : step sha256
          ((ordersLoads sha256 [narrowLoad, ordersLoad 1]).goTo 1 ⟨narrowLoad, .locating⟩ (.waiting ⟨0, true⟩))
          (.step 2 (loadReading .pending))
        = some (((ordersLoads sha256 [narrowLoad, ordersLoad 1]).goTo 1 ⟨narrowLoad, .locating⟩
            (.waiting ⟨0, true⟩)).locate 2 ⟨ordersLoad 1, .locating⟩ (ordersKey sha256)) := rfl
    have hfound : ((ordersLoads sha256 [narrowLoad, ordersLoad 1]).goTo 1 ⟨narrowLoad, .locating⟩
        (.waiting ⟨0, true⟩)).loaderCells (ordersKey sha256) = some 0 :=
      ordersLoads_found sha256 [narrowLoad, ordersLoad 1]
    rw [hlocate, locate_found rfl hfound]
  have hseated := Reach.Under.step (Reach.Under.step hstart trivial hsecond) trivial hthird
  obtain ⟨loads, hrun, hpoints, hcalls, hreceipts, hroute⟩ : ∃ loads, Reach.exec (step sha256)
      (((ordersLoads sha256 [narrowLoad, ordersLoad 1]).goTo 1 ⟨narrowLoad, .locating⟩ (.waiting ⟨0, true⟩)).goTo
          2 ⟨ordersLoad 1, .locating⟩ (.waiting ⟨0, true⟩)) (fills 0 ++ arrives 1 ++ arrives 2) = some loads
        ∧ loads.tasks.map LoadTask.point
          = [.returned (some ⟨0, false⟩) (.ok ⟨0, elevenBytes⟩), .returned (some ⟨0, true⟩) (.ok ⟨0, elevenBytes⟩),
            .returned (some ⟨0, true⟩) (.error (.loaderFailure "deduplicated output type mismatch"))]
        ∧ loads.tasks.map LoadTask.call = [ordersLoad 0, narrowLoad, ordersLoad 1]
        ∧ loads.receipts.map (fun entry => (entry.1, entry.2.outcome))
          = [(some 0, .success), (some 1, .success), (some 2, .success)]
        ∧ loads.identity = ordersIdentity := ⟨_, rfl, rfl, rfl, rfl, rfl⟩
  refine ⟨loads, Reach.exec_any _ hseated hrun, ?_, hpoints, ?_, hreceipts, ?_⟩
  . refine @injOn_of_same _ _ (invocationPreimage (ordersLoader []) (writeCanonicalJson .null) "orders") ?_
    intro task htask json hinput
    have hmem := List.mem_map_of_mem (f := LoadTask.call) htask
    rw [hcalls] at hmem
    simp only [List.mem_cons, List.not_mem_nil, or_false] at hmem
    rw [hroute]
    rcases hmem with hcall | hcall | hcall <;> rw [hcall] at hinput ⊢ <;> cases hinput <;> rfl
  . have hlimits : loads.tasks.map (fun task => task.call.policy.maxOutputBytes)
        = (loads.tasks.map LoadTask.call).map fun call => call.policy.maxOutputBytes := by
      rw [List.map_map]
      rfl
    rw [hlimits, hcalls]
    rfl
  . intro hsound
    have hpoint : (loads.tasks.map LoadTask.point)[1]? = some (.returned (some ⟨0, true⟩) (.ok ⟨0, elevenBytes⟩)) := by
      rw [hpoints]
      rfl
    have hcall : (loads.tasks.map LoadTask.call)[1]? = some narrowLoad := by
      rw [hcalls]
      rfl
    rw [List.getElem?_map, Option.map_eq_some_iff] at hpoint
    obtain ⟨task, hget, hpoint⟩ := hpoint
    rw [List.getElem?_map, hget, Option.map_some, Option.some.injEq] at hcall
    obtain ⟨text, htext, hlength⟩ := hsound.limited 1 task _ _ hget hpoint
    cases htext
    rw [hcall] at hlength
    exact absurd hlength (by decide)

theorem loads_shared_soundly_twice
    : ∃ loads : DataLoads, Reach.Under Opened (step sha256Digest) (agrees sha256Digest) loads
        ∧ Set.InjOn sha256Digest loads.invocations
        ∧ loads.tasks.map LoadTask.point
          = [.returned (some ⟨0, false⟩) (.ok ⟨0, elevenBytes⟩), .returned (some ⟨0, true⟩) (.ok ⟨0, elevenBytes⟩)]
        ∧ loads.completed.count (some (ordersKey sha256Digest)) = 1
        ∧ loads.Sound sha256Digest := by
  generalize sha256Digest = sha256
  have hplain : ∀ (loads : DataLoads) (index : Nat), loads.agrees sha256 (.step index (loadReading .pending)) :=
    fun _ _ => trivial
  have hstart : Reach.Under Opened (step sha256) (agrees sha256) (ordersLoads sha256 [ordersLoad 0]) := by
    obtain ⟨start, hopen⟩ : ∃ start, openLoads ordersIdentity none ordersOptions = .ok start := ⟨_, rfl⟩
    have hinit : Reach.Under Opened (step sha256) (agrees sha256) start :=
      .init ⟨ordersIdentity, none, ordersOptions, hopen⟩
    have hfirst : step sha256 start (.call (ordersLoad 0)) = some { start with tasks := [⟨ordersLoad 0, .entered⟩] } := by
      cases hopen
      rfl
    have hguard : start.agrees sha256 (.call (ordersLoad 0)) := by
      cases hopen
      intro task htask
      cases htask
    have hsecond : step sha256 { start with tasks := [⟨ordersLoad 0, .entered⟩] } (.call (ordersLoad 0))
        = some { start with tasks := [⟨ordersLoad 0, .entered⟩, ⟨ordersLoad 0, .entered⟩] } := rfl
    have hguard' : ({ start with tasks := [⟨ordersLoad 0, .entered⟩] } : DataLoads).agrees sha256 (.call (ordersLoad 0)) := by
      intro task htask _
      rw [List.mem_singleton] at htask
      rw [htask]
      exact ⟨rfl, rfl⟩
    have hrun : Reach.exec (step sha256) { start with tasks := [⟨ordersLoad 0, .entered⟩, ⟨ordersLoad 0, .entered⟩] }
        (arrives 0 ++ arrives 1 ++ [.step 0 (loadReading .pending)]) = some (ordersLoads sha256 [ordersLoad 0]) := by
      cases hopen
      rfl
    apply Reach.exec_under _ (Reach.Under.step (Reach.Under.step hinit hguard hfirst) hguard' hsecond) _ hrun
    intro loads move hmove
    simp only [arrives, List.cons_append, List.nil_append, List.mem_cons, List.not_mem_nil, or_false] at hmove
    rcases hmove with rfl | rfl | rfl | rfl | rfl <;> exact hplain loads _
  have hsecond : step sha256 (ordersLoads sha256 [ordersLoad 0]) (.step 1 (loadReading .pending))
      = some ((ordersLoads sha256 [ordersLoad 0]).goTo 1 ⟨ordersLoad 0, .locating⟩ (.waiting ⟨0, true⟩)) := by
    have hlocate : step sha256 (ordersLoads sha256 [ordersLoad 0]) (.step 1 (loadReading .pending))
        = some ((ordersLoads sha256 [ordersLoad 0]).locate 1 ⟨ordersLoad 0, .locating⟩ (ordersKey sha256)) := rfl
    rw [hlocate, locate_found rfl (ordersLoads_found _ _)]
  obtain ⟨loads, hrun, hpoints, hcalls, hcompleted, hroute⟩ : ∃ loads, Reach.exec (step sha256)
      ((ordersLoads sha256 [ordersLoad 0]).goTo 1 ⟨ordersLoad 0, .locating⟩ (.waiting ⟨0, true⟩))
        (fills 0 ++ arrives 1) = some loads
      ∧ loads.tasks.map LoadTask.point
        = [.returned (some ⟨0, false⟩) (.ok ⟨0, elevenBytes⟩), .returned (some ⟨0, true⟩) (.ok ⟨0, elevenBytes⟩)]
      ∧ loads.tasks.map LoadTask.call = [ordersLoad 0, ordersLoad 0]
      ∧ loads.completed = [some (ordersKey sha256)]
      ∧ loads.identity = ordersIdentity := ⟨_, rfl, rfl, rfl, rfl, rfl⟩
  have hreach : Reach.Under Opened (step sha256) (agrees sha256) loads := by
    apply Reach.exec_under _ (Reach.Under.step hstart (hplain _ 1) hsecond) _ hrun
    intro loads move hmove
    simp only [fills, arrives, List.cons_append, List.nil_append, List.mem_cons, List.not_mem_nil, or_false] at hmove
    rcases hmove with rfl | rfl | rfl | rfl | rfl | rfl | rfl <;> trivial
  have hsha : Set.InjOn sha256 loads.invocations := by
    refine @injOn_of_same _ _ (invocationPreimage (ordersLoader []) (writeCanonicalJson .null) "orders") ?_
    intro task htask json hinput
    have hmem := List.mem_map_of_mem (f := LoadTask.call) htask
    rw [hcalls] at hmem
    simp only [List.mem_cons, List.not_mem_nil, or_false, or_self] at hmem
    rw [hmem] at hinput ⊢
    rw [hroute]
    cases hinput
    rfl
  refine ⟨loads, hreach, hsha, hpoints, ?_, loads_shared_soundly hreach hsha⟩
  rw [hcompleted, List.count_singleton_self]

end Samples

end DataLoads

end Data

end Pliego
