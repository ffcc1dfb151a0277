import Pliego.Render.Ordered

/-!
The boundary body stream of `pliego-runtime`: declared boundaries whose futures run at the same time, a few at once, and
whose placeholders and renderings go out in the order of their declaration.
-/

namespace Pliego

open Bytes
open Polled

namespace Render

def isAsciiAlphabetic (byte : UInt8) : Bool := (65 ≤ byte && byte ≤ 90) || (97 ≤ byte && byte ≤ 122)

def isAsciiAlphanumeric (byte : UInt8) : Bool := isAsciiAlphabetic byte || (48 ≤ byte && byte ≤ 57)

def validateBoundaryId (id : String) : Except ServerRenderError Unit :=
  if id = "" || 64 < (utf8 id).length || !((utf8 id).head?.any isAsciiAlphabetic)
      || !(utf8 id).all (fun byte => isAsciiAlphanumeric byte || byte == 45 || byte == 95) then
    .error (.invalidBoundaryId id)
  else
    .ok ()

-- What becomes of the future of a boundary, whenever it does.
inductive BoundaryEnd where
  | returned (result : Except ServerRenderError OrderedViewChunk)
  | panicked
  | timedOut

structure AsyncBoundary where
  id : String
  future : BoundaryEnd
  valid : validateBoundaryId id = .ok ()

structure BoundaryRenderOptions where
  limits : RenderLimits
  maxBoundaries : Nat
  maxInFlight : Nat
  timeoutMs : Nat
  status : Nat
  boundaries_pos : 0 < maxBoundaries
  boundaries_le : maxBoundaries ≤ 256
  flight_pos : 0 < maxInFlight
  flight_le : maxInFlight ≤ 32
  timeout_pos : 1 ≤ timeoutMs
  timeout_le : timeoutMs ≤ 60000

def boundaryPlaceholder (id : String) : String :=
  "<template data-pliego-boundary=\"" ++ id ++ "\"></template>"

inductive BoundaryPhase where
  | prefixed
  | placeholder
  | resolution
  | suffixed
  | done
  deriving DecidableEq

-- A started future, with what it comes to once it is resolved.
structure BoundaryTask where
  id : String
  result : Except ServerRenderError OrderedViewChunk
  resolved : Bool

def AsyncBoundary.result (boundary : AsyncBoundary) (timeoutMs : Nat) : Except ServerRenderError OrderedViewChunk :=
  match boundary.future with
  | .returned result => result
  | .panicked => .error (.boundaryFuturePanic boundary.id)
  | .timedOut => .error (.boundaryTimeout boundary.id timeoutMs)

-- A boundary by its identity and what it comes to.
abbrev Declared := String × Except ServerRenderError OrderedViewChunk

def AsyncBoundary.declared (timeoutMs : Nat) (boundary : AsyncBoundary) : Declared :=
  (boundary.id, boundary.result timeoutMs)

def BoundaryTask.declared (task : BoundaryTask) : Declared := (task.id, task.result)

def renderDeclared (limits : RenderLimits) (remaining : Nat) (declared : Declared)
    : Except ServerRenderError String :=
  match declared.2 with
  | .error error => .error error
  | .ok chunk => chunk.renderWithin limits remaining (.boundaryViewPanic declared.1)

structure BoundaryBodyStream where
  pending : List AsyncBoundary
  inFlight : List BoundaryTask
  activeIds : List String
  phase : BoundaryPhase
  prefixBytes : Option (List UInt8)
  suffixBytes : Option (List UInt8)
  remaining : Nat
  options : BoundaryRenderOptions

namespace BoundaryBodyStream

def fillFrom (state : BoundaryBodyStream) (pending : List AsyncBoundary) : BoundaryBodyStream :=
  match pending with
  | [] => { state with pending := [] }
  | boundary :: rest =>
    if state.activeIds.length < state.options.maxInFlight then
      let task := ⟨boundary.id, boundary.result state.options.timeoutMs, false⟩
      { state with
        activeIds := state.activeIds ++ [boundary.id]
        inFlight := state.inFlight ++ [task] }.fillFrom rest
    else
      { state with pending := boundary :: rest }

def fillInFlight (state : BoundaryBodyStream) : BoundaryBodyStream :=
  state.fillFrom state.pending

def takePrefix (state : BoundaryBodyStream) : Poll Frame × BoundaryBodyStream :=
  (match state.prefixBytes with | some bytes => .item (.ok bytes) | none => .done,
    { state with phase := .placeholder, prefixBytes := none })

def takeSuffix (state : BoundaryBodyStream) : Poll Frame × BoundaryBodyStream :=
  (match state.suffixBytes with | some bytes => .item (.ok bytes) | none => .done,
    { state with phase := .done, suffixBytes := none })

def fail (state : BoundaryBodyStream) (error : ServerRenderError) : Poll Frame × BoundaryBodyStream :=
  (.item (.error error), { state with phase := .done })

def pollPlaceholder (state : BoundaryBodyStream) : Poll Frame × BoundaryBodyStream :=
  match state.activeIds.head? with
  | none => { state with phase := .suffixed }.takeSuffix
  | some id => (.item (.ok (utf8 (boundaryPlaceholder id))), { state with phase := .resolution })

-- What follows once the next future is resolved and the work in flight is filled up again.
def settle (state : BoundaryBodyStream) (declared : Declared) : Poll Frame × BoundaryBodyStream :=
  match renderDeclared state.options.limits state.remaining declared with
  | .error error => state.fail error
  | .ok rendered =>
    if state.remaining < (utf8 rendered).length then
      (.panicked, state)
    else
      let state := { state with
        remaining := state.remaining - (utf8 rendered).length
        phase := .placeholder }
      if rendered = "" then state.pollPlaceholder else (.item (.ok (utf8 rendered)), state)

def pollResolution (state : BoundaryBodyStream) : Poll Frame × BoundaryBodyStream :=
  match state.inFlight.head? with
  | none => state.fail .boundaryStreamEndedEarly
  | some task =>
    if !task.resolved then
      (.pending, state)
    else
      match state.activeIds.head? with
      -- "a boundary task always has a declared identity"
      | none => (.panicked, state)
      | some expected =>
        let state := { state with inFlight := state.inFlight.tail, activeIds := state.activeIds.tail }
        if task.id ≠ expected then
          state.fail .boundaryOrderViolation
        else
          state.fillInFlight.settle task.declared

def pollNext (state : BoundaryBodyStream) : Poll Frame × BoundaryBodyStream :=
  match state.phase with
  | .prefixed => state.takePrefix
  | .placeholder => state.pollPlaceholder
  | .resolution => state.pollResolution
  | .suffixed => state.takeSuffix
  | .done => (.done, state)

-- The started future at this place is resolved: by itself, by a panic or by the end of its time.
def resolve (state : BoundaryBodyStream) (index : Nat) : BoundaryBodyStream :=
  { state with inFlight := state.inFlight.modify index fun task => { task with resolved := true } }

def machine : Machine BoundaryBodyStream Nat Frame where
  poll := pollNext
  event := resolve

end BoundaryBodyStream

-- The loop over the declared boundaries, for at most so many of them.
def declare (declared : List AsyncBoundary) (boundaries : List AsyncBoundary) (placeholderBytes room : Nat)
    : Except ServerRenderError (List AsyncBoundary × Nat × List AsyncBoundary) :=
  match room, boundaries with
  | 0, rest => .ok (declared, placeholderBytes, rest)
  | _ + 1, [] => .ok (declared, placeholderBytes, [])
  | room + 1, boundary :: rest =>
    if declared.any (·.id == boundary.id) then
      .error (.duplicateBoundaryId boundary.id)
    else
      match checkedAdd placeholderBytes (utf8 (boundaryPlaceholder boundary.id)).length with
      | none => .error .outputLimitTooSmall
      | some placeholderBytes => declare (declared ++ [boundary]) rest placeholderBytes room

def boundaryResponse (prefixText suffixText : String) (boundaries : List AsyncBoundary)
    (options : BoundaryRenderOptions) : Except ServerRenderError BoundaryBodyStream := do
  validateBodyStatus options.status
  let (pending, placeholderBytes, rest) ← declare [] boundaries 0 options.maxBoundaries
  if !rest.isEmpty then
    .error (.tooManyBoundaries options.maxBoundaries)
  else
    match (checkedAdd (utf8 prefixText).length (utf8 suffixText).length).bind (checkedAdd · placeholderBytes) with
    | none => .error .outputLimitTooSmall
    | some overhead =>
      match checkedSub options.limits.maxOutputBytes overhead with
      | none => .error .outputLimitTooSmall
      | some remaining =>
        let stream : BoundaryBodyStream := {
          pending := pending
          inFlight := []
          activeIds := []
          phase := .prefixed
          prefixBytes := some (utf8 prefixText)
          suffixBytes := some (utf8 suffixText)
          remaining := remaining
          options := options }
        .ok stream.fillInFlight

def declaredHtml (limits : RenderLimits) (declared : Declared) : Option String :=
  match declared.2 with
  | .error _ => none
  | .ok chunk => chunk.html limits

theorem renderDeclared_eq_ok {limits : RenderLimits} {remaining : Nat} {declared : Declared} {text : String}
    (hroom : remaining ≤ limits.maxOutputBytes)
    : renderDeclared limits remaining declared = .ok text
      ↔ declaredHtml limits declared = some text ∧ (utf8 text).length ≤ remaining := by
  unfold renderDeclared declaredHtml
  cases declared.2 with
  | error error => simp
  | ok chunk => exact OrderedViewChunk.renderWithin_eq_ok hroom

def owedBoundaries (limits : RenderLimits) (suffixBytes : List UInt8) (remaining : Nat) (boundaries : List Declared)
    : List Frame :=
  match boundaries with
  | [] => [.ok suffixBytes]
  | boundary :: rest =>
    .ok (utf8 (boundaryPlaceholder boundary.1)) ::
      match renderDeclared limits remaining boundary with
      | .error error => [.error error]
      | .ok rendered =>
        frameOf rendered ++ owedBoundaries limits suffixBytes (remaining - (utf8 rendered).length) rest

namespace BoundaryBodyStream

def boundaries (state : BoundaryBodyStream) : List Declared :=
  state.inFlight.map (·.declared) ++ state.pending.map (·.declared state.options.timeoutMs)

def owed (state : BoundaryBodyStream) : List Frame :=
  let suffixBytes := state.suffixBytes.getD []
  let body := owedBoundaries state.options.limits suffixBytes state.remaining state.boundaries
  match state.phase with
  | .prefixed => .ok (state.prefixBytes.getD []) :: body
  | .placeholder => body
  | .resolution => body.tail
  | .suffixed => [.ok suffixBytes]
  | .done => []

-- The identities kept beside the started futures are theirs, and no more are started than may be.
structure Started (state : BoundaryBodyStream) : Prop where
  ids : state.activeIds = state.inFlight.map (·.id)
  flight : state.inFlight.length ≤ state.options.maxInFlight

structure Filled (state : BoundaryBodyStream) : Prop where
  started : state.Started
  filled : state.inFlight.length < state.options.maxInFlight → state.pending = []
  room : state.remaining ≤ state.options.limits.maxOutputBytes
  first : state.phase = .prefixed → state.prefixBytes.isSome
  last : state.phase ≠ .done → state.suffixBytes.isSome

structure Inv (state : BoundaryBodyStream) : Prop where
  filled : state.Filled
  resolving : state.phase = .resolution → state.inFlight ≠ []

variable {state : BoundaryBodyStream}

theorem fillFrom_spec (h : state.Started) (pending : List AsyncBoundary)
    : let filled := state.fillFrom pending
      filled.Started ∧ (filled.inFlight.length < filled.options.maxInFlight → filled.pending = [])
        ∧ filled.boundaries = state.inFlight.map (·.declared) ++ pending.map (·.declared state.options.timeoutMs)
        ∧ filled.phase = state.phase ∧ filled.prefixBytes = state.prefixBytes
        ∧ filled.suffixBytes = state.suffixBytes ∧ filled.remaining = state.remaining
        ∧ filled.options = state.options := by
  induction pending generalizing state with
  | nil => exact ⟨⟨h.ids, h.flight⟩, fun _ => rfl, rfl, rfl, rfl, rfl, rfl, rfl⟩
  | cons boundary rest ih =>
    unfold fillFrom
    split
    . next hroom =>
      have hnext : Started { state with
          activeIds := state.activeIds ++ [boundary.id]
          inFlight := state.inFlight ++ [⟨boundary.id, boundary.result state.options.timeoutMs, false⟩] } := by
        constructor
        . rw [h.ids]
          simp
        . rw [h.ids] at hroom
          simp at hroom ⊢
          omega
      obtain ⟨hstarted, hfilled, hboundaries, hrest⟩ := ih hnext
      refine ⟨hstarted, hfilled, ?_, hrest⟩
      rw [hboundaries]
      simp [BoundaryTask.declared, AsyncBoundary.declared]
    . next hfull =>
      refine ⟨⟨h.ids, h.flight⟩, ?_, rfl, rfl, rfl, rfl, rfl, rfl⟩
      intro hshort
      rw [h.ids, List.length_map] at hfull
      exact absurd hshort hfull

section

variable (h : state.Filled)

include h

theorem Filled.boundaries_nil (hflight : state.inFlight = [])
    : state.boundaries = [] := by
  have hpending : state.pending = [] := by
    apply h.filled
    rw [hflight]
    exact state.options.flight_pos
  unfold boundaries
  rw [hflight, hpending]
  rfl

theorem Filled.fail (error : ServerRenderError)
    : (state.fail error).2.Inv ∧ Answers (state.fail error).1 [.error error] (state.fail error).2.owed := by
  constructor
  . exact ⟨⟨⟨h.started.ids, h.started.flight⟩, h.filled, h.room, nofun, fun hrunning => absurd rfl hrunning⟩, nofun⟩
  . rfl

theorem Filled.takeSuffix (hphase : state.phase ≠ .done)
    : state.takeSuffix.2.Inv
      ∧ Answers state.takeSuffix.1 [.ok (state.suffixBytes.getD [])] state.takeSuffix.2.owed := by
  obtain ⟨bytes, hbytes⟩ := Option.isSome_iff_exists.mp (h.last hphase)
  constructor
  . exact ⟨⟨⟨h.started.ids, h.started.flight⟩, h.filled, h.room, nofun, fun hrunning => absurd rfl hrunning⟩, nofun⟩
  . unfold BoundaryBodyStream.takeSuffix
    rw [hbytes]
    rfl

theorem Filled.takePrefix (hphase : state.phase = .prefixed)
    : state.takePrefix.2.Inv ∧ Answers state.takePrefix.1 state.owed state.takePrefix.2.owed := by
  obtain ⟨bytes, hbytes⟩ := Option.isSome_iff_exists.mp (h.first hphase)
  constructor
  . exact ⟨⟨⟨h.started.ids, h.started.flight⟩, h.filled, h.room, nofun,
      fun _ => h.last (by rw [hphase]; nofun)⟩, nofun⟩
  . unfold BoundaryBodyStream.takePrefix BoundaryBodyStream.owed
    rw [hphase, hbytes]
    rfl

theorem Filled.pollPlaceholder (hphase : state.phase = .placeholder)
    : state.pollPlaceholder.2.Inv
      ∧ Answers state.pollPlaceholder.1
          (owedBoundaries state.options.limits (state.suffixBytes.getD []) state.remaining state.boundaries)
          state.pollPlaceholder.2.owed := by
  have hrunning : state.phase ≠ .done := by
    rw [hphase]
    nofun
  have hids : state.activeIds.head? = state.inFlight.head?.map (·.id) := by
    rw [h.started.ids, List.head?_map]
  unfold BoundaryBodyStream.pollPlaceholder
  rw [hids]
  cases hhead : state.inFlight.head? with
  | none =>
    have hended : Filled { state with phase := .suffixed } :=
      ⟨⟨h.started.ids, h.started.flight⟩, h.filled, h.room, nofun, fun _ => h.last hrunning⟩
    rw [h.boundaries_nil (List.head?_eq_none_iff.mp hhead)]
    exact hended.takeSuffix nofun
  | some task =>
    obtain ⟨tasks, hflight⟩ := List.head?_eq_some_iff.mp hhead
    constructor
    . refine ⟨⟨⟨h.started.ids, h.started.flight⟩, h.filled, h.room, nofun, fun _ => h.last hrunning⟩, ?_⟩
      intro _ hnone
      rw [hflight] at hnone
      cases hnone
    . have hboundaries : state.boundaries
          = task.declared :: (tasks.map (·.declared) ++ state.pending.map (·.declared state.options.timeoutMs)) := by
        unfold boundaries
        rw [hflight]
        rfl
      have howed : owed { state with phase := .resolution }
          = (owedBoundaries state.options.limits (state.suffixBytes.getD []) state.remaining state.boundaries).tail := rfl
      dsimp only [Option.map_some]
      rw [howed, hboundaries]
      rfl

theorem Filled.settle (hphase : state.phase = .resolution) (declared : Declared)
    : (state.settle declared).2.Inv
      ∧ Answers (state.settle declared).1
          (match renderDeclared state.options.limits state.remaining declared with
            | .error error => [.error error]
            | .ok rendered => frameOf rendered ++ owedBoundaries state.options.limits (state.suffixBytes.getD [])
                (state.remaining - (utf8 rendered).length) state.boundaries)
          (state.settle declared).2.owed := by
  have hrunning : state.phase ≠ .done := by
    rw [hphase]
    nofun
  unfold BoundaryBodyStream.settle
  cases hrendered : renderDeclared state.options.limits state.remaining declared with
  | error error => exact h.fail error
  | ok rendered =>
    have hroom := (renderDeclared_eq_ok h.room).mp hrendered |>.2
    have hspent : Filled { state with
        remaining := state.remaining - (utf8 rendered).length, phase := .placeholder } :=
      ⟨⟨h.started.ids, h.started.flight⟩, h.filled, Nat.le_trans (Nat.sub_le _ _) h.room, nofun, fun _ => h.last hrunning⟩
    dsimp only
    rw [if_neg (Nat.not_lt.mpr hroom)]
    unfold frameOf
    split
    . exact hspent.pollPlaceholder rfl
    . exact ⟨⟨hspent, nofun⟩, rfl⟩

end

theorem Inv.pollResolution (h : state.Inv) (hphase : state.phase = .resolution)
    : state.pollResolution.2.Inv
      ∧ Answers state.pollResolution.1 state.owed state.pollResolution.2.owed := by
  obtain ⟨task, tasks, hflight⟩ := List.exists_cons_of_ne_nil (h.resolving hphase)
  have hids : state.activeIds = task.id :: tasks.map (·.id) := by
    rw [h.filled.started.ids, hflight, List.map_cons]
  have htaken : Started { state with inFlight := tasks, activeIds := tasks.map (·.id) } := by
    refine ⟨rfl, ?_⟩
    have hlength := h.filled.started.flight
    rw [hflight, List.length_cons] at hlength
    exact Nat.le_of_succ_le hlength
  obtain ⟨hstarted, hfilled, hboundaries, hfphase, hfprefix, hfsuffix, hfremaining, hfoptions⟩ :=
    fillFrom_spec htaken state.pending
  unfold BoundaryBodyStream.pollResolution fillInFlight
  rw [hids, hflight, List.head?_cons, List.head?_cons, List.tail_cons, List.tail_cons]
  dsimp only
  cases hresolved : task.resolved with
  | false => exact ⟨h, rfl⟩
  | true =>
    rw [if_neg (by decide), if_neg (not_not_intro rfl)]
    generalize fillFrom _ state.pending = filled at *
    have hready : filled.Filled := by
      refine ⟨hstarted, hfilled, ?_, ?_, ?_⟩
      . rw [hfremaining, hfoptions]
        exact h.filled.room
      . rw [hfphase, hphase]
        nofun
      . intro _
        rw [hfsuffix]
        exact h.filled.last (by rw [hphase]; nofun)
    have hsettle := hready.settle (hfphase.trans hphase) task.declared
    rw [hboundaries, hfoptions, hfremaining, hfsuffix] at hsettle
    have howed : state.owed
        = match renderDeclared state.options.limits state.remaining task.declared with
          | .error error => [.error error]
          | .ok rendered => frameOf rendered ++ owedBoundaries state.options.limits (state.suffixBytes.getD [])
              (state.remaining - (utf8 rendered).length)
              (tasks.map (·.declared) ++ state.pending.map (·.declared state.options.timeoutMs)) := by
      unfold owed boundaries
      rw [hphase, hflight]
      rfl
    rw [howed]
    exact hsettle

theorem map_resolved {β : Type} {g : BoundaryTask → β} (hsame : ∀ task, g { task with resolved := true } = g task)
    (inFlight : List BoundaryTask) (index : Nat)
    : (inFlight.modify index fun task => { task with resolved := true }).map g = inFlight.map g := by
  induction inFlight generalizing index with
  | nil => rw [List.modify_nil]
  | cons task tasks ih =>
    cases index with
    | zero => rw [List.modify_zero_cons, List.map_cons, List.map_cons, hsame]
    | succ index => rw [List.modify_succ_cons, List.map_cons, List.map_cons, ih]

theorem Inv.resolve (h : state.Inv) (index : Nat)
    : (state.resolve index).Inv ∧ (state.resolve index).owed = state.owed := by
  have hlength : (state.resolve index).inFlight.length = state.inFlight.length := List.length_modify _ _ _
  have hboundaries : (state.resolve index).boundaries = state.boundaries := by
    unfold boundaries BoundaryBodyStream.resolve
    rw [map_resolved (fun _ => rfl)]
  constructor
  . refine ⟨⟨⟨?_, ?_⟩, ?_, h.filled.room, h.filled.first, h.filled.last⟩, ?_⟩
    . exact h.filled.started.ids.trans (map_resolved (fun _ => rfl) _ _).symm
    . rw [hlength]
      exact h.filled.started.flight
    . rw [hlength]
      exact h.filled.filled
    . intro hphase hnone
      rw [← List.length_eq_zero_iff, hlength, List.length_eq_zero_iff] at hnone
      exact h.resolving hphase hnone
  . unfold owed
    rw [hboundaries]
    rfl

theorem owes : machine.Owes Inv owed where
  event := fun _ index h => h.resolve index
  poll := by
    intro state h
    change state.pollNext.2.Inv ∧ Answers state.pollNext.1 state.owed state.pollNext.2.owed
    unfold pollNext
    cases hphase : state.phase with
    | prefixed => exact h.filled.takePrefix hphase
    | placeholder =>
      have howed : state.owed
          = owedBoundaries state.options.limits (state.suffixBytes.getD []) state.remaining state.boundaries := by
        unfold owed
        rw [hphase]
      rw [howed]
      exact h.filled.pollPlaceholder hphase
    | resolution => exact h.pollResolution hphase
    | suffixed =>
      have howed : state.owed = [.ok (state.suffixBytes.getD [])] := by
        unfold owed
        rw [hphase]
      rw [howed]
      exact h.filled.takeSuffix (by rw [hphase]; nofun)
    | done =>
      have howed : state.owed = [] := by
        unfold owed
        rw [hphase]
      exact ⟨h, howed, howed⟩

theorem pending_unresolved (h : state.pollNext.1 = .pending)
    : state.phase = .resolution ∧ ∃ task, state.inFlight.head? = some task ∧ task.resolved = false := by
  have hprefix : state.takePrefix.1 ≠ .pending := by
    unfold takePrefix
    cases state.prefixBytes <;> nofun
  have hsuffix : ∀ other : BoundaryBodyStream, other.takeSuffix.1 ≠ .pending := by
    intro other
    unfold takeSuffix
    cases other.suffixBytes <;> nofun
  have hplaceholder : ∀ other : BoundaryBodyStream, other.pollPlaceholder.1 ≠ .pending := by
    intro other
    unfold pollPlaceholder
    split
    . apply hsuffix
    . nofun
  have hsettle : ∀ (other : BoundaryBodyStream) (declared : Declared), (other.settle declared).1 ≠ .pending := by
    intro other declared
    unfold settle
    dsimp only
    split
    . nofun
    . split
      . nofun
      . split
        . apply hplaceholder
        . nofun
  unfold pollNext at h
  cases hphase : state.phase with
  | prefixed =>
    rw [hphase] at h
    exact absurd h hprefix
  | placeholder =>
    rw [hphase] at h
    exact absurd h (hplaceholder state)
  | resolution =>
    refine ⟨rfl, ?_⟩
    rw [hphase] at h
    dsimp only at h
    unfold pollResolution at h
    cases hhead : state.inFlight.head? with
    | none =>
      rw [hhead] at h
      cases h
    | some task =>
      refine ⟨task, rfl, ?_⟩
      cases hresolved : task.resolved with
      | false => rfl
      | true =>
        rw [hhead] at h
        dsimp only at h
        rw [hresolved, if_neg (by decide)] at h
        split at h
        . cases h
        . split at h
          . cases h
          . exact absurd h (hsettle _ _)
  | suffixed =>
    rw [hphase] at h
    exact absurd h (hsuffix state)
  | done =>
    rw [hphase] at h
    cases h

end BoundaryBodyStream

def boundaryFrames (ids texts : List String) : List Frame :=
  (ids.zip texts).flatMap fun entry => .ok (utf8 (boundaryPlaceholder entry.1)) :: frameOf entry.2

-- The suffix where every boundary was accepted; else the placeholder of the first one that was not, and the error.
def BoundaryEnds (suffixBytes : List UInt8) (ids texts : List String) (ending : List Frame) : Prop :=
  (texts.length = ids.length ∧ ending = [.ok suffixBytes])
    ∨ ∃ id error, ids[texts.length]? = some id ∧ ending = [.ok (utf8 (boundaryPlaceholder id)), .error error]

theorem BoundaryEnds.cons {suffixBytes : List UInt8} {ids texts : List String} {ending : List Frame}
    (h : BoundaryEnds suffixBytes ids texts ending) (id text : String)
    : BoundaryEnds suffixBytes (id :: ids) (text :: texts) ending := by
  cases h with
  | inl hall => exact .inl ⟨by rw [List.length_cons, List.length_cons, hall.1], hall.2⟩
  | inr hsome => exact .inr hsome

theorem owedBoundaries_eq (limits : RenderLimits) (suffixBytes : List UInt8) {remaining : Nat}
    (hroom : remaining ≤ limits.maxOutputBytes) (boundaries : List Declared)
    : ∃ ending, owedBoundaries limits suffixBytes remaining boundaries
          = boundaryFrames (boundaries.map Prod.fst) (accepted remaining (boundaries.map (declaredHtml limits))) ++ ending
        ∧ BoundaryEnds suffixBytes (boundaries.map Prod.fst)
          (accepted remaining (boundaries.map (declaredHtml limits))) ending := by
  induction boundaries generalizing remaining with
  | nil => exact ⟨_, rfl, .inl ⟨rfl, rfl⟩⟩
  | cons boundary rest ih =>
    unfold owedBoundaries
    rw [List.map_cons, List.map_cons]
    cases hrendered : renderDeclared limits remaining boundary with
    | error error =>
      have hnone : accepted remaining (declaredHtml limits boundary :: rest.map (declaredHtml limits)) = [] := by
        cases hhtml : declaredHtml limits boundary with
        | none => rfl
        | some text =>
          unfold accepted
          split
          . next hfits =>
            rw [(renderDeclared_eq_ok hroom).mpr ⟨hhtml, hfits⟩] at hrendered
            cases hrendered
          . rfl
      rw [hnone]
      exact ⟨_, rfl, .inr ⟨boundary.1, error, rfl, rfl⟩⟩
    | ok rendered =>
      obtain ⟨hhtml, hfits⟩ := (renderDeclared_eq_ok hroom).mp hrendered
      obtain ⟨ending, howed, hends⟩ := ih (Nat.le_trans (Nat.sub_le remaining (utf8 rendered).length) hroom)
      refine ⟨ending, ?_, ?_⟩
      . rw [hhtml, accepted_some hfits]
        dsimp only
        rw [howed]
        unfold boundaryFrames
        rw [List.zip_cons_cons, List.flatMap_cons, List.cons_append, List.cons_append, List.append_assoc]
      . rw [hhtml, accepted_some hfits]
        exact hends.cons boundary.1 rendered

def placeholderTotal (ids : List String) : Nat :=
  (ids.map fun id => (utf8 (boundaryPlaceholder id)).length).sum

theorem owedBoundaries_total (limits : RenderLimits) (suffixBytes : List UInt8) {remaining : Nat}
    (hroom : remaining ≤ limits.maxOutputBytes) (boundaries : List Declared)
    : frameTotal (owedBoundaries limits suffixBytes remaining boundaries)
        ≤ placeholderTotal (boundaries.map Prod.fst) + remaining + suffixBytes.length := by
  induction boundaries generalizing remaining with
  | nil =>
    change suffixBytes.length + 0 ≤ _
    omega
  | cons boundary rest ih =>
    have hplaceholder : placeholderTotal ((boundary :: rest).map Prod.fst)
        = (utf8 (boundaryPlaceholder boundary.1)).length + placeholderTotal (rest.map Prod.fst) := by
      unfold placeholderTotal
      rw [List.map_cons, List.map_cons, List.sum_cons]
    unfold owedBoundaries
    rw [frameTotal_cons, hplaceholder]
    change (utf8 (boundaryPlaceholder boundary.1)).length + _ ≤ _
    cases hrendered : renderDeclared limits remaining boundary with
    | error error =>
      change _ + 0 ≤ _
      omega
    | ok rendered =>
      have hfits := (renderDeclared_eq_ok hroom).mp hrendered |>.2
      have hrest := ih (Nat.le_trans (Nat.sub_le remaining (utf8 rendered).length) hroom)
      dsimp only
      rw [frameTotal_append, frameTotal_frameOf]
      omega

theorem declare_eq_ok {declared boundaries pending rest : List AsyncBoundary} {placeholderBytes total room : Nat}
    (h : declare declared boundaries placeholderBytes room = .ok (pending, total, rest))
    : ∃ front, boundaries = front ++ rest ∧ pending = declared ++ front
        ∧ total = placeholderBytes + placeholderTotal (front.map (·.id)) := by
  induction room generalizing declared boundaries placeholderBytes with
  | zero =>
    unfold declare at h
    cases h
    exact ⟨[], rfl, (List.append_nil _).symm, rfl⟩
  | succ room ih =>
    cases boundaries with
    | nil =>
      unfold declare at h
      cases h
      exact ⟨[], rfl, (List.append_nil _).symm, rfl⟩
    | cons boundary others =>
      unfold declare at h
      split at h
      . cases h
      . cases hsum : checkedAdd placeholderBytes (utf8 (boundaryPlaceholder boundary.id)).length with
        | none =>
          rw [hsum] at h
          cases h
        | some sum =>
          rw [hsum] at h
          obtain ⟨front, hfront, hpending, htotal⟩ := ih h
          refine ⟨boundary :: front, ?_, ?_, ?_⟩
          . rw [hfront, List.cons_append]
          . rw [hpending, List.append_assoc]
            rfl
          . have hadded := checkedAdd_eq_some hsum
            unfold placeholderTotal at htotal ⊢
            rw [List.map_cons, List.map_cons, List.sum_cons]
            omega

namespace BoundaryBodyStream

variable {prefixText suffixText : String} {boundaries : List AsyncBoundary} {options : BoundaryRenderOptions}
    {stream : BoundaryBodyStream}

theorem boundaryResponse_eq_ok (h : boundaryResponse prefixText suffixText boundaries options = .ok stream)
    : ∃ remaining, (utf8 prefixText).length + (utf8 suffixText).length + placeholderTotal (boundaries.map (·.id))
          + remaining = options.limits.maxOutputBytes
        ∧ stream = fillInFlight ⟨boundaries, [], [], .prefixed, some (utf8 prefixText), some (utf8 suffixText), remaining,
          options⟩ := by
  unfold boundaryResponse at h
  obtain ⟨⟨⟩, _, hrest⟩ := Except.bind_eq_ok.mp h
  obtain ⟨⟨pending, placeholderBytes, rest⟩, hdeclare, hstream⟩ := Except.bind_eq_ok.mp hrest
  obtain ⟨front, hfront, hpending, htotal⟩ := declare_eq_ok hdeclare
  dsimp only at hstream
  cases rest with
  | cons boundary others => cases hstream
  | nil =>
    rw [List.append_nil] at hfront
    rw [List.nil_append, ← hfront] at hpending
    rw [Nat.zero_add, ← hfront] at htotal
    subst hpending
    rw [if_neg (by decide)] at hstream
    cases hsum : checkedAdd (utf8 prefixText).length (utf8 suffixText).length with
    | none =>
      rw [hsum] at hstream
      cases hstream
    | some sum =>
      rw [hsum, Option.bind_some] at hstream
      cases hwhole : checkedAdd sum placeholderBytes with
      | none =>
        rw [hwhole] at hstream
        cases hstream
      | some overhead =>
        rw [hwhole] at hstream
        dsimp only at hstream
        cases hleft : checkedSub options.limits.maxOutputBytes overhead with
        | none =>
          rw [hleft] at hstream
          cases hstream
        | some remaining =>
          rw [hleft] at hstream
          cases hstream
          have hadded := checkedAdd_eq_some hsum
          have hoverhead := checkedAdd_eq_some hwhole
          have hremaining := checkedSub_eq_some hleft
          exact ⟨remaining, by omega, rfl⟩

theorem fillFrom_options (state : BoundaryBodyStream) (pending : List AsyncBoundary)
    : (state.fillFrom pending).options = state.options := by
  induction pending generalizing state with
  | nil => rfl
  | cons boundary rest ih =>
    unfold fillFrom
    split
    . exact ih _
    . rfl

theorem pollPlaceholder_options (state : BoundaryBodyStream)
    : state.pollPlaceholder.2.options = state.options := by
  unfold pollPlaceholder
  split <;> rfl

theorem settle_options (state : BoundaryBodyStream) (declared : Declared)
    : (state.settle declared).2.options = state.options := by
  unfold settle
  dsimp only
  split
  . rfl
  . split
    . rfl
    . split
      . apply pollPlaceholder_options
      . rfl

theorem pollNext_options (state : BoundaryBodyStream)
    : state.pollNext.2.options = state.options := by
  unfold pollNext
  split
  . rfl
  . apply pollPlaceholder_options
  . unfold pollResolution
    dsimp only
    split
    . rfl
    . split
      . rfl
      . split
        . rfl
        . split
          . rfl
          . rw [settle_options]
            apply fillFrom_options
  . rfl
  . rfl

theorem run_options (state : BoundaryBodyStream) (labels : List (Label Nat))
    : (machine.run state labels).2.options = state.options := by
  induction labels generalizing state with
  | nil => rfl
  | cons label rest ih =>
    cases label with
    | poll => exact (ih state.pollNext.2).trans (pollNext_options state)
    | event index => exact ih (state.resolve index)

-- What the polls of a boundary stream hand out: the prefix, the placeholders and accepted renderings, and its end. A poll
-- makes the consumer wait only for the future that is next.
def Delivery (prefixText suffixText : String) (boundaries : List AsyncBoundary) (options : BoundaryRenderOptions)
    (polls : List (Poll Frame)) (reached : BoundaryBodyStream) : Prop :=
  let ids := boundaries.map (·.id)
  let overhead := (utf8 prefixText).length + (utf8 suffixText).length + placeholderTotal ids
  let texts := accepted (options.limits.maxOutputBytes - overhead)
    (boundaries.map fun boundary => declaredHtml options.limits (boundary.declared options.timeoutMs))
  ∃ ending, BoundaryEnds (utf8 suffixText) ids texts ending
    ∧ Hands polls (.ok (utf8 prefixText) :: (boundaryFrames ids texts ++ ending)) options.limits.maxOutputBytes
    ∧ (reached.pollNext.1 = .pending → ∃ task, reached.inFlight.head? = some task ∧ task.resolved = false)
    ∧ (reached.inFlight.filter (!·.resolved)).length ≤ options.maxInFlight

theorem run_delivery (h : boundaryResponse prefixText suffixText boundaries options = .ok stream) (labels : List (Label Nat))
    : Delivery prefixText suffixText boundaries options (machine.run stream labels).1 (machine.run stream labels).2 := by
  obtain ⟨remaining, hroom, hstream⟩ := boundaryResponse_eq_ok h
  have hempty : Started ⟨boundaries, [], [], .prefixed, some (utf8 prefixText), some (utf8 suffixText), remaining, options⟩ :=
    ⟨rfl, Nat.zero_le _⟩
  obtain ⟨hstarted, hfilled, hboundaries, hphase, hprefixed, hsuffixed, hremaining, hoptions⟩ :=
    fillFrom_spec hempty boundaries
  change stream = fillFrom _ boundaries at hstream
  rw [← hstream] at hstarted hfilled hboundaries hphase hprefixed hsuffixed hremaining hoptions
  have hinv : stream.Inv := by
    refine ⟨⟨hstarted, hfilled, ?_, ?_, ?_⟩, ?_⟩
    . rw [hremaining, hoptions]
      dsimp only
      omega
    . intro _
      rw [hprefixed]
      rfl
    . intro _
      rw [hsuffixed]
      rfl
    . intro hresolution
      rw [hphase] at hresolution
      cases hresolution
  have howed : stream.owed = .ok (utf8 prefixText) :: owedBoundaries options.limits (utf8 suffixText) remaining
      (boundaries.map (·.declared options.timeoutMs)) := by
    unfold owed
    rw [hphase, hboundaries, hprefixed, hsuffixed, hremaining, hoptions]
    rfl
  have hids : (boundaries.map (·.declared options.timeoutMs)).map Prod.fst = boundaries.map (·.id) := by
    rw [List.map_map]
    rfl
  have hleft : remaining ≤ options.limits.maxOutputBytes := by omega
  obtain ⟨ending, hframes, hends⟩ := owedBoundaries_eq options.limits (utf8 suffixText) hleft
    (boundaries.map (·.declared options.timeoutMs))
  rw [hids, List.map_map] at hframes hends
  unfold Delivery
  dsimp only
  rw [show options.limits.maxOutputBytes - ((utf8 prefixText).length + (utf8 suffixText).length
    + placeholderTotal (boundaries.map (·.id))) = remaining by omega]
  refine ⟨ending, hends, ⟨?_, ?_, owes.run_panicked labels hinv⟩, fun hpending => (pending_unresolved hpending).2, ?_⟩
  . rw [owes.run_take labels hinv, howed, hframes]
    rfl
  . have htotal := owedBoundaries_total options.limits (utf8 suffixText) hleft
      (boundaries.map (·.declared options.timeoutMs))
    rw [hids] at htotal
    rw [owes.run_take labels hinv, howed]
    apply Nat.le_trans (frameTotal_take_le _ _)
    rw [frameTotal_cons]
    change (utf8 prefixText).length + _ ≤ _
    omega
  . have hflight := (owes.run_inv labels hinv).filled.started.flight
    rw [run_options, hoptions] at hflight
    exact Nat.le_trans (List.length_filter_le _ _) hflight

end BoundaryBodyStream

theorem streams_deliver {prefixText suffixText : String} {input : List InputPoll} {boundaries : List AsyncBoundary}
    {orderedOptions : OrderedRenderOptions} {boundaryOptions : BoundaryRenderOptions} {ordered : OrderedBodyStream}
    {bounded : BoundaryBodyStream}
    (hordered : orderedResponse prefixText suffixText input orderedOptions = .ok ordered)
    (hbounded : boundaryResponse prefixText suffixText boundaries boundaryOptions = .ok bounded)
    (polls : List (Label Empty)) (schedule : List (Label Nat))
    : OrderedBodyStream.Delivery prefixText suffixText input orderedOptions (OrderedBodyStream.machine.run ordered polls).1
      ∧ BoundaryBodyStream.Delivery prefixText suffixText boundaries boundaryOptions
        (BoundaryBodyStream.machine.run bounded schedule).1 (BoundaryBodyStream.machine.run bounded schedule).2 :=
  ⟨OrderedBodyStream.run_delivery hordered polls, BoundaryBodyStream.run_delivery hbounded schedule⟩

def sampleLimits : RenderLimits := ⟨8, 16, 106, by decide, by decide, by decide⟩

def sampleChunk (text : String) : OrderedViewChunk := ⟨.returned (.ok [.visit 1, .text text none])⟩

-- Two boundaries of which the second is resolved first and is one byte too long.
theorem streams_deliver_sample
    : ∃ (ordered : OrderedBodyStream) (bounded : BoundaryBodyStream) (polls : List (Label Empty))
        (schedule : List (Label Nat)),
        delivered (OrderedBodyStream.machine.run ordered polls).1
          = [.ok (utf8 "<p>"), .ok (utf8 "&lt;"), .ok (utf8 "</p>")]
        ∧ delivered (BoundaryBodyStream.machine.run bounded schedule).1
          = [.ok (utf8 "<p>"), .ok (utf8 (boundaryPlaceholder "a")), .ok (utf8 "&lt;"),
            .ok (utf8 (boundaryPlaceholder "b")), .error (.dom (.limitExceeded .outputBytes 3))]
        ∧ OrderedBodyStream.Delivery "<p>" "</p>" [.pending, .ready (sampleChunk ""), .ready (sampleChunk "<")]
          ⟨sampleLimits, 2, 200, by decide, by decide⟩ (OrderedBodyStream.machine.run ordered polls).1
        ∧ BoundaryBodyStream.Delivery "<p>" "</p>"
          [⟨"a", .returned (.ok (sampleChunk "<")), by rfl⟩, ⟨"b", .returned (.ok (sampleChunk "long")), by rfl⟩]
          ⟨sampleLimits, 2, 2, 1, 200, by decide, by decide, by decide, by decide, by decide, by decide⟩
          (BoundaryBodyStream.machine.run bounded schedule).1 (BoundaryBodyStream.machine.run bounded schedule).2 := by
  obtain ⟨ordered, hordered⟩ : ∃ ordered, orderedResponse "<p>" "</p>"
      [.pending, .ready (sampleChunk ""), .ready (sampleChunk "<")] ⟨sampleLimits, 2, 200, by decide, by decide⟩
        = .ok ordered := ⟨_, rfl⟩
  obtain ⟨bounded, hbounded⟩ : ∃ bounded, boundaryResponse "<p>" "</p>"
      [⟨"a", .returned (.ok (sampleChunk "<")), by rfl⟩, ⟨"b", .returned (.ok (sampleChunk "long")), by rfl⟩]
      ⟨sampleLimits, 2, 2, 1, 200, by decide, by decide, by decide, by decide, by decide, by decide⟩
        = .ok bounded := ⟨_, rfl⟩
  have h := streams_deliver hordered hbounded (List.replicate 4 .poll)
    [.poll, .event 1, .poll, .poll, .event 0, .poll, .poll, .poll]
  refine ⟨ordered, bounded, _, _, ?_, ?_, h.1, h.2⟩
  . cases hordered
    rfl
  . cases hbounded
    rfl

end Render

end Pliego
