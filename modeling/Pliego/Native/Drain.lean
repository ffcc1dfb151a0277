import Pliego.Lib.Reach
import Pliego.Native.Registry

/-!
The registry under threads: admissions, closings, cancellations and shutdowns of many requests, in steps of one locked
section or one atomic access each.
-/

namespace Pliego

namespace Native

-- Where `admit` stands. It holds the internal cleanups of its scope while it reads the state, and the scopes of the
-- registry while it decides.
inductive Admitting where
  | fresh
  | registering
  | opened
  | registered
  | deciding
  | loaded (accepting : Bool)
  | admitted
  | refused (error : AdmissionError)
  deriving DecidableEq

structure Hosted where
  scope : RequestScope
  admitting : Admitting

-- Where `cancel` stands: at its check of the state, the reason, the outcome, the token, the second check and the
-- transition.
inductive Cancelling where
  | start
  | reasoning
  | settling
  | signalling
  | rechecking
  | moving
  | done
  deriving DecidableEq

-- Where `drain_and_close` stands.
inductive Closing where
  | start
  | draining
  | reading
  | users (reason : Option CancelReason)
  | running (reason : Option CancelReason) (todo : List Cleanup)
  | taking
  | internals (todo : List InternalCleanup)
  | closing
  | completing
  | recording
  | done

-- Where `begin_shutdown` stands.
inductive Stopping where
  | storing
  | locking
  | cancelling (rest : List Nat) (first : Cancelling)
  | returned
  deriving DecidableEq

inductive Task where
  | close (id : Nat) (stage : Closing)
  | cancel (id : Nat) (reason : CancelReason) (stage : Cancelling)
  | shutdown (stage : Stopping)

-- A request is known by its place in the list: a run has fewer than 2^64 arrivals, so the counter of the identifiers
-- does not wrap. `held` is the request whose admission holds the scopes of the registry.
structure Hosting where
  limits : RequestLimits
  registry : RequestRegistry
  held : Option Nat
  requests : List Hosted
  tasks : List Task

inductive HostAct where
  | arrive
  | admitStep (id : Nat)
  | transition (id : Nat) (next : RequestState)
  | register (id : Nat) (cleanup : Cleanup)
  | registerData (id : Nat) (panics : Bool)
  | close (id : Nat)
  | cancel (id : Nat) (reason : CancelReason)
  | beginShutdown
  | run (task : Nat)

def RequestScope.cancelStep (scope : RequestScope) (reason : CancelReason) (stage : Cancelling)
    : RequestScope × Cancelling :=
  match stage with
  | .start => if scope.state = .scopeDraining ∨ scope.state = .closed then (scope, .done) else (scope, .reasoning)
  | .reasoning => ({ scope with cancelReason := scope.cancelReason.or (some reason) }, .settling)
  | .settling => (scope.settle .cancelled, .signalling)
  | .signalling => ({ scope with cancellation := true }, .rechecking)
  | .rechecking => if scope.state = .rejected ∨ scope.state = .failed then (scope, .done) else (scope, .moving)
  | .moving => (scope.tryTransition .cancelled, .done)
  | .done => (scope, .done)

-- The steps of `drain_and_close`, as far as they touch the scope.
def RequestScope.closeStep (scope : RequestScope) (stage : Closing) : RequestScope × Closing :=
  match stage with
  | .start => if scope.state = .closed then (scope, .done) else (scope, .draining)
  | .draining => (scope.tryTransition .scopeDraining, .reading)
  | .reading => (scope, .users scope.cancelReason)
  | .users reason => ({ scope with cleanups := [] }, .running reason scope.cleanups)
  | .running _ [] => (scope, .taking)
  | .running reason (cleanup :: rest) => (RequestScope.runCleanup reason scope cleanup, .running reason rest)
  | .taking => ({ scope with internalCleanups := [] }, .internals scope.internalCleanups)
  | .internals [] => (scope, .closing)
  | .internals (cleanup :: rest) => (scope.runInternalCleanup cleanup, .internals rest)
  | .closing => (scope.tryTransition .closed, .completing)
  | .completing => ({ scope with completion := true }, .recording)
  | .recording => (scope.recordReceiptOnce, .done)
  | .done => (scope, .done)

namespace Hosting

def start (limits : RequestLimits) : Hosting where
  limits := limits
  registry := ⟨true, limits.maxConcurrentRequests, []⟩
  held := none
  requests := []
  tasks := []

def set (host : Hosting) (id : Nat) (request : Hosted) : Hosting :=
  { host with requests := host.requests.set id request }

def setScope (host : Hosting) (id : Nat) (request : Hosted) (scope : RequestScope) : Hosting :=
  host.set id { request with scope }

def setTask (host : Hosting) (task : Nat) (next : Task) : Hosting :=
  { host with tasks := host.tasks.set task next }

-- One step of `admit`.
def admitStep (host : Hosting) (id : Nat) (request : Hosted) : Option Hosting :=
  match request.admitting with
  | .fresh => some (host.set id { request with admitting := .registering })
  | .registering =>
    if request.scope.state = .scopeDraining ∨ request.scope.state = .closed then
      some (host.set id { request with admitting := .refused (.internal .scopeClosed) })
    else
      some (host.set id { request with admitting := .opened })
  | .opened =>
    some (host.set id
      { scope := { request.scope with internalCleanups := .removeRequest :: request.scope.internalCleanups }
        admitting := .registered })
  | .registered =>
    if host.held = none then
      some { host.set id { request with admitting := .deciding } with held := some id }
    else
      none
  | .deciding => some (host.set id { request with admitting := .loaded host.registry.accepting })
  | .loaded false => some { host.set id { request with admitting := .refused .draining } with held := none }
  | .loaded true =>
    if host.registry.maximum ≤ host.registry.scopes.length then
      some { host.set id { request with admitting := .refused .overloaded } with held := none }
    else
      some
        { host.set id { request with admitting := .admitted } with
          held := none
          registry := { host.registry with scopes := id :: host.registry.scopes } }
  | .admitted => none
  | .refused _ => none

-- The internal cleanups of a scope are held while its admission registers the removal.
def registers (request : Hosted) : Bool :=
  request.admitting = .registering || request.admitting = .opened

-- One step of `drain_and_close`. The removal takes the scopes of the registry.
def close (host : Hosting) (task id : Nat) (request : Hosted) (stage : Closing) : Option Hosting :=
  let (scope, next) := request.scope.closeStep stage
  let after := (host.setScope id request scope).setTask task (.close id next)
  match stage with
  | .taking => if registers request then none else some after
  | .internals (.removeRequest :: _) =>
    if host.held = none then
      some { after with
        registry := { host.registry with scopes := host.registry.scopes.filter (· ≠ id) } }
    else
      none
  | .done => none
  | _ => some after

def cancel (host : Hosting) (task id : Nat) (request : Hosted) (reason : CancelReason) (stage : Cancelling)
    : Option Hosting :=
  match stage with
  | .done => none
  | _ =>
    let (scope, next) := request.scope.cancelStep reason stage
    some ((host.setScope id request scope).setTask task (.cancel id reason next))

-- One step of `begin_shutdown`: the snapshot is taken under the lock, the cancellations are not.
def shutdown (host : Hosting) (task : Nat) (stage : Stopping) : Option Hosting :=
  match stage with
  | .storing =>
    some ({ host with registry := { host.registry with accepting := false } }.setTask task (.shutdown .locking))
  | .locking =>
    if host.held = none then
      some (host.setTask task (.shutdown (.cancelling host.registry.scopes .start)))
    else
      none
  | .cancelling [] _ => some (host.setTask task (.shutdown .returned))
  | .cancelling (_ :: rest) .done => some (host.setTask task (.shutdown (.cancelling rest .start)))
  | .cancelling (id :: rest) stage =>
    match host.requests[id]? with
    | none => none
    | some request =>
      let (scope, next) := request.scope.cancelStep .shutdown stage
      some ((host.setScope id request scope).setTask task (.shutdown (.cancelling (id :: rest) next)))
  | .returned => none

def runTask (host : Hosting) (task : Nat) : Option Hosting :=
  match host.tasks[task]? with
  | none => none
  | some (.shutdown stage) => host.shutdown task stage
  | some (.close id stage) => (host.requests[id]?).bind fun request => host.close task id request stage
  | some (.cancel id reason stage) => (host.requests[id]?).bind fun request => host.cancel task id request reason stage

def spawn (host : Hosting) (task : Task) : Hosting :=
  { host with tasks := host.tasks ++ [task] }

def step (host : Hosting) (label : HostAct) : Option Hosting :=
  match label with
  | .arrive =>
    some { host with
      requests := host.requests ++ [⟨RequestScope.opened host.requests.length host.limits, .fresh⟩] }
  | .admitStep id => (host.requests[id]?).bind fun request => host.admitStep id request
  | .transition id next =>
    (host.requests[id]?).map fun request => host.setScope id request (request.scope.tryTransition next)
  | .register id cleanup =>
    (host.requests[id]?).map fun request =>
      host.setScope id request ((request.scope.registerCleanup cleanup).toOption.getD request.scope)
  | .registerData id panics =>
    (host.requests[id]?).bind fun request =>
      if registers request then none
      else
        some (host.setScope id request
          ((request.scope.registerInternalCleanup (.closeData panics)).toOption.getD request.scope))
  | .close id => (host.requests[id]?).map fun _ => host.spawn (.close id .start)
  | .cancel id reason => (host.requests[id]?).map fun _ => host.spawn (.cancel id reason .start)
  | .beginShutdown => some (host.spawn (.shutdown .storing))
  | .run task => host.runTask task

-- Where the admission of a request stands, `fresh` before there is one.
def stage (host : Hosting) (id : Nat) : Admitting := ((host.requests[id]?).map Hosted.admitting).getD .fresh

end Hosting

def RequestScope.Quelled (scope : RequestScope) : Prop :=
  scope.cancellation = true ∨ scope.state = .scopeDraining ∨ scope.state = .closed

section Scopes

variable {scope : RequestScope}

section

variable (h : scope.Quelled)

include h

theorem Quelled.tryTransition (next : RequestState) : (scope.tryTransition next).Quelled := by
  unfold RequestScope.tryTransition
  split
  . next hallowed =>
    rcases h with h | h | h
    . exact .inl h
    . rw [h] at hallowed
      cases next <;> cases hallowed
      exact .inr (.inr rfl)
    . rw [h] at hallowed
      cases hallowed
  . exact h

theorem Quelled.settle (outcome : RequestOutcome) : (scope.settle outcome).Quelled := by
  rw [RequestScope.settle_eq]
  exact h

theorem Quelled.cancelStep (reason : CancelReason) (stage : Cancelling)
    : (scope.cancelStep reason stage).1.Quelled := by
  cases stage with
  | start =>
    unfold RequestScope.cancelStep
    dsimp only
    split
    . exact h
    . exact h
  | reasoning => exact h
  | settling => exact Quelled.settle h .cancelled
  | signalling => exact .inl rfl
  | rechecking =>
    unfold RequestScope.cancelStep
    dsimp only
    split
    . exact h
    . exact h
  | moving => exact Quelled.tryTransition h .cancelled
  | done => exact h

theorem Quelled.closeStep (stage : Closing) : (scope.closeStep stage).1.Quelled := by
  cases stage with
  | start =>
    unfold RequestScope.closeStep
    dsimp only
    split
    . exact h
    . exact h
  | draining => exact Quelled.tryTransition h .scopeDraining
  | reading => exact h
  | users reason => exact h
  | running reason todo =>
    cases todo with
    | nil => exact h
    | cons cleanup rest =>
      obtain ⟨diagnostics, hran⟩ := @RequestScope.runCleanups_eq scope reason [cleanup]
      change (RequestScope.runCleanup reason scope cleanup).Quelled
      rw [List.foldl_cons, List.foldl_nil] at hran
      rw [hran]
      exact h
  | taking => exact h
  | internals todo =>
    cases todo with
    | nil => exact h
    | cons cleanup rest =>
      obtain ⟨diagnostics, hran⟩ := @RequestScope.runInternalCleanups_eq scope [cleanup]
      change (scope.runInternalCleanup cleanup).Quelled
      rw [List.foldl_cons, List.foldl_nil] at hran
      rw [hran]
      exact h
  | closing => exact Quelled.tryTransition h .closed
  | completing => exact h
  | recording =>
    change scope.recordReceiptOnce.Quelled
    unfold RequestScope.recordReceiptOnce
    split
    . exact h
    . exact h
  | done => exact h

theorem Quelled.registerCleanup (cleanup : Cleanup)
    : ((scope.registerCleanup cleanup).toOption.getD scope).Quelled := by
  unfold RequestScope.registerCleanup
  split
  . exact h
  . split
    . exact h
    . exact h

theorem Quelled.registerInternalCleanup (cleanup : InternalCleanup)
    : ((scope.registerInternalCleanup cleanup).toOption.getD scope).Quelled := by
  unfold RequestScope.registerInternalCleanup
  split
  . exact h
  . exact h

end

theorem cancelStep_quells {reason : CancelReason} {stage : Cancelling}
    (h : stage = .start ∧ (scope.cancelStep reason stage).2 = .done ∨ stage = .signalling)
    : (scope.cancelStep reason stage).1.Quelled := by
  rcases h with ⟨rfl, hdone⟩ | rfl
  . unfold RequestScope.cancelStep at hdone ⊢
    dsimp only at hdone ⊢
    split at hdone
    . next hover =>
      rw [if_pos hover]
      exact .inr hover
    . cases hdone
  . exact .inl rfl

end Scopes

namespace Hosting

def Quelled (host : Hosting) (id : Nat) : Prop := ∃ request, host.requests[id]? = some request ∧ request.scope.Quelled

variable {host host' : Hosting} {id other task : Nat} {request : Hosted} {scope : RequestScope}

structure Frame (host host' : Hosting) : Prop where
  limits : host'.limits = host.limits
  maximum : host'.registry.maximum = host.registry.maximum
  held : host'.held = host.held
  stage : ∀ id, host'.stage id = host.stage id
  quelled : ∀ id, host.Quelled id → host'.Quelled id

section

variable (h : host.requests[id]? = some request)

include h

theorem stage_eq : host.stage id = request.admitting := by
  unfold stage
  rw [h]
  rfl

theorem getElem?_set (next : Hosted)
    : (host.set id next).requests[other]? = if other = id then some next else host.requests[other]? := by
  have hlt := (List.getElem?_eq_some_iff.mp h).1
  unfold set
  rw [List.getElem?_set]
  split
  . next hsame => rw [if_pos hsame.symm]
  . next hother => rw [if_neg (Ne.symm hother)]

theorem stage_set (next : Hosted)
    : (host.set id next).stage other = if other = id then next.admitting else host.stage other := by
  unfold stage
  rw [getElem?_set h]
  split
  . rfl
  . rfl

theorem quelled_set {next : Hosted}
    (hquelled : request.scope.Quelled → next.scope.Quelled) (hother : host.Quelled other)
    : (host.set id next).Quelled other := by
  obtain ⟨found, hfound, hdone⟩ := hother
  unfold Quelled
  rw [getElem?_set h]
  split
  . next hsame =>
    rw [hsame, h] at hfound
    cases hfound
    exact ⟨next, rfl, hquelled hdone⟩
  . exact ⟨found, hfound, hdone⟩

theorem Frame.setScope (hquelled : request.scope.Quelled → scope.Quelled)
    : Frame host (host.setScope id request scope) := by
  refine ⟨rfl, rfl, rfl, ?_, ?_⟩
  . intro other
    unfold Hosting.setScope
    rw [stage_set h]
    split
    . next hsame => rw [hsame, stage_eq h]
    . rfl
  . exact fun other hother => quelled_set h hquelled hother

end

def Shut (host : Hosting) : Prop := host.registry.accepting = false ∧ ∀ id, host.stage id ≠ .loaded true

-- The requests of a snapshot that a run of `begin_shutdown` has still to cancel.
def pending (rest : List Nat) (first : Cancelling) : List Nat :=
  match first with
  | .rechecking | .moving | .done => rest.tail
  | _ => rest

-- How far a run of `begin_shutdown` has come.
def Covered (host : Hosting) (stopping : Stopping) : Prop :=
  match stopping with
  | .storing => True
  | .locking => host.registry.accepting = false
  | .cancelling rest first => host.Shut ∧ ∀ id ∈ host.registry.scopes, host.Quelled id ∨ id ∈ pending rest first
  | .returned => host.Shut ∧ ∀ id ∈ host.registry.scopes, host.Quelled id

def deciding (stage : Admitting) : Bool :=
  match stage with
  | .deciding | .loaded _ => true
  | _ => false

structure Safe (host : Hosting) : Prop where
  nodup : host.registry.scopes.Nodup
  maximum : host.registry.maximum = host.limits.maxConcurrentRequests
  bound : host.registry.scopes.length ≤ host.registry.maximum
  admitted : ∀ id ∈ host.registry.scopes, host.stage id = .admitted
  held : ∀ id, deciding (host.stage id) = true ↔ host.held = some id
  shutdowns : ∀ stopping, .shutdown stopping ∈ host.tasks → host.Covered stopping

-- A step that does not undo a shutdown.
structure Keeps (host host' : Hosting) : Prop where
  accepting : host.registry.accepting = false → host'.registry.accepting = false
  shut : host.Shut → host'.Shut
  scopes : host.Shut → ∀ id ∈ host'.registry.scopes, id ∈ host.registry.scopes
  quelled : ∀ id, host.Quelled id → host'.Quelled id

theorem Covered.keeps {stopping : Stopping} (h : host.Covered stopping) (hkeeps : Keeps host host')
    : host'.Covered stopping := by
  cases stopping with
  | storing => trivial
  | locking => exact hkeeps.accepting h
  | cancelling rest first =>
    refine ⟨hkeeps.shut h.1, ?_⟩
    intro id hid
    exact (h.2 id (hkeeps.scopes h.1 id hid)).imp_left (hkeeps.quelled id)
  | returned =>
    refine ⟨hkeeps.shut h.1, ?_⟩
    intro id hid
    exact hkeeps.quelled id (h.2 id (hkeeps.scopes h.1 id hid))

theorem Frame.keeps (hframe : Frame host host') (haccepting : host.registry.accepting = false → host'.registry.accepting = false)
    (hscopes : ∀ id ∈ host'.registry.scopes, id ∈ host.registry.scopes)
    : Keeps host host' := by
  refine ⟨haccepting, ?_, fun _ => hscopes, hframe.quelled⟩
  intro hshut
  refine ⟨haccepting hshut.1, ?_⟩
  intro id
  rw [hframe.stage]
  exact hshut.2 id

theorem Safe.frame (hsafe : host.Safe) (hframe : Frame host host')
    (haccepting : host.registry.accepting = false → host'.registry.accepting = false)
    (hscopes : host'.registry.scopes.Sublist host.registry.scopes)
    (htasks : ∀ stopping, .shutdown stopping ∈ host'.tasks → .shutdown stopping ∈ host.tasks ∨ host'.Covered stopping)
    : host'.Safe := by
  have hkeeps := hframe.keeps haccepting (fun id hid => hscopes.subset hid)
  constructor
  . exact hsafe.nodup.sublist hscopes
  . rw [hframe.maximum, hframe.limits]
    exact hsafe.maximum
  . rw [hframe.maximum]
    exact hscopes.length_le.trans hsafe.bound
  . intro id hid
    rw [hframe.stage]
    exact hsafe.admitted id (hscopes.subset hid)
  . intro id
    rw [hframe.stage, hframe.held]
    exact hsafe.held id
  . intro stopping hstopping
    cases htasks stopping hstopping with
    | inl hold => exact (hsafe.shutdowns stopping hold).keeps hkeeps
    | inr hnew => exact hnew

theorem shutdown_mem_set {tasks : List Task} {next : Task} {stopping : Stopping}
    (h : .shutdown stopping ∈ tasks.set task next)
    : .shutdown stopping ∈ tasks ∨ next = .shutdown stopping := by
  rcases List.mem_or_eq_of_mem_set h with h | h
  . exact .inl h
  . exact .inr h.symm

-- The lock of the scopes is passed on as the admission goes into its decision and out of it.
def Passes (host : Hosting) (id : Nat) (before after : Admitting) (held : Option Nat) : Prop :=
  (deciding before = deciding after ∧ held = host.held)
    ∨ (deciding before = false ∧ deciding after = true ∧ host.held = none ∧ held = some id)
    ∨ (deciding before = true ∧ deciding after = false ∧ held = none)

theorem Safe.passes (hsafe : host.Safe) (hget : host.requests[id]? = some request) {next : Hosted} {held : Option Nat}
    (hpasses : host.Passes id request.admitting next.admitting held)
    : deciding ((host.set id next).stage other) = true ↔ held = some other := by
  have hid := hsafe.held id
  rw [stage_eq hget] at hid
  rw [stage_set hget]
  rcases hpasses with ⟨hsame, rfl⟩ | ⟨hbefore, hafter, hfree, rfl⟩ | ⟨hbefore, hafter, rfl⟩
  . split
    . next heq =>
      rw [heq, ← hsame]
      exact hid
    . exact hsafe.held other
  . split
    . next heq =>
      rw [heq]
      exact iff_of_true hafter rfl
    . next hne =>
      rw [hsafe.held other, hfree]
      apply iff_of_false
      . intro hnone
        cases hnone
      . intro hsame
        exact hne (Option.some.inj hsame).symm
  . have hheld := hid.mp hbefore
    split
    . rw [hafter]
      apply iff_of_false
      . exact Bool.false_ne_true
      . intro hnone
        cases hnone
    . next hne =>
      rw [hsafe.held other, hheld]
      apply iff_of_false
      . intro hsame
        exact hne (Option.some.inj hsame).symm
      . intro hnone
        cases hnone

def Admits (host host' : Hosting) : Prop := ∀ id, host'.stage id = .admitted → host.stage id = .admitted

theorem Safe.advance (hsafe : host.Safe) (hget : host.requests[id]? = some request) {next : Hosted} {held : Option Nat}
    (hquelled : request.scope.Quelled → next.scope.Quelled)
    (hpasses : host.Passes id request.admitting next.admitting held)
    (hloaded : next.admitting = .loaded true → host.registry.accepting = true)
    (hbefore : request.admitting ≠ .admitted) (hafter : next.admitting ≠ .admitted)
    : Safe { host.set id next with held } ∧ Keeps host { host.set id next with held }
      ∧ Admits host { host.set id next with held } := by
  have hstage : ∀ other, stage { host.set id next with held } other = if other = id then next.admitting else host.stage other :=
    fun _ => stage_set hget next
  have hkeeps : Keeps host { host.set id next with held } := by
    refine ⟨fun haccepting => haccepting, ?_, fun _ _ hid => hid, fun _ hother => quelled_set hget hquelled hother⟩
    intro hshut
    refine ⟨hshut.1, ?_⟩
    intro other
    rw [hstage]
    split
    . intro hcontra
      have haccepting := hloaded hcontra
      rw [hshut.1] at haccepting
      cases haccepting
    . exact hshut.2 other
  refine ⟨⟨hsafe.nodup, hsafe.maximum, hsafe.bound, ?_, fun _ => hsafe.passes hget hpasses, ?_⟩, hkeeps, ?_⟩
  . intro other hother
    have hadmitted := hsafe.admitted other hother
    rw [hstage, if_neg]
    . exact hadmitted
    . rintro rfl
      rw [stage_eq hget] at hadmitted
      exact hbefore hadmitted
  . intro stopping hstopping
    exact (hsafe.shutdowns stopping hstopping).keeps hkeeps
  . intro other hother
    rw [hstage] at hother
    split at hother
    . exact absurd hother hafter
    . exact hother

theorem Safe.letIn (hsafe : host.Safe) (hget : host.requests[id]? = some request)
    (hloaded : request.admitting = .loaded true) (hroom : host.registry.scopes.length < host.registry.maximum)
    : Safe { host.set id { request with admitting := .admitted } with
        held := none
        registry := { host.registry with scopes := id :: host.registry.scopes } }
      ∧ ¬ host.Shut := by
  have hopen : ¬ host.Shut := fun hshut => hshut.2 id (by rw [stage_eq hget, hloaded])
  have hstage : ∀ other, stage { host.set id { request with admitting := .admitted } with
      held := none
      registry := { host.registry with scopes := id :: host.registry.scopes } } other
      = if other = id then .admitted else host.stage other := fun _ => stage_set hget _
  refine ⟨⟨?_, hsafe.maximum, hroom, ?_, ?_, ?_⟩, hopen⟩
  . apply List.nodup_cons.mpr ⟨_, hsafe.nodup⟩
    intro hmem
    have hadmitted := hsafe.admitted id hmem
    rw [stage_eq hget, hloaded] at hadmitted
    cases hadmitted
  . intro other hother
    rw [hstage]
    split
    . rfl
    . next hne => exact hsafe.admitted other ((List.mem_cons.mp hother).resolve_left hne)
  . intro other
    exact hsafe.passes hget (.inr (.inr ⟨by rw [hloaded]; rfl, rfl, rfl⟩))
  . intro stopping hstopping
    have hcovered := hsafe.shutdowns stopping hstopping
    cases stopping with
    | storing => trivial
    | locking => exact hcovered
    | cancelling rest first => exact absurd hcovered.1 hopen
    | returned => exact absurd hcovered.1 hopen

-- What one step does to a shutdown that has gone past its snapshot.
structure Moves (host host' : Hosting) : Prop where
  safe : host'.Safe
  keeps : Keeps host host'
  admits : host.Shut → Admits host host'

theorem Safe.admitStep (hsafe : host.Safe) (hget : host.requests[id]? = some request)
    (h : host.admitStep id request = some host')
    : Moves host host' := by
  have hadvance : ∀ (next : Hosted) (held : Option Nat), host' = { host.set id next with held } →
      (request.scope.Quelled → next.scope.Quelled) → host.Passes id request.admitting next.admitting held →
      (next.admitting = .loaded true → host.registry.accepting = true) → request.admitting ≠ .admitted →
      next.admitting ≠ .admitted → Moves host host' := by
    rintro next held rfl hquelled hpasses hloaded hbefore hafter
    obtain ⟨hnext, hkeeps, hadmits⟩ := hsafe.advance hget hquelled hpasses hloaded hbefore hafter
    exact ⟨hnext, hkeeps, fun _ => hadmits⟩
  unfold Hosting.admitStep at h
  cases hstage : request.admitting with
  | fresh =>
    rw [hstage] at h hadvance
    cases h
    exact hadvance { request with admitting := .registering } host.held rfl (fun hdone => hdone) (.inl ⟨rfl, rfl⟩) nofun nofun nofun
  | registering =>
    rw [hstage] at h hadvance
    dsimp only at h
    split at h
    . cases h
      exact hadvance { request with admitting := .refused (.internal .scopeClosed) } host.held rfl (fun hdone => hdone)
        (.inl ⟨rfl, rfl⟩) nofun nofun nofun
    . cases h
      exact hadvance { request with admitting := .opened } host.held rfl (fun hdone => hdone) (.inl ⟨rfl, rfl⟩) nofun nofun nofun
  | opened =>
    rw [hstage] at h hadvance
    cases h
    exact hadvance ⟨{ request.scope with internalCleanups := .removeRequest :: request.scope.internalCleanups }, .registered⟩
      host.held rfl (fun hdone => hdone) (.inl ⟨rfl, rfl⟩) nofun nofun nofun
  | registered =>
    rw [hstage] at h hadvance
    dsimp only at h
    split at h
    . next hfree =>
      cases h
      exact hadvance { request with admitting := .deciding } (some id) rfl (fun hdone => hdone)
        (.inr (.inl ⟨rfl, rfl, hfree, rfl⟩)) nofun nofun nofun
    . cases h
  | deciding =>
    rw [hstage] at h hadvance
    cases h
    exact hadvance { request with admitting := .loaded host.registry.accepting } host.held rfl (fun hdone => hdone)
      (.inl ⟨rfl, rfl⟩) (fun hloaded => Admitting.loaded.inj hloaded) nofun nofun
  | loaded accepting =>
    rw [hstage] at h hadvance
    cases accepting with
    | false =>
      cases h
      exact hadvance { request with admitting := .refused .draining } none rfl (fun hdone => hdone)
        (.inr (.inr ⟨rfl, rfl, rfl⟩)) nofun nofun nofun
    | true =>
      dsimp only at h
      split at h
      . cases h
        exact hadvance { request with admitting := .refused .overloaded } none rfl (fun hdone => hdone)
          (.inr (.inr ⟨rfl, rfl, rfl⟩)) nofun nofun nofun
      . next hroom =>
        cases h
        obtain ⟨hnext, hopen⟩ := hsafe.letIn hget hstage (Nat.lt_of_not_le hroom)
        refine ⟨hnext, ⟨fun haccepting => haccepting, fun hshut => absurd hshut hopen, fun hshut => absurd hshut hopen, ?_⟩,
          fun hshut => absurd hshut hopen⟩
        exact fun other hother => @quelled_set host id other request hget { request with admitting := .admitted }
          (fun hdone => hdone) hother
  | admitted =>
    rw [hstage] at h
    cases h
  | refused error =>
    rw [hstage] at h
    cases h

theorem Frame.admits (hframe : Frame host host') : Admits host host' := by
  intro id hid
  rw [hframe.stage] at hid
  exact hid

theorem Frame.refl : Frame host host := ⟨rfl, rfl, rfl, fun _ => rfl, fun _ hid => hid⟩

theorem Frame.moves (hframe : Frame host host') (hsafe : host.Safe)
    (haccepting : host.registry.accepting = false → host'.registry.accepting = false)
    (hscopes : host'.registry.scopes.Sublist host.registry.scopes)
    (htasks : ∀ stopping, .shutdown stopping ∈ host'.tasks → .shutdown stopping ∈ host.tasks ∨ host'.Covered stopping)
    : Moves host host' :=
  ⟨hsafe.frame hframe haccepting hscopes htasks, hframe.keeps haccepting (fun _ hid => hscopes.subset hid),
    fun _ => hframe.admits⟩

theorem Frame.setTask (hframe : Frame host host') (next : Task) : Frame host (host'.setTask task next) :=
  ⟨hframe.limits, hframe.maximum, hframe.held, hframe.stage, hframe.quelled⟩

theorem Safe.close (hsafe : host.Safe) (hget : host.requests[id]? = some request) {stage : Closing}
    (h : host.close task id request stage = some host')
    : Moves host host' ∧ ∀ entry ∈ host.registry.scopes, entry ∉ host'.registry.scopes → entry = id := by
  have hframe : Frame host ((host.setScope id request (request.scope.closeStep stage).1).setTask task
      (.close id (request.scope.closeStep stage).2)) :=
    (Frame.setScope hget (fun hdone => Quelled.closeStep hdone stage)).setTask _
  have htasks : ∀ stopping, .shutdown stopping ∈ host.tasks.set task (.close id (request.scope.closeStep stage).2) →
      .shutdown stopping ∈ host.tasks := by
    intro stopping hstopping
    exact (shutdown_mem_set hstopping).resolve_right nofun
  have hquiet : host' = (host.setScope id request (request.scope.closeStep stage).1).setTask task
        (.close id (request.scope.closeStep stage).2) →
      Moves host host' ∧ ∀ entry ∈ host.registry.scopes, entry ∉ host'.registry.scopes → entry = id := by
    rintro rfl
    refine ⟨hframe.moves hsafe (fun haccepting => haccepting) (List.Sublist.refl _) ?_, ?_⟩
    . exact fun stopping hstopping => .inl (htasks stopping hstopping)
    . exact fun entry hentry hgone => absurd hentry hgone
  unfold Hosting.close at h
  dsimp only at h
  split at h
  . split at h
    . cases h
    . exact hquiet (Option.some.inj h).symm
  . split at h
    . cases h
      refine ⟨?_, ?_⟩
      . refine Frame.moves ?_ hsafe ?_ ?_ ?_
        . exact ⟨hframe.limits, hframe.maximum, hframe.held, hframe.stage, hframe.quelled⟩
        . exact fun haccepting => haccepting
        . exact List.filter_sublist
        . exact fun stopping hstopping => .inl (htasks stopping hstopping)
      . intro entry hentry hgone
        by_contra hne
        exact hgone (List.mem_filter.mpr ⟨hentry, decide_eq_true hne⟩)
    . cases h
  . cases h
  . exact hquiet (Option.some.inj h).symm

theorem Safe.cancel (hsafe : host.Safe) (hget : host.requests[id]? = some request) {reason : CancelReason}
    {stage : Cancelling} (h : host.cancel task id request reason stage = some host')
    : Moves host host' ∧ host'.registry = host.registry := by
  unfold Hosting.cancel at h
  split at h
  . cases h
  . cases h
    refine ⟨?_, rfl⟩
    apply ((Frame.setScope hget (fun hdone => Quelled.cancelStep hdone reason stage)).setTask _).moves hsafe
    . exact fun haccepting => haccepting
    . exact List.Sublist.refl _
    . exact fun stopping hstopping => .inl ((shutdown_mem_set hstopping).resolve_right nofun)

theorem Safe.stopAt (hsafe : host.Safe) (hframe : Frame host host') (hregistry : host'.registry = host.registry)
    {before after : Stopping} (hmem : .shutdown before ∈ host.tasks)
    (htasks : host'.tasks = host.tasks.set task (.shutdown after))
    (hcovered : host'.Covered before → host'.Covered after)
    : Moves host host' ∧ host'.registry.scopes = host.registry.scopes := by
  have hkeeps : Keeps host host' := by
    apply hframe.keeps
    . rw [hregistry]
      exact fun haccepting => haccepting
    . rw [hregistry]
      exact fun _ hid => hid
  refine ⟨hframe.moves hsafe hkeeps.accepting ?_ ?_, by rw [hregistry]⟩
  . rw [hregistry]
  . intro stopping hstopping
    rw [htasks] at hstopping
    cases shutdown_mem_set hstopping with
    | inl hold => exact .inl hold
    | inr hnew =>
      cases hnew
      exact .inr (hcovered ((hsafe.shutdowns before hmem).keeps hkeeps))

theorem cancel_pending (hget : host.requests[id]? = some request) {first : Cancelling} {rest : List Nat}
    (hdone : first ≠ .done) (h : other ∈ pending (id :: rest) first)
    : (host.setScope id request (request.scope.cancelStep .shutdown first).1).Quelled other
      ∨ other ∈ pending (id :: rest) (request.scope.cancelStep .shutdown first).2 := by
  have hquells : first = .start ∧ (request.scope.cancelStep .shutdown first).2 = .done ∨ first = .signalling →
      (host.setScope id request (request.scope.cancelStep .shutdown first).1).Quelled id := by
    intro hwhen
    exact ⟨_, by unfold setScope; rw [getElem?_set hget, if_pos rfl], cancelStep_quells hwhen⟩
  cases first with
  | start =>
    cases hnext : (request.scope.cancelStep .shutdown .start).2 with
    | done =>
      cases List.mem_cons.mp h with
      | inl hsame =>
        rw [hsame]
        exact .inl (hquells (.inl ⟨rfl, hnext⟩))
      | inr hrest => exact .inr hrest
    | rechecking =>
      unfold RequestScope.cancelStep at hnext
      dsimp only at hnext
      split at hnext <;> cases hnext
    | moving =>
      unfold RequestScope.cancelStep at hnext
      dsimp only at hnext
      split at hnext <;> cases hnext
    | _ => exact .inr h
  | reasoning => exact .inr h
  | settling => exact .inr h
  | signalling =>
    cases List.mem_cons.mp h with
    | inl hsame =>
      rw [hsame]
      exact .inl (hquells (.inr rfl))
    | inr hrest => exact .inr hrest
  | rechecking =>
    right
    unfold RequestScope.cancelStep
    dsimp only
    split
    . exact h
    . exact h
  | moving => exact .inr h
  | done => exact absurd rfl hdone

theorem shutdown_cancelling {first : Cancelling} {rest : List Nat} (hdone : first ≠ .done)
    : host.shutdown task (.cancelling (id :: rest) first)
      = (host.requests[id]?).map fun request =>
          (host.setScope id request (request.scope.cancelStep .shutdown first).1).setTask task
            (.shutdown (.cancelling (id :: rest) (request.scope.cancelStep .shutdown first).2)) := by
  cases first with
  | done => exact absurd rfl hdone
  | _ =>
    unfold Hosting.shutdown
    dsimp only
    cases host.requests[id]? <;> rfl

theorem Safe.shutdown (hsafe : host.Safe) {stopping : Stopping} (hmem : .shutdown stopping ∈ host.tasks)
    (h : host.shutdown task stopping = some host')
    : Moves host host' ∧ host'.registry.scopes = host.registry.scopes := by
  cases stopping with
  | storing =>
    cases h
    refine ⟨?_, rfl⟩
    refine Frame.moves ?_ hsafe (fun _ => rfl) (List.Sublist.refl _) ?_
    . exact ⟨rfl, rfl, rfl, fun _ => rfl, fun _ hid => hid⟩
    intro stopping hstopping
    cases shutdown_mem_set hstopping with
    | inl hold => exact .inl hold
    | inr hnew =>
      cases hnew
      exact .inr rfl
  | locking =>
    unfold Hosting.shutdown at h
    dsimp only at h
    split at h
    . next hfree =>
      cases h
      apply hsafe.stopAt (Frame.refl.setTask _) rfl hmem rfl
      intro haccepting
      refine ⟨⟨haccepting, ?_⟩, fun id hid => .inr hid⟩
      -- nobody holds the scopes, so nobody has read the flag
      intro id hloaded
      have hheld := (hsafe.held id).mp (by rw [show host.stage id = .loaded true from hloaded]; rfl)
      rw [hfree] at hheld
      cases hheld
    . cases h
  | cancelling rest first =>
    cases rest with
    | nil =>
      cases h
      apply hsafe.stopAt (Frame.refl.setTask _) rfl hmem rfl
      rintro ⟨hshut, hquelled⟩
      refine ⟨hshut, ?_⟩
      intro id hid
      apply (hquelled id hid).resolve_right
      cases first <;> exact List.not_mem_nil
    | cons id rest =>
      by_cases hdone : first = .done
      . rw [hdone] at h hmem
        cases h
        apply hsafe.stopAt (Frame.refl.setTask _) rfl hmem rfl
        exact fun hcovered => hcovered
      . rw [shutdown_cancelling hdone, Option.map_eq_some_iff] at h
        obtain ⟨request, hget, rfl⟩ := h
        have hframe := Frame.setScope hget (fun hdone => Quelled.cancelStep hdone .shutdown first)
        apply hsafe.stopAt (hframe.setTask _) rfl hmem rfl
        rintro ⟨hshut, hcovered⟩
        refine ⟨hshut, ?_⟩
        intro other hother
        cases hcovered other hother with
        | inl hquelled => exact .inl hquelled
        | inr hpending => exact cancel_pending hget hdone hpending
  | returned => cases h

theorem admit_keeps (h : host.admitStep id request = some host') {entry : Nat} (hentry : entry ∈ host.registry.scopes)
    : entry ∈ host'.registry.scopes := by
  unfold Hosting.admitStep at h
  cases hstage : request.admitting with
  | loaded accepting =>
    rw [hstage] at h
    cases accepting with
    | false =>
      cases h
      exact hentry
    | true =>
      dsimp only at h
      split at h
      . cases h
        exact hentry
      . cases h
        exact List.mem_cons_of_mem _ hentry
  | registering =>
    rw [hstage] at h
    dsimp only at h
    split at h
    . cases h
      exact hentry
    . cases h
      exact hentry
  | registered =>
    rw [hstage] at h
    dsimp only at h
    split at h
    . cases h
      exact hentry
    . cases h
  | admitted =>
    rw [hstage] at h
    cases h
  | refused error =>
    rw [hstage] at h
    cases h
  | _ =>
    rw [hstage] at h
    cases h
    exact hentry

theorem Frame.arrive
    : Frame host { host with
        requests := host.requests ++ [⟨RequestScope.opened host.requests.length host.limits, .fresh⟩] } := by
  refine ⟨rfl, rfl, rfl, ?_, ?_⟩
  . intro id
    unfold Hosting.stage
    dsimp only
    by_cases hlt : id < host.requests.length
    . rw [List.getElem?_append_left hlt]
    . rw [List.getElem?_append_right (Nat.le_of_not_lt hlt), List.getElem?_eq_none (Nat.le_of_not_lt hlt)]
      cases hrest : id - host.requests.length with
      | zero => rfl
      | succ n => rfl
  . rintro id ⟨found, hfound, hdone⟩
    refine ⟨found, ?_, hdone⟩
    dsimp only
    rw [List.getElem?_append_left (List.getElem?_eq_some_iff.mp hfound).1]
    exact hfound

theorem Safe.spawn (hsafe : host.Safe) {next : Task}
    (hnext : ∀ stopping, next = .shutdown stopping → stopping = .storing)
    : Moves host (host.spawn next) := by
  refine Frame.moves ?_ hsafe (fun haccepting => haccepting) (List.Sublist.refl _) ?_
  . exact ⟨rfl, rfl, rfl, fun _ => rfl, fun _ hid => hid⟩
  . intro stopping hstopping
    cases List.mem_append.mp hstopping with
    | inl hold => exact .inl hold
    | inr hnew =>
      rw [hnext stopping (List.mem_singleton.mp hnew).symm]
      exact .inr trivial

theorem Safe.setScope (hsafe : host.Safe) (hget : host.requests[id]? = some request)
    (hquelled : request.scope.Quelled → scope.Quelled)
    : Moves host (host.setScope id request scope) :=
  (Frame.setScope hget hquelled).moves hsafe (fun haccepting => haccepting) (List.Sublist.refl _)
    (fun _ hstopping => .inl hstopping)

-- The request that a step takes from the registry is the one whose closing takes the step.
def OwnRemoval (host : Hosting) (label : HostAct) (host' : Hosting) : Prop :=
  ∀ entry ∈ host.registry.scopes, entry ∉ host'.registry.scopes →
    ∃ task stage, label = .run task ∧ host.tasks[task]? = some (.close entry stage)

theorem OwnRemoval.of_keeps {label : HostAct} (h : ∀ entry ∈ host.registry.scopes, entry ∈ host'.registry.scopes)
    : OwnRemoval host label host' :=
  fun entry hentry hgone => absurd (h entry hentry) hgone

theorem Safe.step (hsafe : host.Safe) {label : HostAct} (h : host.step label = some host')
    : Moves host host' ∧ OwnRemoval host label host' := by
  cases label with
  | arrive =>
    cases h
    refine ⟨?_, OwnRemoval.of_keeps (fun _ hentry => hentry)⟩
    exact Frame.arrive.moves hsafe (fun haccepting => haccepting) (List.Sublist.refl _) (fun _ hstopping => .inl hstopping)
  | admitStep id =>
    obtain ⟨request, hget, h⟩ := Option.bind_eq_some_iff.mp h
    exact ⟨hsafe.admitStep hget h, OwnRemoval.of_keeps (fun _ hentry => admit_keeps h hentry)⟩
  | transition id next =>
    obtain ⟨request, hget, rfl⟩ := Option.map_eq_some_iff.mp h
    refine ⟨hsafe.setScope hget ?_, OwnRemoval.of_keeps (fun _ hentry => hentry)⟩
    exact fun hdone => Quelled.tryTransition hdone next
  | register id cleanup =>
    obtain ⟨request, hget, rfl⟩ := Option.map_eq_some_iff.mp h
    refine ⟨hsafe.setScope hget ?_, OwnRemoval.of_keeps (fun _ hentry => hentry)⟩
    exact fun hdone => Quelled.registerCleanup hdone cleanup
  | registerData id panics =>
    obtain ⟨request, hget, h⟩ := Option.bind_eq_some_iff.mp h
    split at h
    . cases h
    . cases h
      refine ⟨hsafe.setScope hget ?_, OwnRemoval.of_keeps (fun _ hentry => hentry)⟩
      exact fun hdone => Quelled.registerInternalCleanup hdone _
  | close id =>
    obtain ⟨request, hget, rfl⟩ := Option.map_eq_some_iff.mp h
    exact ⟨hsafe.spawn nofun, OwnRemoval.of_keeps (fun _ hentry => hentry)⟩
  | cancel id reason =>
    obtain ⟨request, hget, rfl⟩ := Option.map_eq_some_iff.mp h
    exact ⟨hsafe.spawn nofun, OwnRemoval.of_keeps (fun _ hentry => hentry)⟩
  | beginShutdown =>
    cases h
    exact ⟨hsafe.spawn (fun _ hsame => (Task.shutdown.inj hsame).symm), OwnRemoval.of_keeps (fun _ hentry => hentry)⟩
  | run task =>
    change host.runTask task = some host' at h
    unfold runTask at h
    cases htask : host.tasks[task]? with
    | none =>
      rw [htask] at h
      cases h
    | some running =>
      rw [htask] at h
      cases running with
      | shutdown stopping =>
        obtain ⟨hmoves, hscopes⟩ := hsafe.shutdown (List.mem_of_getElem? htask) h
        exact ⟨hmoves, OwnRemoval.of_keeps (fun _ hentry => hscopes ▸ hentry)⟩
      | close id stage =>
        obtain ⟨request, hget, h⟩ := Option.bind_eq_some_iff.mp h
        obtain ⟨hmoves, hown⟩ := hsafe.close hget h
        refine ⟨hmoves, ?_⟩
        intro entry hentry hgone
        rw [hown entry hentry hgone]
        exact ⟨task, stage, rfl, htask⟩
      | cancel id reason stage =>
        obtain ⟨request, hget, h⟩ := Option.bind_eq_some_iff.mp h
        obtain ⟨hmoves, hregistry⟩ := hsafe.cancel hget h
        exact ⟨hmoves, OwnRemoval.of_keeps (fun _ hentry => by rw [hregistry]; exact hentry)⟩

theorem safe_start {limits : RequestLimits} : (start limits).Safe := by
  refine ⟨List.nodup_nil, rfl, Nat.zero_le _, fun _ hid => absurd hid List.not_mem_nil, ?_, ?_⟩
  . intro id
    apply iff_of_false
    . exact Bool.false_ne_true
    . intro hnone
      cases hnone
  . exact fun _ hstopping => absurd hstopping List.not_mem_nil

theorem Shut.exec (hsafe : host.Safe) (hshut : host.Shut) {labels : List HostAct}
    (h : Reach.exec Hosting.step host labels = some host')
    : Admits host host' ∧ ∀ id ∈ host'.registry.scopes, id ∈ host.registry.scopes := by
  induction labels generalizing host with
  | nil =>
    cases h
    exact ⟨fun _ hid => hid, fun _ hid => hid⟩
  | cons label rest ih =>
    unfold Reach.exec at h
    split at h
    . cases h
    . next middle hmiddle =>
      obtain ⟨hmoves, -⟩ := hsafe.step hmiddle
      obtain ⟨hadmits, hscopes⟩ := ih hmoves.safe (hmoves.keeps.shut hshut) h
      refine ⟨fun id hid => hmoves.admits hshut id (hadmits id hid), ?_⟩
      exact fun id hid => hmoves.keeps.scopes hshut id (hscopes id hid)

/--
Whatever the order of the locked sections and the atomic accesses, the registry stays within its limit and without
refused requests, a closing takes its own entry only, and after a shutdown nobody is let in any more and whoever is still
there has been cancelled or is already draining.
-/
theorem admission_and_shutdown {limits : RequestLimits} (h : Reach.Any (· = start limits) Hosting.step host)
    : host.registry.scopes.length ≤ host.limits.maxConcurrentRequests
      ∧ (∀ id error, host.stage id = .refused error → id ∉ host.registry.scopes)
      ∧ (∀ label host', host.step label = some host' → OwnRemoval host label host')
      ∧ (.shutdown .returned ∈ host.tasks →
        (∀ labels last, Reach.exec Hosting.step host labels = some last → ∀ id,
          (last.stage id = .admitted → host.stage id = .admitted)
            ∧ (id ∈ last.registry.scopes → id ∈ host.registry.scopes))
        ∧ ∀ id ∈ host.registry.scopes, host.Quelled id) := by
  have hsafe : host.Safe := Reach.Under.invariant (fun _ hstart => hstart ▸ safe_start)
    (fun _ _ _ hinv _ hstep => (hinv.step hstep).1.safe) h
  refine ⟨hsafe.maximum ▸ hsafe.bound, ?_, fun _ _ hstep => (hsafe.step hstep).2, ?_⟩
  . intro id error hrefused hmem
    have hadmitted := hsafe.admitted id hmem
    rw [hrefused] at hadmitted
    cases hadmitted
  . intro hreturned
    obtain ⟨hshut, hquelled⟩ := hsafe.shutdowns .returned hreturned
    refine ⟨?_, hquelled⟩
    intro labels last hlast id
    obtain ⟨hadmits, hscopes⟩ := Shut.exec hsafe hshut hlast
    exact ⟨hadmits id, hscopes id⟩

def sampleLimits : RequestLimits := ⟨1024, 8, 8, 1⟩

def drainingRun : List HostAct :=
  [.arrive, .admitStep 0, .admitStep 0, .admitStep 0, .admitStep 0, .admitStep 0, .admitStep 0, .transition 0 .headAdmitted,
    .transition 0 .responseCommitted, .close 0, .run 0, .run 0, .beginShutdown, .run 1, .run 1, .run 1, .run 1, .run 1]

theorem admission_and_shutdown_draining
    : ∃ host, Reach.exec Hosting.step (start sampleLimits) drainingRun = some host
        ∧ host.registry.scopes = [0] ∧ host.Quelled 0 := by
  obtain ⟨host, hrun, hscopes, htasks⟩ : ∃ host, Reach.exec Hosting.step (start sampleLimits) drainingRun = some host
      ∧ host.registry.scopes = [0] ∧ host.tasks = [.close 0 .reading, .shutdown .returned] := ⟨_, rfl, rfl, rfl⟩
  have hreach := @Reach.exec_any _ _ (· = start sampleLimits) Hosting.step _ _ drainingRun (.init rfl) hrun
  obtain ⟨-, -, -, hshutdown⟩ := admission_and_shutdown hreach
  refine ⟨host, hrun, hscopes, (hshutdown ?_).2 0 ?_⟩
  . rw [htasks]
    exact List.mem_cons_of_mem _ List.mem_cons_self
  . rw [hscopes]
    exact List.mem_cons_self

-- The shutdown has returned, and a request that is still in the registry has not been cancelled: it was draining.
theorem draining_not_cancelled
    : ∃ host, Reach.Any (· = start sampleLimits) Hosting.step host ∧ .shutdown .returned ∈ host.tasks
        ∧ 0 ∈ host.registry.scopes
        ∧ ∃ request, host.requests[0]? = some request ∧ request.scope.cancellation = false := by
  obtain ⟨host, hrun, hscopes, htasks, hcancellation⟩ : ∃ host,
      Reach.exec Hosting.step (start sampleLimits) drainingRun = some host
      ∧ host.registry.scopes = [0] ∧ host.tasks = [.close 0 .reading, .shutdown .returned]
      ∧ (host.requests.map (fun request => request.scope.cancellation)) = [false] := ⟨_, rfl, rfl, rfl, rfl⟩
  refine ⟨host, Reach.exec_any drainingRun (.init rfl) hrun, ?_, ?_, ?_⟩
  . rw [htasks]
    exact List.mem_cons_of_mem _ List.mem_cons_self
  . rw [hscopes]
    exact List.mem_cons_self
  . cases hrequests : host.requests with
    | nil =>
      rw [hrequests] at hcancellation
      cases hcancellation
    | cons request rest =>
      rw [hrequests] at hcancellation
      exact ⟨request, rfl, (List.cons.inj hcancellation).1⟩

end Hosting

end Native

end Pliego
