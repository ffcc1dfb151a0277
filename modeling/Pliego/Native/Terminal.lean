import Pliego.Native.Lifecycle

/-!
What a cancelled request still delivers, in steps so fine that a cancellation can come between any two accesses of the
scope.
-/

namespace Pliego

namespace Native

-- `poll_frame` from where it has seen that it may go on.
def ScopedBody.pollInner (body : ScopedBody) (scope : RequestScope) (ready : Bool)
    : PollResult × ScopedBody × RequestScope :=
  if !ready then
    (.pending, body, scope)
  else
    match body.inner.items body.inner.position with
    | some (.frame frame) =>
      let body := { body with inner := { body.inner with position := body.inner.position + 1 } }
      let (body, scope) := body.start scope
      match frame with
      | .data bytes =>
        match scope.addResponseBytes bytes with
        | (scope, .error _) => (.error, body.finish scope false)
        | (scope, .ok ()) => (.frame frame, body, scope)
      | .trailers => (.frame frame, body, scope)
    | some .error =>
      (.error, body.finish (scope.fail ⟨"PLG-RUN-501", "response body stream failed"⟩) false)
    | none => (.done, body.finish scope true)

theorem ScopedBody.pollFrame_eq (body : ScopedBody) (scope : RequestScope) (ready : Bool)
    : body.pollFrame scope ready
      = if body.finished then (.done, body, scope)
        else if !body.allowCancelled && scope.cancellation then (.error, body.finish scope false)
        else body.pollInner scope ready := rfl

-- Whether the next thing that the body inside yields is a frame that is handed over.
def ScopedBody.hands (body : ScopedBody) (scope : RequestScope) : Bool :=
  match body.inner.items body.inner.position with
  | some (.frame (.data bytes)) => scope.responseBytes + bytes ≤ scope.limits.maxResponseBytes
  | some (.frame .trailers) => true
  | _ => false

-- Who made a response: the runtime itself, with a plain text, or a handler, a middleware or an error boundary.
inductive Origin where
  | runtime
  | application
  deriving DecidableEq

-- Where the response of a request stands. `polled` is in the middle of the poll of the future that is to bring it.
inductive Transit where
  | awaiting
  | polled
  | answered (response : Delivery) (origin : Origin)
  | committing (response : Delivery) (origin : Origin) (terminal : Bool)
  | resting (body : ScopedBody) (origin : Origin)
  | yielding (body : ScopedBody) (origin : Origin)
  | gone

-- A frame that was handed over: whose it was and whether the request had been cancelled.
structure Handed where
  origin : Origin
  cancelled : Bool
  deriving DecidableEq

structure Shipment where
  scope : RequestScope
  transit : Transit
  handed : List Handed

-- `signal` is a cancelled token, of which the scope itself is not told.
inductive ShipmentEvent where
  | cancel (reason : CancelReason)
  | signal
  | advance (next : RequestState)
  | fail (diagnostic : RuntimeDiagnostic)
  | reject (diagnostic : RuntimeDiagnostic)
  | refuse (status : Nat) (code : String)
  | select
  | suspend
  | respond (response : Delivery)
  | respondPlain (status : Nat) (code : String)
  | decide
  | commit
  | poll
  | inner (ready : Bool)
  | drop

namespace Shipment

def plainErrorResponse (status : Nat) (code : String) : Delivery :=
  ⟨status, .text ((Bytes.utf8 code).length + 1)⟩

def plainCancelledResponse (scope : RequestScope) : Delivery :=
  match scope.cancelReason with
  | some .deadline => plainErrorResponse 504 "PLG-RUN-408"
  | some .shutdown => plainErrorResponse 503 "PLG-RUN-503"
  | _ => plainErrorResponse 408 "PLG-RUN-499"

def start (requestId : Nat) (limits : RequestLimits) : Shipment where
  scope := .opened requestId limits
  transit := .awaiting
  handed := []

def carry (shipment : Shipment) (origin : Origin) (result : RequestScope × Except ScopeError ScopedBody) : Shipment :=
  match result with
  | (scope, .ok body) => { shipment with scope, transit := .resting body origin }
  | (scope, .error _) => { shipment with scope, transit := .gone }

-- The look at the cancellation comes first in a select.
def select (shipment : Shipment) : Shipment :=
  if shipment.scope.cancellation then
    { shipment with transit := .answered (plainCancelledResponse shipment.scope) .runtime }
  else
    { shipment with transit := .polled }

def poll (shipment : Shipment) (body : ScopedBody) (origin : Origin) : Shipment :=
  if body.finished then
    shipment
  else if !body.allowCancelled && shipment.scope.cancellation then
    let (body, scope) := body.finish shipment.scope false
    { shipment with scope, transit := .resting body origin }
  else
    { shipment with transit := .yielding body origin }

def inner (shipment : Shipment) (body : ScopedBody) (origin : Origin) (ready : Bool) : Shipment :=
  match body.pollInner shipment.scope ready with
  | (.frame _, body, scope) =>
    ⟨scope, .resting body origin, shipment.handed ++ [⟨origin, shipment.scope.cancellation⟩]⟩
  | (_, body, scope) => { shipment with scope, transit := .resting body origin }

def dropBody (shipment : Shipment) (body : ScopedBody) : Shipment :=
  { shipment with scope := (body.drop shipment.scope).2, transit := .gone }

def isLeg (next : RequestState) : Bool :=
  next = .headAdmitted || next = .routeResolved || next = .scopeOpen || next = .handlerRunning

def step (shipment : Shipment) (event : ShipmentEvent) : Option Shipment :=
  match event, shipment.transit with
  | .cancel reason, _ => some { shipment with scope := shipment.scope.cancel reason }
  | .signal, _ => some { shipment with scope := { shipment.scope with cancellation := true } }
  | .fail diagnostic, _ => some { shipment with scope := shipment.scope.fail diagnostic }
  | .reject diagnostic, _ => some { shipment with scope := shipment.scope.reject diagnostic }
  | .advance next, .awaiting | .advance next, .polled =>
    if isLeg next then some { shipment with scope := shipment.scope.tryTransition next } else none
  | .refuse status code, .awaiting =>
    some (shipment.carry .runtime (scopedResponse shipment.scope status code))
  | .select, .awaiting => some shipment.select
  | .suspend, .polled => some { shipment with transit := .awaiting }
  | .respond response, .polled => some { shipment with transit := .answered response .application }
  | .respondPlain status code, .awaiting | .respondPlain status code, .polled =>
    some { shipment with transit := .answered (plainErrorResponse status code) .runtime }
  -- `let terminal = scope.is_cancelled()`.
  | .decide, .answered response origin =>
    some { shipment with transit := .committing response origin shipment.scope.cancellation }
  | .commit, .committing response origin terminal =>
    some (shipment.carry origin (wrapHandlerResponse shipment.scope response terminal))
  | .poll, .resting body origin => some (shipment.poll body origin)
  | .inner ready, .yielding body origin => some (shipment.inner body origin ready)
  | .drop, .awaiting => some { shipment with transit := .gone }
  | .drop, .resting body _ => some (shipment.dropBody body)
  | _, _ => none

-- No cancellation comes between the poll that brings a response of the application and the decision about it, nor
-- between the look of such a body at the cancellation and the frame that it hands over then.
def undisturbed (shipment : Shipment) (event : ShipmentEvent) : Bool :=
  match event, shipment.transit with
  | .decide, .answered _ .application => !shipment.scope.cancellation
  | .inner true, .yielding body .application =>
    body.allowCancelled || !shipment.scope.cancellation || !body.hands shipment.scope
  | _, _ => true

structure Watched (scope : RequestScope) (body : ScopedBody) (origin : Origin) : Prop where
  application : origin = .application → body.allowCancelled = false
  isOpen : body.finished = false → scope.state.isOpen = true

def Placed (shipment : Shipment) : Prop :=
  match shipment.transit with
  | .committing _ origin terminal => origin = .application → terminal = false
  | .resting body origin => Watched shipment.scope body origin
  | .yielding body origin => Watched shipment.scope body origin ∧ body.finished = false
  | _ => True

structure Ruled (shipment : Shipment) : Prop where
  placed : shipment.Placed
  handed : ∀ handed ∈ shipment.handed, handed.cancelled = true → handed.origin = .runtime

section Bodies

variable {scope : RequestScope} {body : ScopedBody} {origin : Origin}

theorem finish_finished (success : Bool) : (body.finish scope success).1.finished = true := by
  unfold ScopedBody.finish
  split
  . assumption
  . rfl

theorem finish_allowCancelled (success : Bool) : (body.finish scope success).1.allowCancelled = body.allowCancelled := by
  unfold ScopedBody.finish
  split
  . rfl
  . rfl

theorem Watched.finish (h : origin = .application → body.allowCancelled = false) (success : Bool)
    : Watched (body.finish scope success).2 (body.finish scope success).1 origin := by
  constructor
  . rw [finish_allowCancelled]
    exact h
  . rw [finish_finished]
    intro hunfinished
    cases hunfinished

theorem start_state (hopen : scope.state.isOpen = true) : (body.start scope).2.state.isOpen = true := by
  unfold ScopedBody.start
  split
  . exact hopen
  . rw [RequestScope.tryTransition_eq]
    dsimp only
    split
    . rfl
    . exact hopen

theorem start_body : (body.start scope).1.allowCancelled = body.allowCancelled
    ∧ (body.start scope).1.finished = body.finished := by
  unfold ScopedBody.start
  split
  . exact ⟨rfl, rfl⟩
  . exact ⟨rfl, rfl⟩

theorem start_bytes : (body.start scope).2.responseBytes = scope.responseBytes
    ∧ (body.start scope).2.limits = scope.limits := by
  unfold ScopedBody.start
  split
  . exact ⟨rfl, rfl⟩
  . rw [RequestScope.tryTransition_eq]
    exact ⟨rfl, rfl⟩

theorem Watched.step (h : Watched scope body origin) {next : RequestScope}
    (hstep : scope.state.isOpen = true → next.state.isOpen = true)
    : Watched next body origin := ⟨h.application, fun hunfinished => hstep (h.isOpen hunfinished)⟩

theorem Watched.pollInner (h : Watched scope body origin) (hunfinished : body.finished = false) (ready : Bool)
    : Watched (body.pollInner scope ready).2.2 (body.pollInner scope ready).2.1 origin := by
  have hopen := h.isOpen hunfinished
  unfold ScopedBody.pollInner
  split
  . exact h
  . split
    . next frame hitem =>
      dsimp only
      have hstarted := @start_state scope
        { body with inner := { body.inner with position := body.inner.position + 1 } } hopen
      have hbody := (@start_body scope
        { body with inner := { body.inner with position := body.inner.position + 1 } }).1
      dsimp only at hstarted hbody
      revert hstarted hbody
      generalize ScopedBody.start _ scope = started
      intro hstarted hbody
      have hwatched : Watched started.2 started.1 origin :=
        ⟨fun horigin => hbody.trans (h.application horigin), fun _ => hstarted⟩
      cases frame with
      | trailers => exact hwatched
      | data bytes =>
        dsimp only
        by_cases hfits : started.2.responseBytes + bytes ≤ started.2.limits.maxResponseBytes
        . rw [RequestScope.addResponseBytes_fits hfits]
          exact ⟨hwatched.application, hwatched.isOpen⟩
        . obtain ⟨diagnostics, error, hexceeds⟩ := RequestScope.addResponseBytes_exceeds (not_le.mp hfits)
          rw [hexceeds]
          exact .finish hwatched.application false
    . exact .finish h.application false
    . exact .finish h.application true

theorem pollInner_frame {ready : Bool} {frame : BodyFrame} (h : (body.pollInner scope ready).1 = .frame frame)
    : ready = true ∧ body.hands scope = true := by
  unfold ScopedBody.pollInner at h
  unfold ScopedBody.hands
  cases ready with
  | false => cases h
  | true =>
    refine ⟨rfl, ?_⟩
    cases hitem : body.inner.items body.inner.position with
    | none =>
      rw [hitem] at h
      cases h
    | some item =>
      cases item with
      | error =>
        rw [hitem] at h
        cases h
      | frame next =>
        rw [hitem] at h
        cases next with
        | trailers => rfl
        | data bytes =>
          dsimp only
          apply decide_eq_true
          apply not_lt.mp
          intro hexceeds
          have hbytes := @start_bytes scope
            { body with inner := { body.inner with position := body.inner.position + 1 } }
          revert h hbytes
          dsimp only
          rw [if_neg (c := (!true) = true) Bool.false_ne_true]
          generalize ScopedBody.start _ scope = started
          intro h hbytes
          rw [← hbytes.1, ← hbytes.2] at hexceeds
          obtain ⟨diagnostics, error, htoolarge⟩ := RequestScope.addResponseBytes_exceeds hexceeds
          rw [htoolarge] at h
          cases h

end Bodies

section Scopes

variable {scope : RequestScope}

section

variable (hopen : scope.state.isOpen = true)

include hopen

theorem cancel_open (reason : CancelReason)
    : (scope.cancel reason).state.isOpen = true := by
  cases Exchange.cancel_state hopen reason with
  | inl hstate =>
    rw [hstate]
    exact hopen
  | inr hstate =>
    rw [hstate]
    rfl

theorem cancel_cancellation (reason : CancelReason)
    : (scope.cancel reason).cancellation = true := by
  obtain ⟨hdraining, hclosed⟩ := RequestState.isOpen_iff.mp hopen
  obtain ⟨state, hscope, _⟩ := RequestScope.cancel_eq reason hdraining hclosed
  rw [hscope]

theorem reported_open {target : RequestState} (htarget : target.isOpen = true) (outcome : RequestOutcome)
    : (scope.reported target outcome).state.isOpen = true := by
  unfold RequestScope.reported
  dsimp only
  split
  . exact htarget
  . exact hopen

theorem fail_open (diagnostic : RuntimeDiagnostic)
    : (scope.fail diagnostic).state.isOpen = true := by
  obtain ⟨diagnostics, hscope⟩ := @RequestScope.fail_eq scope diagnostic
  rw [hscope]
  exact reported_open hopen rfl .failed

theorem reject_open (diagnostic : RuntimeDiagnostic)
    : (scope.reject diagnostic).state.isOpen = true := by
  obtain ⟨diagnostics, hscope⟩ := @RequestScope.reject_eq scope diagnostic
  rw [hscope]
  exact reported_open hopen rfl .rejected

end

theorem commitResponseOrClose_open {status : Nat} {next : RequestScope}
    (h : commitResponseOrClose scope status = (next, .ok ()))
    : next.state.isOpen = true := by
  cases hallowed : transitionAllowed scope.state .responseCommitted with
  | true =>
    rw [Exchange.commitResponseOrClose_ok status hallowed] at h
    cases h
    rfl
  | false =>
    obtain ⟨diagnostic, error, hclosed⟩ := Exchange.commitResponseOrClose_error status hallowed
    rw [hclosed] at h
    cases h

theorem wrapHandlerResponse_ok {response : Delivery} {terminal : Bool} {next : RequestScope} {body : ScopedBody}
    (h : wrapHandlerResponse scope response terminal = (next, .ok body))
    : next.state.isOpen = true ∧ body = .new response.body terminal := by
  unfold wrapHandlerResponse at h
  cases hcommit : commitResponseOrClose scope response.status with
  | mk committed result =>
    rw [hcommit] at h
    cases result with
    | error error => cases h
    | ok done =>
      cases h
      exact ⟨commitResponseOrClose_open hcommit, rfl⟩

theorem scopedResponse_ok {status : Nat} {code : String} {next : RequestScope} {body : ScopedBody}
    (h : scopedResponse scope status code = (next, .ok body))
    : next.state.isOpen = true := by
  unfold scopedResponse at h
  dsimp only at h
  split at h
  . next hcommitted =>
    cases h
    cases hcommitted with
    | inl hstate =>
      rw [hstate]
      rfl
    | inr hstate =>
      rw [hstate]
      rfl
  . cases hcommit : commitResponseOrClose scope status with
    | mk committed result =>
      rw [hcommit] at h
      cases result with
      | error error => cases h
      | ok done =>
        cases h
        exact commitResponseOrClose_open hcommit

end Scopes

section Steps

variable {shipment next : Shipment}

section

variable (h : shipment.Ruled)

include h

theorem Ruled.beside {scope : RequestScope}
    (hscope : shipment.scope.state.isOpen = true → scope.state.isOpen = true)
    : Ruled { shipment with scope } := by
  constructor
  . have hplaced := h.placed
    unfold Placed at hplaced ⊢
    dsimp only
    cases htransit : shipment.transit with
    | resting body origin =>
      rw [htransit] at hplaced
      exact hplaced.step hscope
    | yielding body origin =>
      rw [htransit] at hplaced
      exact ⟨hplaced.1.step hscope, hplaced.2⟩
    | committing response origin terminal =>
      rw [htransit] at hplaced
      exact hplaced
    | _ => trivial
  . exact h.handed

theorem Ruled.carry {origin : Origin} {result : RequestScope × Except ScopeError ScopedBody}
    (hresult : ∀ scope body, result = (scope, .ok body) → Watched scope body origin)
    : (shipment.carry origin result).Ruled := by
  unfold Shipment.carry
  obtain ⟨scope, result⟩ := result
  cases result with
  | error error => exact ⟨trivial, h.handed⟩
  | ok body => exact ⟨hresult scope body rfl, h.handed⟩

theorem Ruled.select : shipment.select.Ruled := by
  unfold Shipment.select
  split
  . exact ⟨trivial, h.handed⟩
  . exact ⟨trivial, h.handed⟩

theorem Ruled.poll {body : ScopedBody} {origin : Origin} (hwatched : Watched shipment.scope body origin)
    : (shipment.poll body origin).Ruled := by
  unfold Shipment.poll
  split
  . exact h
  . next hfinished =>
    split
    . exact ⟨.finish hwatched.application false, h.handed⟩
    . exact ⟨⟨hwatched, Bool.eq_false_of_not_eq_true hfinished⟩, h.handed⟩

theorem Ruled.inner {body : ScopedBody} {origin : Origin} {ready : Bool}
    (htransit : shipment.transit = .yielding body origin) (hguard : shipment.undisturbed (.inner ready) = true)
    : (shipment.inner body origin ready).Ruled := by
  have hplaced := h.placed
  unfold Placed at hplaced
  rw [htransit] at hplaced
  have hwatched := hplaced.1.pollInner hplaced.2 ready
  unfold Shipment.inner
  split
  . next frame body' scope' hpolled =>
    rw [hpolled] at hwatched
    refine ⟨hwatched, ?_⟩
    intro handed hhanded hcancelled
    cases List.mem_append.mp hhanded with
    | inl hbefore => exact h.handed handed hbefore hcancelled
    | inr hnow =>
      rw [List.mem_singleton.mp hnow] at hcancelled ⊢
      dsimp only at hcancelled ⊢
      obtain ⟨rfl, hhands⟩ := @pollInner_frame shipment.scope body ready frame (by rw [hpolled])
      cases origin with
      | runtime => rfl
      | application =>
        unfold undisturbed at hguard
        rw [htransit] at hguard
        dsimp only at hguard
        rw [hplaced.1.application rfl, hcancelled, hhands] at hguard
        cases hguard
  . next result body' scope' _ hpolled =>
    rw [hpolled] at hwatched
    exact ⟨hwatched, h.handed⟩

theorem Ruled.step {event : ShipmentEvent} (hguard : shipment.undisturbed event = true)
    (hstep : shipment.step event = some next)
    : next.Ruled := by
  have hplaced := h.placed
  unfold Placed at hplaced
  unfold Shipment.step at hstep
  split at hstep
  -- The scope alone is changed.
  . cases hstep
    exact h.beside (fun hopen => cancel_open hopen _)
  . cases hstep
    exact h.beside id
  . cases hstep
    exact h.beside (fun hopen => fail_open hopen _)
  . cases hstep
    exact h.beside (fun hopen => reject_open hopen _)
  -- There is no body yet.
  . next htransit =>
    split at hstep
    . cases hstep
      exact ⟨by unfold Placed; rw [htransit]; trivial, h.handed⟩
    . cases hstep
  . next htransit =>
    split at hstep
    . cases hstep
      exact ⟨by unfold Placed; rw [htransit]; trivial, h.handed⟩
    . cases hstep
  . cases hstep
    exact h.carry fun scope body hscoped => ⟨nofun, fun _ => scopedResponse_ok hscoped⟩
  . cases hstep
    exact h.select
  . cases hstep
    exact ⟨trivial, h.handed⟩
  . cases hstep
    exact ⟨trivial, h.handed⟩
  . cases hstep
    exact ⟨trivial, h.handed⟩
  . cases hstep
    exact ⟨trivial, h.handed⟩
  -- The decision, on which everything after it rests.
  . next response origin htransit =>
    cases hstep
    refine ⟨?_, h.handed⟩
    intro horigin
    subst horigin
    unfold undisturbed at hguard
    rw [htransit] at hguard
    exact Bool.eq_false_of_not_eq_true (fun htrue => by rw [htrue] at hguard; cases hguard)
  . next response origin terminal htransit =>
    cases hstep
    rw [htransit] at hplaced
    apply h.carry
    intro scope body hwrapped
    obtain ⟨hopen, hbody⟩ := wrapHandlerResponse_ok hwrapped
    rw [hbody]
    exact ⟨hplaced, fun _ => hopen⟩
  . next body origin htransit =>
    cases hstep
    rw [htransit] at hplaced
    exact h.poll hplaced
  . next ready body origin htransit =>
    cases hstep
    exact h.inner htransit hguard
  . cases hstep
    exact ⟨trivial, h.handed⟩
  . cases hstep
    exact ⟨trivial, h.handed⟩
  . cases hstep

end

theorem start_ruled (requestId : Nat) (limits : RequestLimits) : (start requestId limits).Ruled :=
  ⟨trivial, nofun⟩

def Ended (shipment : Shipment) : Prop :=
  match shipment.transit with
  | .resting body _ => body.finished = true
  | .gone => True
  | _ => False

theorem Ended.step (h : shipment.Ended) {event : ShipmentEvent} (hstep : shipment.step event = some next)
    : next.Ended ∧ next.handed = shipment.handed := by
  obtain ⟨scope, transit, handed⟩ := shipment
  cases transit with
  | resting body origin =>
    cases event with
    | poll =>
      cases hstep
      unfold Shipment.poll
      rw [if_pos (c := body.finished = true) h]
      exact ⟨h, rfl⟩
    | drop =>
      cases hstep
      exact ⟨trivial, rfl⟩
    | _ =>
      cases hstep
      try exact ⟨h, rfl⟩
  | gone =>
    cases event with
    | _ =>
      cases hstep
      try exact ⟨trivial, rfl⟩
  | _ => cases h

theorem Ended.run (h : shipment.Ended) {events : List ShipmentEvent}
    (hrun : Reach.exec Shipment.step shipment events = some next)
    : next.handed = shipment.handed := by
  have hkeeps : ∀ before event after, (Ended before ∧ before.handed = shipment.handed) →
      Shipment.step before event = some after → Ended after ∧ after.handed = shipment.handed := by
    intro before event after hbefore hstep
    obtain ⟨hended, hsame⟩ := hbefore.1.step hstep
    exact ⟨hended, hsame.trans hbefore.2⟩
  exact (Reach.exec_invariant hkeeps ⟨h, rfl⟩ hrun).2

theorem Ruled.cancelled_ends (h : shipment.Ruled) {body : ScopedBody}
    (htransit : shipment.transit = .resting body .application) (hunfinished : body.finished = false)
    (reason : CancelReason)
    : ∃ ended, Reach.exec Shipment.step shipment [.cancel reason, .poll] = some ended ∧ ended.Ended
      ∧ ended.handed = shipment.handed := by
  obtain ⟨scope, transit, handed⟩ := shipment
  dsimp only at htransit
  subst htransit
  have hwatched : Watched scope body .application := h.placed
  refine ⟨_, rfl, ?_⟩
  unfold Shipment.poll
  dsimp only
  rw [hunfinished, hwatched.application rfl, cancel_cancellation (hwatched.isOpen hunfinished) reason]
  exact ⟨finish_finished false, rfl⟩

end Steps

theorem poll_whole {shipment : Shipment} {body : ScopedBody} {origin : Origin}
    (htransit : shipment.transit = .resting body origin) (ready : Bool)
    : ∃ events next, Reach.exec step shipment events = some next
      ∧ next.transit = .resting (body.pollFrame shipment.scope ready).2.1 origin
      ∧ next.scope = (body.pollFrame shipment.scope ready).2.2 := by
  obtain ⟨scope, transit, handed⟩ := shipment
  dsimp only at htransit ⊢
  subst htransit
  rw [ScopedBody.pollFrame_eq]
  by_cases hfinished : body.finished = true
  . refine ⟨[], _, rfl, ?_⟩
    rw [if_pos hfinished]
    exact ⟨rfl, rfl⟩
  . by_cases hcancelled : (!body.allowCancelled && scope.cancellation) = true
    . refine ⟨[.poll], _, rfl, ?_⟩
      unfold poll
      rw [if_neg hfinished, if_neg hfinished, if_pos hcancelled]
      dsimp only
      rw [if_pos hcancelled]
      exact ⟨rfl, rfl⟩
    . have hyields : step ⟨scope, .resting body origin, handed⟩ .poll = some ⟨scope, .yielding body origin, handed⟩ := by
        apply congrArg some
        unfold poll
        rw [if_neg hfinished]
        exact if_neg hcancelled
      refine ⟨[.poll, .inner ready], inner ⟨scope, .yielding body origin, handed⟩ body origin ready, ?_, ?_⟩
      . unfold Reach.exec
        rw [hyields]
        rfl
      . rw [if_neg hfinished, if_neg hcancelled]
        unfold inner
        dsimp only
        cases body.pollInner scope ready with
        | mk result rest =>
          cases result with
          | _ => exact ⟨rfl, rfl⟩

-- In a run without such a cancellation, only what the runtime itself says is handed over once the request has been
-- cancelled, and a poll of the body after a cancellation is the last that does anything.
theorem cancelled_bodies_stop {requestId : Nat} {limits : RequestLimits} {shipment : Shipment}
    (h : Reach.Under (· = start requestId limits) step (fun shipment event => undisturbed shipment event = true)
      shipment)
    : (∀ handed ∈ shipment.handed, handed.cancelled = true → handed.origin = .runtime)
    ∧ ∀ body, shipment.transit = .resting body .application → body.finished = false → ∀ reason,
      ∃ ended, Reach.exec step shipment [.cancel reason, .poll] = some ended ∧ ended.handed = shipment.handed
        ∧ ∀ events next, Reach.exec step ended events = some next → next.handed = ended.handed := by
  have hruled : shipment.Ruled := by
    apply h.invariant
    . intro first hfirst
      rw [hfirst]
      exact start_ruled requestId limits
    . intro before event after hbefore hguard hstep
      exact hbefore.step hguard hstep
  refine ⟨hruled.handed, ?_⟩
  intro body htransit hunfinished reason
  obtain ⟨ended, hrun, hended, hsame⟩ := hruled.cancelled_ends htransit hunfinished reason
  exact ⟨ended, hrun, hsame, fun events next hnext => hended.run hnext⟩

def endless : InnerBody where
  items _ := some (.frame (.data 1))
  position := 0
  announcesEnd := false

def untilHandler : List ShipmentEvent :=
  [.advance .headAdmitted, .advance .routeResolved, .advance .scopeOpen, .advance .handlerRunning, .select]

theorem cancelled_bodies_stop_endless
    : ∃ shipment body, Reach.execWhen step undisturbed (start 1 ⟨100, 4, 4, 4⟩)
        (untilHandler ++ [.respond ⟨200, endless⟩, .decide, .commit, .poll, .inner true]) = some shipment
      ∧ shipment.transit = .resting body .application ∧ shipment.handed = [⟨.application, false⟩]
      ∧ ∃ ended, Reach.exec step shipment [.cancel .deadline, .poll] = some ended
        ∧ ended.handed = [⟨.application, false⟩]
        ∧ ∀ events next, Reach.exec step ended events = some next → next.handed = ended.handed := by
  obtain ⟨shipment, body, hrun, htransit, hunfinished, hhanded⟩ : ∃ shipment body,
      Reach.execWhen step undisturbed (start 1 ⟨100, 4, 4, 4⟩)
        (untilHandler ++ [.respond ⟨200, endless⟩, .decide, .commit, .poll, .inner true]) = some shipment
      ∧ shipment.transit = .resting body .application ∧ body.finished = false
      ∧ shipment.handed = [⟨.application, false⟩] := ⟨_, _, rfl, rfl, rfl, rfl⟩
  have hunder := @Reach.execWhen_under _ _ (· = start 1 ⟨100, 4, 4, 4⟩) step undisturbed _ _ _ (.init rfl) hrun
  obtain ⟨ended, hended, hsame, hlast⟩ := (cancelled_bodies_stop hunder).2 body htransit hunfinished .deadline
  exact ⟨shipment, body, hrun, htransit, hhanded, ended, hended, hsame.trans hhanded, hlast⟩

-- The handler reads a body that is too large, answers with its own endless stream all the same, and goes on after the
-- deadline too.
theorem overflown_handler_streams
    : ¬ ∀ shipment, Reach.Any (· = start 1 ⟨100, 4, 4, 4⟩) step shipment →
      ∀ handed ∈ shipment.handed, handed.cancelled = true → handed.origin = .runtime := by
  intro hall
  obtain ⟨shipment, hrun, hhanded⟩ : ∃ shipment, Reach.exec step (start 1 ⟨100, 4, 4, 4⟩)
      (untilHandler ++ [.cancel .requestBodyLimit, .respond ⟨200, endless⟩, .decide, .commit, .poll, .inner true,
        .cancel .deadline, .poll, .inner true]) = some shipment
      ∧ shipment.handed = [⟨.application, true⟩, ⟨.application, true⟩] := ⟨_, rfl, rfl⟩
  have hmember : ⟨.application, true⟩ ∈ shipment.handed := by
    rw [hhanded]
    exact .head _
  cases hall shipment (Reach.exec_any _ (.init rfl) hrun) _ hmember rfl

end Shipment

end Native

end Pliego
