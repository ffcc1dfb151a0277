import Pliego.Native.Exchange

/-!
What holds of one request at every point of its life: nothing of it is settled before its body ends, and then
everything is settled once.
-/

namespace Pliego

namespace Native

def RequestState.isCommitted (state : RequestState) : Bool :=
  state = .responseCommitted || state = .bodyStreaming || state = .cancelled || state = .failed

def RequestState.isOpen (state : RequestState) : Bool := state ≠ .scopeDraining && state ≠ .closed

namespace Exchange

-- `counted` is what the scope has counted, which is more than was handed over once a frame was too large.
structure Unsettled (exchange : Exchange) (counted : Nat) : Prop where
  isOpen : exchange.scope.state.isOpen = true
  unrecorded : exchange.scope.receiptRecorded = false
  receipts : exchange.scope.receipts = []
  ran : exchange.scope.ran = []
  cleanups : exchange.scope.cleanups = exchange.users
  internalCleanups : exchange.scope.internalCleanups = exchange.internals
  bytes : exchange.scope.responseBytes = counted
  limit : exchange.handed ≤ exchange.scope.limits.maxResponseBytes

structure Live (exchange : Exchange) (counted : Nat) : Prop extends Unsettled exchange counted where
  pending : exchange.scope.outcome = .pending ↔ exchange.disturbed = false
  unsuccessful : exchange.scope.outcome ≠ .success
  reason : exchange.scope.cancelReason.isSome = true → exchange.disturbed = true
  cancellation : exchange.scope.cancellation = true → exchange.disturbed = true

def duties (exchange : Exchange) (reason : Option CancelReason) : List Ran :=
  exchange.users.map (fun cleanup => .user cleanup.id reason) ++ exchange.internals.map .internal

structure Closed (exchange : Exchange) : Prop where
  state : exchange.scope.state = .closed
  completion : exchange.scope.completion = true
  ran : exchange.scope.ran = exchange.duties exchange.scope.cancelReason
  receipt : ∃ receipt, exchange.scope.receipts = [receipt] ∧ receipt.requestId = exchange.scope.requestId
  limit : exchange.handed ≤ exchange.scope.limits.maxResponseBytes

def Inv (exchange : Exchange) : Prop :=
  match exchange.stage with
  | .streaming body =>
    if body.finished then exchange.Closed
    else exchange.Live exchange.handed ∧ exchange.scope.state.isCommitted = true
  | .gone _ => exchange.Closed
  | _ => exchange.Live exchange.handed

end Exchange

section States

variable {state : RequestState}

theorem RequestState.isCommitted_isOpen (h : state.isCommitted = true) : state.isOpen = true := by
  revert h
  cases state <;> decide

theorem RequestState.isCommitted_drains (h : state.isCommitted = true)
    : transitionAllowed state .scopeDraining = true := by
  revert h
  cases state <;> decide

theorem RequestState.isOpen_iff : state.isOpen = true ↔ state ≠ .scopeDraining ∧ state ≠ .closed := by
  cases state <;> decide

theorem RequestState.uncommitted_fails (hopen : state.isOpen = true)
    (hcommit : transitionAllowed state .responseCommitted = false)
    : transitionAllowed state .failed = true := by
  revert hopen hcommit
  cases state <;> decide

theorem RequestState.isCommitted_rejected (h : state.isCommitted = true)
    : transitionAllowed state .rejected = false := by
  revert h
  cases state <;> decide

theorem RequestState.committed_stays (h : state.isCommitted = true) {next : RequestState}
    (hnext : next = .routeResolved ∨ next = .scopeOpen ∨ next = .handlerRunning)
    : transitionAllowed state next = false := by
  revert h
  obtain rfl | rfl | rfl := hnext
  . cases state <;> decide
  . cases state <;> decide
  . cases state <;> decide

end States

namespace Exchange

section Live

variable {exchange : Exchange} {scope : RequestScope} {counted : Nat}

section

variable (h : exchange.Live counted)

include h

theorem Live.disturb : exchange.disturb = true := by
  obtain ⟨hdraining, hclosed⟩ := RequestState.isOpen_iff.mp h.isOpen
  unfold Exchange.disturb
  simp [hdraining, hclosed]

theorem Live.move {state : RequestState} (hstate : state.isOpen = true)
    (hscope : ∃ responseStatus, scope = { exchange.scope with state, responseStatus }) (stage : Stage) (chain : Chain)
    : Live { exchange with scope, stage, chain } counted := by
  obtain ⟨responseStatus, rfl⟩ := hscope
  exact { h with isOpen := hstate }

theorem Live.report {target : RequestState} {outcome : RequestOutcome}
    (htarget : target.isOpen = true) (houtcome : outcome ≠ .pending ∧ outcome ≠ .success)
    (hscope : ∃ diagnostics, scope = { exchange.scope.reported target outcome with diagnostics })
    (stage : Stage) (chain : Chain)
    : Live { exchange with scope, stage, chain, disturbed := true } counted := by
  obtain ⟨diagnostics, rfl⟩ := hscope
  unfold RequestScope.reported
  constructor
  . refine { h.toUnsettled with isOpen := ?_ }
    dsimp only
    split
    . exact htarget
    . exact h.isOpen
  . dsimp only
    split
    . exact iff_of_false houtcome.1 Bool.true_eq_false_eq_False
    . next hpending => exact iff_of_false hpending Bool.true_eq_false_eq_False
  . dsimp only
    split
    . exact houtcome.2
    . exact h.unsuccessful
  . exact fun _ => rfl
  . exact fun _ => rfl

theorem Live.fail (diagnostic : RuntimeDiagnostic) (stage : Stage) (chain : Chain)
    : Live { exchange with scope := exchange.scope.fail diagnostic, stage, chain, disturbed := true } counted := by
  apply h.report rfl ⟨?_, ?_⟩ (RequestScope.fail_eq diagnostic)
  . decide
  . decide

theorem Live.reject (diagnostic : RuntimeDiagnostic) (stage : Stage) (chain : Chain)
    : Live { exchange with scope := exchange.scope.reject diagnostic, stage, chain, disturbed := true } counted := by
  apply h.report rfl ⟨?_, ?_⟩ (RequestScope.reject_eq diagnostic)
  . decide
  . decide

theorem Live.cancel (reason : CancelReason) (stage : Stage) (chain : Chain)
    : Live { exchange with scope := exchange.scope.cancel reason, stage, chain, disturbed := true } counted := by
  obtain ⟨hdraining, hclosed⟩ := RequestState.isOpen_iff.mp h.isOpen
  obtain ⟨state, hscope, hstate⟩ := RequestScope.cancel_eq reason hdraining hclosed
  rw [hscope]
  constructor
  . refine { h.toUnsettled with isOpen := ?_ }
    cases hstate with
    | inl hsame =>
      rw [hsame]
      exact h.isOpen
    | inr hcancelled =>
      rw [hcancelled.2]
      rfl
  . dsimp only
    split
    . exact iff_of_false (by decide) (by decide)
    . next hpending => exact iff_of_false hpending (by decide)
  . dsimp only
    split
    . decide
    . exact h.unsuccessful
  . exact fun _ => rfl
  . exact fun _ => rfl

end

theorem cancel_state (h : scope.state.isOpen = true) (reason : CancelReason)
    : (scope.cancel reason).state = scope.state ∨ (scope.cancel reason).state = .cancelled := by
  obtain ⟨hdraining, hopen⟩ := RequestState.isOpen_iff.mp h
  obtain ⟨state, hscope, hstate⟩ := RequestScope.cancel_eq reason hdraining hopen
  rw [hscope]
  exact hstate.imp id And.right

theorem cancel_of_closed (h : scope.state = .closed) (reason : CancelReason) : scope.cancel reason = scope := by
  unfold RequestScope.cancel
  exact if_pos (.inr h)

end Live

section Beside

-- What others do to the scope leaves the stage alone: it keeps a live request live and a closed one closed.
structure Beside (exchange next : Exchange) : Prop where
  live : exchange.Live exchange.handed → next.Live next.handed
  committed : exchange.Live exchange.handed → exchange.scope.state.isCommitted = true →
    next.scope.state.isCommitted = true
  closed : exchange.Closed → next.Closed ∧ next.scope.receipts = exchange.scope.receipts
    ∧ next.disturbed = exchange.disturbed
  stage : next.stage = exchange.stage
  handed : next.handed = exchange.handed

variable {exchange next : Exchange}

theorem Beside.inv (hbeside : Beside exchange next) (h : exchange.Inv) : next.Inv := by
  unfold Inv at h ⊢
  rw [hbeside.stage]
  cases hstage : exchange.stage with
  | streaming body =>
    rw [hstage] at h
    dsimp only at h ⊢
    split at h
    . next hfinished =>
      rw [if_pos hfinished]
      exact (hbeside.closed h).1
    . next hfinished =>
      rw [if_neg hfinished]
      exact ⟨hbeside.live h.1, hbeside.committed h.1 h.2⟩
  | gone body =>
    rw [hstage] at h
    exact (hbeside.closed h).1
  | _ =>
    rw [hstage] at h
    exact hbeside.live h

theorem Closed.disturb (h : exchange.Closed) : exchange.disturb = exchange.disturbed := by
  unfold Exchange.disturb
  rw [h.state]
  simp

theorem Closed.settle (h : exchange.Closed) {scope : RequestScope} (outcome : RequestOutcome)
    (diagnostics : List RuntimeDiagnostic) (hscope : scope = { exchange.scope with outcome, diagnostics })
    (stage : Stage) (chain : Chain) (disturbed : Bool)
    : Closed { exchange with scope, stage, chain, disturbed } := by
  rw [hscope]
  exact ⟨h.state, h.completion, h.ran, h.receipt, h.limit⟩

theorem failed_beside (diagnostic : RuntimeDiagnostic) (chain : Chain)
    : Beside exchange { exchange.failed diagnostic with chain } := by
  obtain ⟨diagnostics, hscope⟩ := @RequestScope.fail_eq exchange.scope diagnostic
  unfold failed
  constructor
  . intro hlive
    dsimp only
    rw [hlive.disturb]
    exact hlive.fail diagnostic _ _
  . intro hlive hcommitted
    dsimp only
    rw [hscope]
    unfold RequestScope.reported
    dsimp only
    split
    . rfl
    . exact hcommitted
  . intro hclosed
    have hstate : transitionAllowed exchange.scope.state .failed = false := by
      rw [hclosed.state]
      rfl
    unfold RequestScope.reported at hscope
    rw [hstate, if_neg Bool.false_ne_true] at hscope
    refine ⟨hclosed.settle _ _ hscope _ _ _, ?_, hclosed.disturb⟩
    dsimp only
    rw [hscope]
  . rfl
  . rfl

theorem rejected_beside (diagnostic : RuntimeDiagnostic) : Beside exchange (exchange.rejected diagnostic) := by
  obtain ⟨diagnostics, hscope⟩ := @RequestScope.reject_eq exchange.scope diagnostic
  unfold rejected
  constructor
  . intro hlive
    dsimp only
    rw [hlive.disturb]
    exact hlive.reject diagnostic _ _
  . intro hlive hcommitted
    dsimp only
    rw [hscope]
    unfold RequestScope.reported
    dsimp only
    rw [RequestState.isCommitted_rejected hcommitted, if_neg Bool.false_ne_true]
    exact hcommitted
  . intro hclosed
    have hstate : transitionAllowed exchange.scope.state .rejected = false := by
      rw [hclosed.state]
      rfl
    unfold RequestScope.reported at hscope
    rw [hstate, if_neg Bool.false_ne_true] at hscope
    refine ⟨hclosed.settle _ _ hscope _ _ _, ?_, hclosed.disturb⟩
    dsimp only
    rw [hscope]
  . rfl
  . rfl

theorem cancelled_beside (reason : CancelReason) : Beside exchange (exchange.cancelled reason) := by
  unfold cancelled
  constructor
  . intro hlive
    dsimp only
    rw [hlive.disturb]
    exact hlive.cancel reason _ _
  . intro hlive hcommitted
    dsimp only
    cases cancel_state hlive.isOpen reason with
    | inl hsame =>
      rw [hsame]
      exact hcommitted
    | inr hcancelled =>
      rw [hcancelled]
      rfl
  . intro hclosed
    have hsame := cancel_of_closed hclosed.state reason
    refine ⟨hclosed.settle _ _ hsame _ _ _, ?_, hclosed.disturb⟩
    dsimp only
    rw [hsame]
  . rfl
  . rfl

theorem register_beside (cleanup : Cleanup) : Beside exchange (exchange.register cleanup) := by
  unfold register RequestScope.registerCleanup
  by_cases hdrained : exchange.scope.state = .scopeDraining ∨ exchange.scope.state = .closed
  . rw [if_pos hdrained]
    exact ⟨id, fun _ => id, fun hclosed => ⟨hclosed, rfl, rfl⟩, rfl, rfl⟩
  . rw [if_neg hdrained]
    split
    . next hlimit =>
      split at hlimit
      . cases hlimit
      . cases hlimit
        constructor
        . exact fun hlive => { hlive with cleanups := congrArg (cleanup :: ·) hlive.cleanups }
        . exact fun _ => id
        . exact fun hclosed => absurd (.inr hclosed.state) hdrained
        . rfl
        . rfl
    . exact ⟨id, fun _ => id, fun hclosed => ⟨hclosed, rfl, rfl⟩, rfl, rfl⟩

theorem moveTo_beside {state : RequestState} (hopen : state.isOpen = true)
    (hstate : state = .routeResolved ∨ state = .scopeOpen ∨ state = .handlerRunning) (chain : Chain)
    : Beside exchange (exchange.moveTo state chain) := by
  unfold moveTo
  cases htransition : exchange.scope.transition state with
  | error error => exact failed_beside lifecycleFailure .routed
  | ok scope =>
    obtain ⟨hallowed, rfl⟩ := RequestScope.transition_eq_ok.mp htransition
    constructor
    . exact fun hlive => hlive.move hopen ⟨_, rfl⟩ _ _
    . intro _ hcommitted
      rw [RequestState.committed_stays hcommitted hstate] at hallowed
      cases hallowed
    . intro hclosed
      rw [hclosed.state] at hallowed
      obtain rfl | rfl | rfl := hstate
      . cases hallowed
      . cases hallowed
      . cases hallowed
    . rfl
    . rfl

theorem openData_beside (result : Except RuntimeDiagnostic Bool) : Beside exchange (exchange.openData result) := by
  unfold openData
  cases result with
  | error diagnostic => exact failed_beside diagnostic .routed
  | ok panics =>
    dsimp only
    unfold RequestScope.registerInternalCleanup
    by_cases hdrained : exchange.scope.state = .scopeDraining ∨ exchange.scope.state = .closed
    . rw [if_pos hdrained]
      exact failed_beside _ .routed
    . rw [if_neg hdrained]
      constructor
      . exact fun hlive =>
          { hlive with internalCleanups := congrArg (InternalCleanup.closeData panics :: ·) hlive.internalCleanups }
      . exact fun _ => id
      . exact fun hclosed => absurd (.inr hclosed.state) hdrained
      . rfl
      . rfl

end Beside

section Ends

structure Ends (handed : Nat) (after : Exchange) (outcome : RequestOutcome) (reason : Option CancelReason)
    (counted : Nat) : Prop where
  closed : after.Closed
  receipt : ∃ receipt, after.scope.receipts = [receipt] ∧ receipt.outcome = outcome ∧ receipt.cancelReason = reason
    ∧ receipt.responseBytes = counted
  handed : after.handed = handed

variable {exchange : Exchange} {counted : Nat}

theorem Unsettled.ends (h : exchange.Unsettled counted)
    (hallowed : transitionAllowed exchange.scope.state .scopeDraining = true) (stage : Stage) (disturbed : Bool)
    : Ends exchange.handed { exchange with scope := exchange.scope.drainAndClose, stage, disturbed }
        exchange.scope.outcome exchange.scope.cancelReason counted := by
  obtain ⟨receipt, diagnostics, hscope, hid, houtcome, -, hreason, -, hbytes⟩ :=
    RequestScope.drainAndClose_eq hallowed h.unrecorded
  rw [hscope]
  constructor
  . constructor
    . rfl
    . rfl
    . dsimp only
      unfold RequestScope.due duties
      rw [h.ran, h.cleanups, h.internalCleanups, List.nil_append]
    . refine ⟨receipt, ?_, hid⟩
      dsimp only
      rw [h.receipts, List.nil_append]
    . exact h.limit
  . refine ⟨receipt, ?_, houtcome, hreason, ?_⟩
    . dsimp only
      rw [h.receipts, List.nil_append]
    . rw [hbytes, h.bytes]
  . rfl

end Ends

section Commit

variable {exchange : Exchange}

theorem commitResponseOrClose_ok {scope : RequestScope} (status : Nat)
    (hallowed : transitionAllowed scope.state .responseCommitted = true)
    : commitResponseOrClose scope status
      = ({ scope with state := .responseCommitted, responseStatus := some status }, .ok ()) := by
  unfold commitResponseOrClose
  rw [RequestScope.commitResponse_eq_ok.mpr ⟨hallowed, rfl⟩]

theorem commitResponseOrClose_error {scope : RequestScope} (status : Nat)
    (hallowed : transitionAllowed scope.state .responseCommitted = false)
    : ∃ diagnostic error, commitResponseOrClose scope status
      = ((scope.fail diagnostic).drainAndClose, .error error) := by
  unfold commitResponseOrClose
  cases hcommit : scope.commitResponse status with
  | error error => exact ⟨_, _, rfl⟩
  | ok committed =>
    rw [(RequestScope.commitResponse_eq_ok.mp hcommit).1] at hallowed
    cases hallowed

inductive Committed (exchange : Exchange) : Exchange → Prop where
  | committed (status : Nat) (body : ScopedBody) (hfinished : body.finished = false)
    : Committed exchange { exchange with
        scope := { exchange.scope with state := .responseCommitted, responseStatus := some status }
        stage := .streaming body }
  | closed (diagnostic : RuntimeDiagnostic)
      (hallowed : transitionAllowed exchange.scope.state .responseCommitted = false)
    : Committed exchange { exchange with
        scope := (exchange.scope.fail diagnostic).drainAndClose, stage := .gone none, disturbed := true }

theorem carry_committed (h : exchange.Live exchange.handed) (response : Delivery) (terminal : Bool)
    : Committed exchange (exchange.carry (wrapHandlerResponse exchange.scope response terminal)) := by
  unfold wrapHandlerResponse
  cases hallowed : transitionAllowed exchange.scope.state .responseCommitted with
  | true =>
    rw [commitResponseOrClose_ok response.status hallowed]
    exact .committed response.status _ rfl
  | false =>
    obtain ⟨diagnostic, error, hcommit⟩ := commitResponseOrClose_error response.status hallowed
    rw [hcommit]
    unfold carry
    dsimp only
    rw [h.disturb]
    exact .closed diagnostic hallowed

theorem uncommitted_ends (h : exchange.Live exchange.handed)
    (hallowed : transitionAllowed exchange.scope.state .responseCommitted = false) (diagnostic : RuntimeDiagnostic)
    : ∃ outcome reason, outcome ≠ .success
      ∧ Ends exchange.handed { exchange with
          scope := (exchange.scope.fail diagnostic).drainAndClose, stage := .gone none, disturbed := true }
        outcome reason exchange.handed := by
  have hlive := h.fail diagnostic (.gone none) exchange.chain
  refine ⟨_, _, hlive.unsuccessful, hlive.toUnsettled.ends ?_ _ _⟩
  obtain ⟨diagnostics, hscope⟩ := @RequestScope.fail_eq exchange.scope diagnostic
  dsimp only
  rw [hscope]
  unfold RequestScope.reported
  dsimp only
  rw [RequestState.uncommitted_fails h.isOpen hallowed]
  rfl

theorem finished_inv {body : ScopedBody} (h : exchange.Closed) (hstage : exchange.stage = .streaming body)
    (hbody : body.finished = true)
    : exchange.Inv := by
  unfold Inv
  rw [hstage]
  dsimp only
  rw [if_pos hbody]
  exact h

theorem unfinished_inv {body : ScopedBody} (h : exchange.Live exchange.handed)
    (hstate : exchange.scope.state.isCommitted = true) (hstage : exchange.stage = .streaming body)
    (hbody : body.finished = false)
    : exchange.Inv := by
  unfold Inv
  rw [hstage]
  dsimp only
  rw [hbody, if_neg Bool.false_ne_true]
  exact ⟨h, hstate⟩

theorem committed_live (h : exchange.Live exchange.handed) (status : Nat) (stage : Stage)
    : Live { exchange with
        scope := { exchange.scope with state := .responseCommitted, responseStatus := some status }, stage }
      exchange.handed :=
  h.move rfl ⟨_, rfl⟩ _ _

inductive Refused (handed : Nat) (next : Exchange) : Prop where
  | streaming (hlive : next.Live next.handed) (hinv : next.Inv)
  | closed (hends : ∃ outcome reason, outcome ≠ .success ∧ Ends handed next outcome reason handed)
      (hdisturbed : next.disturbed = true) (hinv : next.Inv)

theorem carry_scoped (h : exchange.Live exchange.handed) (status : Nat) (code : String)
    : Refused exchange.handed (exchange.carry (scopedResponse exchange.scope status code)) := by
  unfold scopedResponse
  dsimp only
  split
  . next hstate =>
    have hcommitted : exchange.scope.state.isCommitted = true := by
      cases hstate with
      | inl hsame =>
        rw [hsame]
        rfl
      | inr hsame =>
        rw [hsame]
        rfl
    exact .streaming { h with } (unfinished_inv { h with } hcommitted rfl rfl)
  . cases hallowed : transitionAllowed exchange.scope.state .responseCommitted with
    | true =>
      rw [commitResponseOrClose_ok status hallowed]
      exact .streaming (committed_live h status _) (unfinished_inv (committed_live h status _) rfl rfl rfl)
    | false =>
      obtain ⟨diagnostic, error, hcommit⟩ := commitResponseOrClose_error status hallowed
      rw [hcommit]
      unfold carry
      dsimp only
      rw [h.disturb]
      have hends := uncommitted_ends h hallowed diagnostic
      refine .closed hends rfl ?_
      obtain ⟨_, _, _, hclosed⟩ := hends
      exact hclosed.closed

theorem arrive_live (requestId : Nat) (limits : RequestLimits) : (arrive requestId limits).Live 0 := by
  constructor
  . exact ⟨rfl, rfl, rfl, rfl, rfl, rfl, rfl, Nat.zero_le _⟩
  . exact iff_of_true rfl rfl
  . intro h
    cases h
  . intro h
    cases h
  . intro h
    cases h

theorem answered_refused (h : exchange.Live exchange.handed) (result : Except AdmissionError Unit)
    : Refused exchange.handed (exchange.answered result) := by
  unfold answered
  cases result with
  | ok done => exact .streaming { h with } { h with }
  | error error =>
    cases error with
    | draining =>
      dsimp only
      exact carry_scoped ((rejected_beside _).live h) _ _
    | overloaded =>
      dsimp only
      exact carry_scoped ((rejected_beside _).live h) _ _
    | internal error =>
      dsimp only
      exact carry_scoped ((failed_beside _ exchange.chain).live h) _ _

theorem admission_refused (h : exchange.Live exchange.handed) (answer : Except AdmissionError Unit)
    : Refused exchange.handed (exchange.admission answer) := by
  unfold admission RequestScope.registerInternalCleanup
  obtain ⟨hdraining, hclosed⟩ := RequestState.isOpen_iff.mp h.isOpen
  rw [if_neg (by simp [hdraining, hclosed])]
  have hlive : Live { exchange with
      scope := { exchange.scope with internalCleanups := .removeRequest :: exchange.scope.internalCleanups }
      internals := .removeRequest :: exchange.internals } exchange.handed :=
    { h with internalCleanups := congrArg (InternalCleanup.removeRequest :: ·) h.internalCleanups }
  exact answered_refused hlive answer

end Commit

section Step

variable {exchange next : Exchange} {body : ScopedBody}

inductive Polled (exchange : Exchange) (body : ScopedBody) (ready : Bool) : Exchange → Prop where
  | stopped (hcancelled : (!body.allowCancelled && exchange.scope.cancellation) = true)
    : Polled exchange body ready { exchange with
        scope := exchange.scope.drainAndClose, stage := .streaming { body with finished := true }, disturbed := true }
  | waiting (hready : ready = false) : Polled exchange body ready exchange
  | trailers (hcancelled : (!body.allowCancelled && exchange.scope.cancellation) = false)
      (hitem : body.inner.items body.inner.position = some (.frame .trailers)) (scope : RequestScope)
      (hscope : ∃ state, state.isCommitted = true ∧ scope = { exchange.scope with state }) (body' : ScopedBody)
      (hfinished : body'.finished = false)
    : Polled exchange body ready { exchange with scope, stage := .streaming body' }
  | data (bytes : Nat) (hcancelled : (!body.allowCancelled && exchange.scope.cancellation) = false)
      (hitem : body.inner.items body.inner.position = some (.frame (.data bytes))) (scope : RequestScope)
      (hsize : exchange.scope.responseBytes + bytes ≤ exchange.scope.limits.maxResponseBytes)
      (hscope : ∃ state, state.isCommitted = true
        ∧ scope = { exchange.scope with state, responseBytes := exchange.scope.responseBytes + bytes })
      (body' : ScopedBody) (hfinished : body'.finished = false)
    : Polled exchange body ready
        { exchange with scope, stage := .streaming body', handed := exchange.handed + bytes }
  | tooLarge (bytes : Nat) (hready : ready = true)
      (hcancelled : (!body.allowCancelled && exchange.scope.cancellation) = false)
      (hitem : body.inner.items body.inner.position = some (.frame (.data bytes))) (scope : RequestScope)
      (hsize : exchange.scope.limits.maxResponseBytes < exchange.scope.responseBytes + bytes)
      (hscope : ∃ state diagnostics, state.isCommitted = true ∧ scope = ({ exchange.scope with
          state, responseBytes := exchange.scope.responseBytes + bytes, diagnostics }
          : RequestScope).cancel .responseBodyLimit)
      (body' : ScopedBody) (hfinished : body'.finished = true)
    : Polled exchange body ready
        { exchange with scope := scope.drainAndClose, stage := .streaming body', disturbed := true }
  | broken (hcancelled : (!body.allowCancelled && exchange.scope.cancellation) = false)
      (hitem : body.inner.items body.inner.position = some .error) (diagnostic : RuntimeDiagnostic)
    : Polled exchange body ready { exchange with
        scope := (exchange.scope.fail diagnostic).drainAndClose
        stage := .streaming { body with finished := true }
        disturbed := true }
  | ended (hcancelled : (!body.allowCancelled && exchange.scope.cancellation) = false)
      (hitem : body.inner.items body.inner.position = none)
    : Polled exchange body ready { exchange with
        scope := exchange.scope.completeSuccess, stage := .streaming { body with finished := true } }

theorem pollBody_polled {ready : Bool} (hbody : body.finished = false)
    (hstate : exchange.scope.state.isCommitted = true) (hstage : exchange.stage = .streaming body)
    : Polled exchange body ready (exchange.pollBody body ready) := by
  have hfinish : ∀ (body : ScopedBody) (scope : RequestScope) (success : Bool), body.finished = false →
      body.finish scope success
        = ({ body with finished := true }, if success then scope.completeSuccess else scope.drainAndClose) := by
    intro body scope success hbody
    unfold ScopedBody.finish
    rw [hbody]
    rfl
  have hstart : ∀ body : ScopedBody, body.finished = false → ∃ body' state, body'.finished = false
      ∧ state.isCommitted = true ∧ body.start exchange.scope = (body', { exchange.scope with state }) := by
    intro body hbody
    unfold ScopedBody.start
    split
    . exact ⟨body, exchange.scope.state, hbody, hstate, rfl⟩
    . rw [RequestScope.tryTransition_eq]
      refine ⟨{ body with started := true }, _, hbody, ?_, rfl⟩
      split
      . rfl
      . exact hstate
  have hsame : { exchange with scope := exchange.scope, stage := .streaming body } = exchange := by
    rw [← hstage]
  have hopen : ¬ body.finished = true := by
    rw [hbody]
    exact Bool.false_ne_true
  unfold pollBody ScopedBody.pollFrame
  rw [if_neg hopen]
  cases hcancelled : !body.allowCancelled && exchange.scope.cancellation with
  | true =>
    rw [if_pos (c := true = true) rfl, hfinish body _ _ hbody]
    exact .stopped hcancelled
  | false =>
    rw [if_neg Bool.false_ne_true]
    cases ready with
    | false =>
      rw [if_pos (c := (!false) = true) rfl]
      dsimp only
      rw [hsame]
      exact .waiting rfl
    | true =>
      rw [if_neg (by decide)]
      cases hitem : body.inner.items body.inner.position with
      | none =>
        dsimp only
        rw [hfinish body _ _ hbody]
        exact .ended hcancelled hitem
      | some item =>
        cases item with
        | error =>
          dsimp only
          rw [hfinish body _ _ hbody]
          exact .broken hcancelled hitem _
        | frame frame =>
          dsimp only
          obtain ⟨body', state, hfinished, hcommitted, hbegun⟩ := hstart
            { body with inner := { body.inner with position := body.inner.position + 1 } } hbody
          rw [hbegun]
          cases frame with
          | trailers => exact .trailers hcancelled hitem _ ⟨state, hcommitted, rfl⟩ body' hfinished
          | data bytes =>
            dsimp only
            by_cases hlimit : exchange.scope.limits.maxResponseBytes < exchange.scope.responseBytes + bytes
            . obtain ⟨diagnostics, error, hexceeds⟩ := @RequestScope.addResponseBytes_exceeds
                { exchange.scope with state } bytes hlimit
              rw [hexceeds]
              dsimp only
              rw [hfinish body' _ _ hfinished]
              exact .tooLarge bytes rfl hcancelled hitem _ hlimit ⟨state, diagnostics, hcommitted, rfl⟩
                { body' with finished := true } rfl
            . rw [@RequestScope.addResponseBytes_fits { exchange.scope with state } bytes (not_lt.mp hlimit)]
              exact .data bytes hcancelled hitem _ (not_lt.mp hlimit) ⟨state, hcommitted, rfl⟩ body' hfinished

section Polls

variable {ready : Bool}

section

variable (h : exchange.Live exchange.handed)

include h

theorem stopped_ends (hstate : exchange.scope.state.isCommitted = true) (stage : Stage)
    : Ends exchange.handed { exchange with scope := exchange.scope.drainAndClose, stage, disturbed := true }
        exchange.scope.outcome exchange.scope.cancelReason exchange.handed :=
  h.toUnsettled.ends (RequestState.isCommitted_drains hstate) _ _

theorem tooLarge_ends {bytes : Nat} {scope : RequestScope}
    (hscope : ∃ state diagnostics, state.isCommitted = true ∧ scope = ({ exchange.scope with
        state, responseBytes := exchange.scope.responseBytes + bytes, diagnostics }
        : RequestScope).cancel .responseBodyLimit) (stage : Stage)
    : ∃ outcome reason, Ends exchange.handed { exchange with scope := scope.drainAndClose, stage, disturbed := true }
        outcome reason (exchange.handed + bytes) := by
  obtain ⟨state, diagnostics, hcommitted, rfl⟩ := hscope
  have hlive : Live { exchange with scope := { exchange.scope with
      state, responseBytes := exchange.scope.responseBytes + bytes, diagnostics } } (exchange.handed + bytes) := by
    refine { h with isOpen := RequestState.isCommitted_isOpen hcommitted, bytes := ?_ }
    dsimp only
    rw [h.bytes]
  have hends := (hlive.cancel .responseBodyLimit stage exchange.chain).toUnsettled.ends
  refine ⟨_, _, hends ?_ _ _⟩
  apply RequestState.isCommitted_drains
  cases cancel_state hlive.isOpen .responseBodyLimit with
  | inl hsame =>
    dsimp only at hsame ⊢
    rw [hsame]
    exact hcommitted
  | inr hcancelled =>
    dsimp only at hcancelled ⊢
    rw [hcancelled]
    rfl

theorem broken_ends (hstate : exchange.scope.state.isCommitted = true)
    (diagnostic : RuntimeDiagnostic) (stage : Stage)
    : ∃ outcome reason, outcome ≠ .success
      ∧ Ends exchange.handed { exchange with
          scope := (exchange.scope.fail diagnostic).drainAndClose, stage, disturbed := true }
        outcome reason exchange.handed := by
  have hlive := h.fail diagnostic stage exchange.chain
  refine ⟨_, _, hlive.unsuccessful, hlive.toUnsettled.ends ?_ _ _⟩
  apply RequestState.isCommitted_drains
  obtain ⟨diagnostics, hscope⟩ := @RequestScope.fail_eq exchange.scope diagnostic
  dsimp only
  rw [hscope]
  unfold RequestScope.reported
  dsimp only
  split
  . rfl
  . exact hstate

theorem ended_ends (hstate : exchange.scope.state.isCommitted = true) (stage : Stage)
    : Ends exchange.handed { exchange with scope := exchange.scope.completeSuccess, stage }
        (if exchange.scope.outcome = .pending then .success else exchange.scope.outcome)
        exchange.scope.cancelReason exchange.handed := by
  have hsettled : Unsettled { exchange with scope := exchange.scope.settle .success } exchange.handed := by
    rw [RequestScope.settle_eq]
    exact { h.toUnsettled with }
  have hends := hsettled.ends (by
    rw [RequestScope.settle_eq]
    exact RequestState.isCommitted_drains hstate) stage exchange.disturbed
  unfold RequestScope.completeSuccess
  rw [RequestScope.settle_eq] at hends ⊢
  exact hends

theorem polled_inv (hstate : exchange.scope.state.isCommitted = true)
    (hbody : body.finished = false) (hstage : exchange.stage = .streaming body)
    (hpolled : Polled exchange body ready next)
    : next.Inv := by
  cases hpolled with
  | stopped => exact finished_inv (stopped_ends h hstate _).closed rfl rfl
  | waiting => exact unfinished_inv h hstate hstage hbody
  | trailers _ _ scope hscope body' hfinished =>
    obtain ⟨state, hcommitted, rfl⟩ := hscope
    exact unfinished_inv (h.move (RequestState.isCommitted_isOpen hcommitted) ⟨_, rfl⟩ _ _) hcommitted rfl hfinished
  | data bytes _ _ scope hsize hscope body' hfinished =>
    obtain ⟨state, hcommitted, rfl⟩ := hscope
    refine unfinished_inv ?_ hcommitted rfl hfinished
    rw [h.bytes] at hsize ⊢
    exact { h with isOpen := RequestState.isCommitted_isOpen hcommitted, bytes := rfl, limit := hsize }
  | tooLarge bytes _ _ _ scope _ hscope body' hfinished =>
    obtain ⟨outcome, reason, hends⟩ := tooLarge_ends h hscope (.streaming body')
    exact finished_inv hends.closed rfl hfinished
  | broken _ _ diagnostic =>
    obtain ⟨outcome, reason, -, hends⟩ := broken_ends h hstate diagnostic (.streaming { body with finished := true })
    exact finished_inv hends.closed rfl rfl
  | ended => exact finished_inv (ended_ends h hstate _).closed rfl rfl

theorem dropped_ends (hstate : exchange.scope.state.isCommitted = true) (hbody : body.finished = false)
    : ∃ outcome reason, outcome ≠ .success
      ∧ Ends exchange.handed { exchange with
          scope := (body.drop exchange.scope).2, stage := .gone (some (body.drop exchange.scope).1) }
        outcome reason exchange.handed
      ∧ (body.drop exchange.scope).1.inner = body.inner := by
  have hdrop : body.drop exchange.scope
      = ({ body with finished := true },
        (if exchange.scope.outcome = .pending then exchange.scope.cancel .clientDisconnect
          else exchange.scope).drainAndClose) := by
    unfold ScopedBody.drop ScopedBody.finish
    simp only [hbody, Bool.false_eq_true, if_false]
  rw [hdrop]
  dsimp only
  split
  . next hpending =>
    have hlive := h.cancel .clientDisconnect exchange.stage exchange.chain
    refine ⟨_, _, hlive.unsuccessful, hlive.toUnsettled.ends ?_ _ exchange.disturbed, rfl⟩
    apply RequestState.isCommitted_drains
    cases cancel_state h.isOpen .clientDisconnect with
    | inl hsame =>
      dsimp only
      rw [hsame]
      exact hstate
    | inr hcancelled =>
      dsimp only
      rw [hcancelled]
      rfl
  . next hsettled =>
    exact ⟨_, _, h.unsuccessful, h.toUnsettled.ends (RequestState.isCommitted_drains hstate) _ _, rfl⟩

end

end Polls

theorem Live.not_closed {counted : Nat} (h : exchange.Live counted) : ¬ exchange.Closed := by
  intro hclosed
  exact (RequestState.isOpen_iff.mp h.isOpen).2 hclosed.state

theorem Inv.live_or_closed (h : exchange.Inv) : exchange.Live exchange.handed ∨ exchange.Closed := by
  unfold Inv at h
  split at h
  . split at h
    . exact .inr h
    . exact .inl h.1
  . exact .inr h
  . exact .inl h

-- What a step is: one of others beside the stage, one of the dispatch future, the end of a request that cannot be
-- committed, one that a consumer takes on an unfinished body, or one on a body that has ended.
inductive Stepped (exchange : Exchange) (act : Act) (next : Exchange) : Prop where
  | beside (hnext : Beside exchange next) (hact : act ≠ .drop ∧ ∀ ready, act ≠ .poll ready)
  | dispatched (hlive : exchange.Live exchange.handed) (hopen : next.Live next.handed) (hnext : next.Inv)
      (hstage : ∀ body, exchange.stage ≠ .streaming body)
  | uncommitted (hlive : exchange.Live exchange.handed) (hact : act ≠ .drop ∧ ∀ ready, act ≠ .poll ready)
      (hends : ∃ outcome reason, outcome ≠ .success ∧ Ends exchange.handed next outcome reason exchange.handed)
      (hdisturbed : next.disturbed = true) (hnext : next.Inv)
  | polled (body : ScopedBody) (ready : Bool) (hact : act = .poll ready) (hlive : exchange.Live exchange.handed)
      (hstate : exchange.scope.state.isCommitted = true) (hstage : exchange.stage = .streaming body)
      (hbody : body.finished = false) (hpolled : Polled exchange body ready next)
  | dropped (body : ScopedBody) (hact : act = .drop) (hlive : exchange.Live exchange.handed)
      (hstate : exchange.scope.state.isCommitted = true) (hstage : exchange.stage = .streaming body)
      (hbody : body.finished = false)
      (hnext : next = { exchange with
        scope := (body.drop exchange.scope).2, stage := .gone (some (body.drop exchange.scope).1) })
  | ended (body : ScopedBody) (hclosed : exchange.Closed) (hstage : exchange.stage = .streaming body)
      (hbody : body.finished = true)
      (hnext : next = exchange ∨ next = { exchange with stage := .gone (some body) })

theorem polled_or_ended (h : exchange.Inv) (hstage : exchange.stage = .streaming body) (ready : Bool)
    : Stepped exchange (.poll ready) (exchange.pollBody body ready) := by
  unfold Inv at h
  rw [hstage] at h
  dsimp only at h
  split at h
  . next hbody =>
    have hsame : exchange.pollBody body ready = exchange := by
      unfold pollBody ScopedBody.pollFrame
      rw [if_pos hbody]
      dsimp only
      rw [← hstage]
    exact .ended body h hstage hbody (.inl hsame)
  . next hbody =>
    have hunfinished := Bool.eq_false_of_not_eq_true hbody
    exact .polled body ready rfl h.1 h.2 hstage hunfinished (pollBody_polled hunfinished h.2 hstage)

theorem dropped_or_ended (h : exchange.Inv) (hstage : exchange.stage = .streaming body)
    : Stepped exchange .drop (exchange.dropBody body) := by
  unfold Inv at h
  rw [hstage] at h
  dsimp only at h
  split at h
  . next hbody =>
    have hdrop : body.drop exchange.scope = (body, exchange.scope) := by
      unfold ScopedBody.drop
      rw [if_pos hbody]
    apply Stepped.ended body h hstage hbody (.inr ?_)
    unfold dropBody
    rw [hdrop]
  . next hbody => exact .dropped body rfl h.1 h.2 hstage (Bool.eq_false_of_not_eq_true hbody) rfl

theorem dispatching_live (h : exchange.Inv) {point : Point} (hstage : exchange.stage = .dispatching point)
    : exchange.Live exchange.handed := by
  unfold Inv at h
  rw [hstage] at h
  exact h

theorem committing_live (h : exchange.Inv) {response : Delivery} {terminal : Bool}
    (hstage : exchange.stage = .committing response terminal)
    : exchange.Live exchange.handed := by
  unfold Inv at h
  rw [hstage] at h
  exact h

theorem admitHead_live (h : exchange.Live exchange.handed)
    : exchange.admitHead.Inv ∧ exchange.admitHead.Live exchange.admitHead.handed := by
  unfold admitHead
  cases htransition : exchange.scope.transition .headAdmitted with
  | ok scope =>
    obtain ⟨-, rfl⟩ := RequestScope.transition_eq_ok.mp htransition
    have hlive := @Live.move _ { exchange.scope with state := .headAdmitted } _ h .headAdmitted rfl ⟨_, rfl⟩
      (.dispatching .running) .layers
    exact ⟨hlive, hlive⟩
  | error error =>
    have hlive := (failed_beside lifecycleFailure exchange.chain).live h
    exact ⟨{ hlive with }, { hlive with }⟩

theorem stepped (h : exchange.Inv) {act : Act} (hstep : exchange.step act = some next)
    : Stepped exchange act next := by
  unfold step at hstep
  split at hstep
  . cases hstep
    exact .beside (cancelled_beside _) ⟨nofun, nofun⟩
  . cases hstep
    exact .beside (register_beside _) ⟨nofun, nofun⟩
  . cases hstep
    exact .beside (moveTo_beside rfl (.inl rfl) _) ⟨nofun, nofun⟩
  . cases hstep
    exact .beside (moveTo_beside rfl (.inr (.inl rfl)) _) ⟨nofun, nofun⟩
  . cases hstep
    exact .beside (openData_beside _) ⟨nofun, nofun⟩
  . cases hstep
    exact .beside (moveTo_beside rfl (.inr (.inr rfl)) _) ⟨nofun, nofun⟩
  . cases hstep
  . cases hstep
  . cases hstep
    exact .beside (failed_beside _ _) ⟨nofun, nofun⟩
  . cases hstep
    exact .beside (rejected_beside _) ⟨nofun, nofun⟩
  . next answer hstage =>
    cases hstep
    have hlive := dispatching_live h hstage
    cases admission_refused hlive answer with
    | streaming hnext hinv =>
      refine .dispatched hlive hnext hinv ?_
      intro body hbody
      rw [hstage] at hbody
      cases hbody
    | closed hends hdisturbed hinv => exact .uncommitted hlive ⟨nofun, nofun⟩ hends hdisturbed hinv
  . next hstage =>
    cases hstep
    have hlive := dispatching_live h hstage
    obtain ⟨hinv, hnext⟩ := admitHead_live hlive
    refine .dispatched hlive hnext hinv ?_
    intro body hbody
    rw [hstage] at hbody
    cases hbody
  . next diagnostic hstage =>
    cases hstep
    have hlive := dispatching_live h hstage
    have hnext := (rejected_beside diagnostic).live hlive
    refine .dispatched hlive { hnext with } { hnext with } ?_
    intro body hbody
    rw [hstage] at hbody
    cases hbody
  . cases hstep
  . cases hstep
  . next response _ point _ hstage =>
    cases hstep
    have hlive := dispatching_live h hstage
    refine .dispatched hlive { hlive with } { hlive with } ?_
    intro body hbody
    rw [hstage] at hbody
    cases hbody
  . next response terminal hstage =>
    cases hstep
    have hlive := committing_live h hstage
    have hcommitted := carry_committed hlive response terminal
    generalize exchange.carry (wrapHandlerResponse exchange.scope response terminal) = next at hcommitted ⊢
    cases hcommitted with
    | committed status body hfinished =>
      have hnext := committed_live hlive status (.streaming body)
      refine .dispatched hlive hnext (unfinished_inv hnext rfl rfl hfinished) ?_
      intro body hbody
      rw [hstage] at hbody
      cases hbody
    | closed diagnostic hallowed =>
      have hends := uncommitted_ends hlive hallowed diagnostic
      refine .uncommitted hlive ⟨nofun, nofun⟩ hends rfl ?_
      obtain ⟨_, _, _, hclosed⟩ := hends
      exact hclosed.closed
  . next hstage =>
    cases hstep
    exact polled_or_ended h hstage _
  . cases hstep
  . cases hstep
  . next point _ hstage =>
    cases hstep
    have hlive := dispatching_live h hstage
    refine .dispatched hlive { hlive with } { hlive with } ?_
    intro body hbody
    rw [hstage] at hbody
    cases hbody
  . next hstage =>
    cases hstep
    exact dropped_or_ended h hstage
  . cases hstep

theorem step_inv (h : exchange.Inv) {act : Act} (hstep : exchange.step act = some next) : next.Inv := by
  cases stepped h hstep with
  | beside hnext => exact hnext.inv h
  | dispatched _ _ hnext => exact hnext
  | uncommitted _ _ _ _ hnext => exact hnext
  | polled body ready _ hlive hstate hstage hbody hpolled => exact polled_inv hlive hstate hbody hstage hpolled
  | dropped body _ hlive hstate hstage hbody hnext =>
    obtain ⟨outcome, reason, -, hends, -⟩ := dropped_ends hlive hstate hbody
    rw [hnext]
    exact hends.closed
  | ended body hclosed hstage hbody hnext =>
    cases hnext with
    | inl hsame =>
      rw [hsame]
      exact h
    | inr hgone =>
      rw [hgone]
      exact ⟨hclosed.state, hclosed.completion, hclosed.ran, hclosed.receipt, hclosed.limit⟩

-- What a step does to the stage, which is never offered or abandoned again, and to what has been registered.
structure Moved (exchange : Exchange) (act : Act) (next : Exchange) : Prop where
  internals : exchange.internals ⊆ next.internals
  stage : (next.stage = exchange.stage ∧ act ≠ .drop)
    ∨ (next.stage ≠ .dispatching .offered ∧ exchange.stage ≠ .abandoned
      ∧ (next.stage = .abandoned ↔ act = .drop ∧ ∃ point, exchange.stage = .dispatching point))

theorem moveTo_internals (state : RequestState) (chain : Chain)
    : (exchange.moveTo state chain).internals = exchange.internals := by
  unfold moveTo
  split
  . rfl
  . rfl

theorem openData_internals (result : Except RuntimeDiagnostic Bool)
    : exchange.internals ⊆ (exchange.openData result).internals := by
  unfold openData
  split
  . exact List.Subset.refl _
  . split
    . exact List.subset_cons_self _ _
    . exact List.Subset.refl _

theorem register_internals (cleanup : Cleanup) : (exchange.register cleanup).internals = exchange.internals := by
  unfold register
  split
  . rfl
  . rfl

theorem carry_moved (result : RequestScope × Except ScopeError ScopedBody)
    : (exchange.carry result).internals = exchange.internals
      ∧ ((∃ body, (exchange.carry result).stage = .streaming body) ∨ (exchange.carry result).stage = .gone none) := by
  unfold carry
  split
  . exact ⟨rfl, .inl ⟨_, rfl⟩⟩
  . exact ⟨rfl, .inr rfl⟩

theorem answered_moved (result : Except AdmissionError Unit)
    : (exchange.answered result).internals = exchange.internals
      ∧ (exchange.answered result).stage ≠ .dispatching .offered ∧ (exchange.answered result).stage ≠ .abandoned := by
  have hcarry : ∀ (exchange : Exchange) result, (exchange.carry result).internals = exchange.internals
      ∧ (exchange.carry result).stage ≠ .dispatching .offered ∧ (exchange.carry result).stage ≠ .abandoned := by
    intro exchange result
    obtain ⟨hinternals, ⟨body, hstage⟩ | hstage⟩ := @carry_moved exchange result
    . rw [hstage]
      exact ⟨hinternals, nofun, nofun⟩
    . rw [hstage]
      exact ⟨hinternals, nofun, nofun⟩
  unfold answered
  split
  . exact ⟨rfl, nofun, nofun⟩
  . exact hcarry _ _
  . exact hcarry _ _
  . exact hcarry _ _

theorem admission_moved (answer : Except AdmissionError Unit)
    : exchange.internals ⊆ (exchange.admission answer).internals
      ∧ (exchange.admission answer).stage ≠ .dispatching .offered
      ∧ (exchange.admission answer).stage ≠ .abandoned := by
  unfold admission
  split
  . next scope hregister =>
    obtain ⟨hinternals, hstages⟩ := @answered_moved
      { exchange with scope, internals := .removeRequest :: exchange.internals } answer
    rw [hinternals]
    exact ⟨List.subset_cons_self _ _, hstages⟩
  . next error hregister =>
    obtain ⟨hinternals, hstages⟩ := @answered_moved exchange (.error (.internal error))
    rw [hinternals]
    exact ⟨List.Subset.refl _, hstages⟩

theorem admitHead_moved
    : exchange.admitHead.internals = exchange.internals ∧ exchange.admitHead.stage ≠ .dispatching .offered
      ∧ exchange.admitHead.stage ≠ .abandoned := by
  unfold admitHead
  split
  . exact ⟨rfl, nofun, nofun⟩
  . exact ⟨rfl, nofun, nofun⟩

theorem pollBody_moved (ready : Bool)
    : (exchange.pollBody body ready).internals = exchange.internals
      ∧ ∃ after, (exchange.pollBody body ready).stage = .streaming after := by
  unfold pollBody
  split
  . exact ⟨rfl, _, rfl⟩
  . exact ⟨rfl, _, rfl⟩
  . exact ⟨rfl, _, rfl⟩

theorem Moved.of_stage {act : Act} (hinternals : exchange.internals ⊆ next.internals)
    (hoffered : next.stage ≠ .dispatching .offered) (habandoned : next.stage ≠ .abandoned)
    (hbefore : exchange.stage ≠ .abandoned) (hact : act = .drop → ∀ point, exchange.stage ≠ .dispatching point)
    : Moved exchange act next := by
  refine ⟨hinternals, .inr ⟨hoffered, hbefore, iff_of_false habandoned ?_⟩⟩
  intro hdrop
  obtain ⟨point, hstage⟩ := hdrop.2
  exact hact hdrop.1 point hstage

theorem moved {act : Act} (hstep : exchange.step act = some next) : Moved exchange act next := by
  unfold step at hstep
  split at hstep
  . cases hstep
    exact ⟨List.Subset.refl _, .inl ⟨rfl, nofun⟩⟩
  . cases hstep
    exact ⟨(register_internals _).symm ▸ List.Subset.refl _, .inl ⟨(register_beside _).stage, nofun⟩⟩
  . cases hstep
    exact ⟨(moveTo_internals _ _).symm ▸ List.Subset.refl _, .inl ⟨(moveTo_beside rfl (.inl rfl) _).stage, nofun⟩⟩
  . cases hstep
    exact ⟨(moveTo_internals _ _).symm ▸ List.Subset.refl _, .inl ⟨(moveTo_beside rfl (.inr (.inl rfl)) _).stage, nofun⟩⟩
  . cases hstep
    exact ⟨openData_internals _, .inl ⟨(openData_beside _).stage, nofun⟩⟩
  . cases hstep
    exact ⟨(moveTo_internals _ _).symm ▸ List.Subset.refl _, .inl ⟨(moveTo_beside rfl (.inr (.inr rfl)) _).stage, nofun⟩⟩
  . cases hstep
  . cases hstep
  . cases hstep
    exact ⟨List.Subset.refl _, .inl ⟨rfl, nofun⟩⟩
  . cases hstep
    exact ⟨List.Subset.refl _, .inl ⟨rfl, nofun⟩⟩
  . next answer hstage =>
    cases hstep
    obtain ⟨hinternals, hoffered, habandoned⟩ := @admission_moved exchange answer
    apply Moved.of_stage hinternals hoffered habandoned
    . rw [hstage]
      exact nofun
    . exact nofun
  . next hstage =>
    cases hstep
    obtain ⟨hinternals, hoffered, habandoned⟩ := @admitHead_moved exchange
    apply Moved.of_stage (hinternals ▸ List.Subset.refl _) hoffered habandoned
    . rw [hstage]
      exact nofun
    . exact nofun
  . next hstage =>
    cases hstep
    apply Moved.of_stage
    . exact List.Subset.refl _
    . exact nofun
    . exact nofun
    . rw [hstage]
      exact nofun
    . exact nofun
  . cases hstep
  . cases hstep
  . next hstage =>
    cases hstep
    apply Moved.of_stage
    . exact List.Subset.refl _
    . exact nofun
    . exact nofun
    . rw [hstage]
      exact nofun
    . exact nofun
  . next response terminal hstage =>
    cases hstep
    obtain ⟨hinternals, hcarried⟩ := @carry_moved exchange (wrapHandlerResponse exchange.scope response terminal)
    apply Moved.of_stage (hinternals ▸ List.Subset.refl _)
    . obtain ⟨body, hbody⟩ | hgone := hcarried
      . rw [hbody]
        exact nofun
      . rw [hgone]
        exact nofun
    . obtain ⟨body, hbody⟩ | hgone := hcarried
      . rw [hbody]
        exact nofun
      . rw [hgone]
        exact nofun
    . rw [hstage]
      exact nofun
    . exact nofun
  . next ready body hstage =>
    cases hstep
    obtain ⟨hinternals, after, hafter⟩ := @pollBody_moved exchange body ready
    apply Moved.of_stage (hinternals ▸ List.Subset.refl _)
    . rw [hafter]
      exact nofun
    . rw [hafter]
      exact nofun
    . rw [hstage]
      exact nofun
    . exact nofun
  . cases hstep
  . cases hstep
  . next point _ _ hstage =>
    cases hstep
    refine ⟨List.Subset.refl _, .inr ⟨nofun, ?_, iff_of_true rfl ⟨rfl, point, hstage⟩⟩⟩
    rw [hstage]
    exact nofun
  . next hstage =>
    cases hstep
    apply Moved.of_stage
    . exact List.Subset.refl _
    . exact nofun
    . exact nofun
    . rw [hstage]
      exact nofun
    . intro _ point
      rw [hstage]
      exact nofun
  . cases hstep

theorem Moved.abandoned_iff {act : Act} (h : Moved exchange act next)
    : next.stage = .abandoned
      ↔ exchange.stage = .abandoned ∨ (act = .drop ∧ ∃ point, exchange.stage = .dispatching point) := by
  cases h.stage with
  | inl hsame =>
    rw [hsame.1]
    exact ⟨.inl, fun hcase => hcase.resolve_right fun hdrop => hsame.2 hdrop.1⟩
  | inr hother =>
    rw [hother.2.2]
    exact ⟨.inr, fun hcase => hcase.resolve_left hother.2.1⟩

end Step

end Exchange

end Native

end Pliego
