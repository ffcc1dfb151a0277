import Pliego.Native.Lifecycle

/-!
What the receipt of a request says about the delivery of its body, over every run of a request and its consumer.
-/

namespace Pliego

namespace Native

namespace Exchange

structure Truthful (exchange : Exchange) (receipt : RuntimeReceipt) : Prop where
  success : (receipt.outcome = .success ∧ receipt.cancelReason = none)
    ↔ (exchange.disturbed = false ∧ exchange.delivered = true)
  bytes : receipt.responseBytes = exchange.handed
  limit : receipt.responseBytes ≤ exchange.scope.limits.maxResponseBytes

-- What is left out: a drop of a body whose frames have all been handed over, before it was polled for its end, and
-- a poll that meets a frame for which there is no room.
def honest (exchange : Exchange) (act : Act) : Bool :=
  match act, exchange.stage with
  | .drop, .streaming body => body.finished || exchange.disturbed || !exchange.delivered
  | .poll true, .streaming body =>
    body.finished || (!body.allowCancelled && exchange.scope.cancellation) ||
      match body.inner.items body.inner.position with
      | some (.frame (.data bytes)) => exchange.handed + bytes ≤ exchange.scope.limits.maxResponseBytes
      | _ => true
  | _, _ => true

section Ended

variable {exchange next : Exchange}

-- What a closed request still does not change.
structure Settled (exchange next : Exchange) : Prop where
  receipts : next.scope.receipts = exchange.scope.receipts
  disturbed : next.disturbed = exchange.disturbed
  delivered : next.delivered = exchange.delivered
  handed : next.handed = exchange.handed

theorem delivered_of_stage (h : next.stage = exchange.stage) : next.delivered = exchange.delivered := by
  unfold delivered
  rw [h]

theorem honest_of_other {act : Act} (h : act ≠ .drop ∧ ∀ ready, act ≠ .poll ready)
    : exchange.honest act = true := by
  unfold honest
  split
  . exact absurd rfl h.1
  . exact absurd rfl (h.2 true)
  . rfl

theorem honest_of_dispatching {act : Act} (h : ∀ body, exchange.stage ≠ .streaming body)
    : exchange.honest act = true := by
  unfold honest
  split
  . next hstage => exact absurd hstage (h _)
  . next hstage => exact absurd hstage (h _)
  . rfl

theorem honest_of_finished {act : Act} {body : ScopedBody} (hstage : exchange.stage = .streaming body)
    (hbody : body.finished = true)
    : exchange.honest act = true := by
  unfold honest
  rw [hstage]
  split
  . next hsame =>
    cases hsame
    rw [hbody]
    rfl
  . next hsame =>
    cases hsame
    rw [hbody]
    rfl
  . rfl

theorem step_settled (h : exchange.Inv) (hclosed : exchange.Closed) {act : Act} (hstep : exchange.step act = some next)
    : next.Closed ∧ Settled exchange next ∧ exchange.honest act = true := by
  cases stepped h hstep with
  | beside hnext hact =>
    obtain ⟨hafter, hreceipts, hdisturbed⟩ := hnext.closed hclosed
    exact ⟨hafter, ⟨hreceipts, hdisturbed, delivered_of_stage hnext.stage, hnext.handed⟩, honest_of_other hact⟩
  | dispatched hlive => exact absurd hclosed hlive.not_closed
  | uncommitted hlive => exact absurd hclosed hlive.not_closed
  | polled _ _ _ hlive => exact absurd hclosed hlive.not_closed
  | dropped _ _ hlive => exact absurd hclosed hlive.not_closed
  | ended body _ hstage hbody hnext =>
    refine ⟨?_, ?_, honest_of_finished hstage hbody⟩
    . cases hnext with
      | inl hsame =>
        rw [hsame]
        exact hclosed
      | inr hgone =>
        rw [hgone]
        exact ⟨hclosed.state, hclosed.completion, hclosed.ran, hclosed.receipt, hclosed.limit⟩
    . cases hnext with
      | inl hsame =>
        rw [hsame]
        exact ⟨rfl, rfl, rfl, rfl⟩
      | inr hgone =>
        rw [hgone]
        refine ⟨rfl, rfl, ?_, rfl⟩
        unfold delivered
        rw [hstage]

end Ended

section Truth

variable {exchange next : Exchange} {outcome : RequestOutcome} {reason : Option CancelReason} {counted : Nat}

-- The step that closes a request decides whether its receipt is true.
structure Decides (exchange : Exchange) (act : Act) (next : Exchange) : Prop where
  closed : next.Closed
  truthful : ∀ receipt ∈ next.scope.receipts, next.Truthful receipt ↔ exchange.honest act = true

theorem Ends.truthful_iff {handed : Nat} (h : Ends handed next outcome reason counted)
    : ∀ receipt ∈ next.scope.receipts, next.Truthful receipt
      ↔ ((outcome = .success ∧ reason = none) ↔ (next.disturbed = false ∧ next.delivered = true))
        ∧ counted = handed := by
  obtain ⟨recorded, hreceipts, rfl, rfl, rfl⟩ := h.receipt
  intro receipt hreceipt
  rw [hreceipts, List.mem_singleton] at hreceipt
  subst hreceipt
  constructor
  . intro htrue
    exact ⟨htrue.success, htrue.bytes.trans h.handed⟩
  . intro hsame
    refine ⟨hsame.1, hsame.2.trans h.handed.symm, ?_⟩
    rw [hsame.2, ← h.handed]
    exact h.closed.limit

theorem Ends.decides {act : Act} (h : Ends exchange.handed next outcome reason counted)
    (houtcome : outcome ≠ .success)
    (hfalse : next.disturbed = true ∨ next.delivered = false) (hcounted : counted = exchange.handed)
    (hhonest : exchange.honest act = true)
    : Decides exchange act next := by
  refine ⟨h.closed, ?_⟩
  intro receipt hreceipt
  rw [h.truthful_iff receipt hreceipt, hhonest]
  refine iff_of_true ⟨iff_of_false (fun hsuccess => houtcome hsuccess.1) ?_, hcounted⟩ rfl
  intro htrue
  cases hfalse with
  | inl hdisturbed =>
    rw [htrue.1] at hdisturbed
    cases hdisturbed
  | inr hdelivered =>
    rw [htrue.2] at hdelivered
    cases hdelivered

theorem dropped_decides {body : ScopedBody} (h : exchange.Live exchange.handed)
    (hstate : exchange.scope.state.isCommitted = true) (hstage : exchange.stage = .streaming body)
    (hbody : body.finished = false)
    : Decides exchange .drop { exchange with
        scope := (body.drop exchange.scope).2, stage := .gone (some (body.drop exchange.scope).1) } := by
  obtain ⟨outcome, reason, houtcome, hends, hinner⟩ := dropped_ends h hstate hbody
  have hdelivered : delivered { exchange with
      scope := (body.drop exchange.scope).2, stage := .gone (some (body.drop exchange.scope).1) }
      = exchange.delivered := by
    unfold delivered
    rw [hstage]
    dsimp only
    rw [hinner]
  refine ⟨hends.closed, ?_⟩
  intro receipt hreceipt
  rw [hends.truthful_iff receipt hreceipt, hdelivered]
  unfold honest
  rw [hstage]
  simp [hbody, houtcome, imp_iff_not_or]

theorem polled_decides {body : ScopedBody} {ready : Bool} (h : exchange.Live exchange.handed)
    (hstate : exchange.scope.state.isCommitted = true) (hstage : exchange.stage = .streaming body)
    (hbody : body.finished = false) (hpolled : Polled exchange body ready next)
    : (next.Live next.handed ∧ exchange.honest (.poll ready) = true) ∨ Decides exchange (.poll ready) next := by
  have hother : (!body.allowCancelled && exchange.scope.cancellation) = true
      ∨ (∀ bytes, body.inner.items body.inner.position ≠ some (.frame (.data bytes))) →
      exchange.honest (.poll ready) = true := by
    intro hcase
    unfold honest
    rw [hstage]
    cases ready with
    | false => rfl
    | true =>
      cases hcase with
      | inl hcancelled =>
        dsimp only
        rw [hcancelled, Bool.or_true, Bool.true_or]
      | inr hitem =>
        dsimp only
        split
        . next bytes hsome => exact absurd hsome (hitem bytes)
        . exact Bool.or_true _
  cases hpolled with
  | stopped hcancelled =>
    right
    have hcancellation : exchange.scope.cancellation = true := by
      rw [Bool.and_eq_true] at hcancelled
      exact hcancelled.2
    exact (stopped_ends h hstate _).decides h.unsuccessful (.inl rfl) rfl (hother (.inl hcancelled))
  | waiting hready =>
    left
    refine ⟨h, ?_⟩
    subst hready
    unfold honest
    rw [hstage]
  | trailers hcancelled hitem scope hscope body' hfinished =>
    left
    obtain ⟨state, hcommitted, rfl⟩ := hscope
    refine ⟨h.move (RequestState.isCommitted_isOpen hcommitted) ⟨_, rfl⟩ _ _, hother (.inr ?_)⟩
    intro bytes hsame
    rw [hitem] at hsame
    cases hsame
  | data bytes hcancelled hitem scope hsize hscope body' hfinished =>
    left
    obtain ⟨state, hcommitted, rfl⟩ := hscope
    rw [h.bytes] at hsize ⊢
    refine ⟨{ h with isOpen := RequestState.isCommitted_isOpen hcommitted, bytes := rfl, limit := hsize }, ?_⟩
    unfold honest
    rw [hstage]
    cases ready with
    | false => rfl
    | true =>
      dsimp only
      rw [hitem]
      simp [hsize]
  | tooLarge bytes hready hcancelled hitem scope hsize hscope body' hfinished =>
    right
    obtain ⟨outcome, reason, hends⟩ := tooLarge_ends h hscope (.streaming body')
    refine ⟨hends.closed, ?_⟩
    intro receipt hreceipt
    rw [hends.truthful_iff receipt hreceipt]
    rw [h.bytes] at hsize
    have hlimit := h.limit
    apply iff_of_false
    . intro hsame
      omega
    . subst hready
      unfold honest
      rw [hstage]
      dsimp only
      rw [hitem, hbody, hcancelled]
      simp [hsize]
  | broken hcancelled hitem diagnostic =>
    right
    obtain ⟨outcome, reason, houtcome, hends⟩ := broken_ends h hstate diagnostic
      (.streaming { body with finished := true })
    refine hends.decides houtcome (.inl rfl) rfl (hother (.inr ?_))
    intro bytes hsame
    rw [hitem] at hsame
    cases hsame
  | ended hcancelled hitem =>
    right
    have hends := ended_ends h hstate (.streaming { body with finished := true })
    refine ⟨hends.closed, ?_⟩
    intro receipt hreceipt
    rw [hends.truthful_iff receipt hreceipt]
    have hdelivered : delivered { exchange with
        scope := exchange.scope.completeSuccess, stage := .streaming { body with finished := true } } = true := by
      unfold delivered
      dsimp only
      rw [hitem]
      rfl
    rw [hdelivered, hother (.inr (by rw [hitem]; exact nofun))]
    refine iff_of_true ⟨?_, rfl⟩ rfl
    have hpending := h.pending
    have hreason := h.reason
    have hunsuccessful := h.unsuccessful
    dsimp only
    split
    . next hsame =>
      have hcalm := hpending.mp hsame
      rw [hcalm] at hreason ⊢
      cases hcancel : exchange.scope.cancelReason with
      | none => simp
      | some reason =>
        rw [hcancel] at hreason
        cases hreason rfl
    . next hsettled =>
      apply iff_of_false
      . exact fun hsuccess => hunsuccessful hsuccess.1
      . exact fun hcalm => hsettled (hpending.mpr hcalm.1)

theorem step_decides (h : exchange.Inv) (hlive : exchange.Live exchange.handed) {act : Act}
    (hstep : exchange.step act = some next)
    : (next.Live next.handed ∧ exchange.honest act = true) ∨ Decides exchange act next := by
  cases stepped h hstep with
  | beside hnext hact => exact .inl ⟨hnext.live hlive, honest_of_other hact⟩
  | dispatched _ hopen _ hstage => exact .inl ⟨hopen, honest_of_dispatching hstage⟩
  | uncommitted _ hact hends hdisturbed =>
    obtain ⟨outcome, reason, houtcome, hclosed⟩ := hends
    exact .inr (hclosed.decides houtcome (.inl hdisturbed) rfl (honest_of_other hact))
  | polled body ready hact _ hstate hstage hbody hpolled =>
    subst hact
    exact polled_decides hlive hstate hstage hbody hpolled
  | dropped body hact _ hstate hstage hbody hnext =>
    subst hact hnext
    exact .inr (dropped_decides hlive hstate hstage hbody)
  | ended _ hclosed => exact absurd hclosed hlive.not_closed

theorem Settled.truthful (h : Settled exchange next) (hclosed : exchange.Closed) (hafter : next.Closed)
    (receipt : RuntimeReceipt)
    : next.Truthful receipt ↔ exchange.Truthful receipt := by
  constructor
  . intro htrue
    have hbytes := htrue.bytes.trans h.handed
    refine ⟨?_, hbytes, ?_⟩
    . rw [← h.disturbed, ← h.delivered]
      exact htrue.success
    . rw [hbytes]
      exact hclosed.limit
  . intro htrue
    have hbytes := htrue.bytes.trans h.handed.symm
    refine ⟨?_, hbytes, ?_⟩
    . rw [h.disturbed, h.delivered]
      exact htrue.success
    . rw [hbytes]
      exact hafter.limit

theorem step_truthful (h : exchange.Inv) {act : Act} (hstep : exchange.step act = some next)
    : next.Inv ∧ ((∀ receipt ∈ next.scope.receipts, next.Truthful receipt)
      ↔ (∀ receipt ∈ exchange.scope.receipts, exchange.Truthful receipt) ∧ exchange.honest act = true) := by
  refine ⟨step_inv h hstep, ?_⟩
  cases h.live_or_closed with
  | inl hlive =>
    rw [hlive.receipts]
    have hnone : ∀ receipt ∈ ([] : List RuntimeReceipt), exchange.Truthful receipt := nofun
    rw [and_iff_right hnone]
    cases step_decides h hlive hstep with
    | inl hopen =>
      rw [hopen.1.receipts]
      exact iff_of_true nofun hopen.2
    | inr hdecides =>
      obtain ⟨receipt, hreceipts, -⟩ := hdecides.closed.receipt
      have hmem : receipt ∈ next.scope.receipts := by
        rw [hreceipts]
        exact List.mem_singleton_self _
      constructor
      . exact fun hall => (hdecides.truthful receipt hmem).mp (hall receipt hmem)
      . exact fun hhonest recorded hrecorded => (hdecides.truthful recorded hrecorded).mpr hhonest
  | inr hclosed =>
    obtain ⟨hafter, hsettled, hhonest⟩ := step_settled h hclosed hstep
    rw [hsettled.receipts, and_iff_left hhonest]
    apply forall₂_congr
    intro receipt _
    exact hsettled.truthful hclosed hafter receipt

theorem Inv.limit (h : exchange.Inv) : exchange.handed ≤ exchange.scope.limits.maxResponseBytes := by
  unfold Inv at h
  split at h
  . split at h
    . exact h.limit
    . exact h.1.limit
  . exact h.limit
  . exact h.limit

/-- Over every run the bytes handed over stay within the limit, and the receipt tells the truth exactly when every
step of the run was honest. -/
theorem receipt_truthful_iff (requestId : Nat) (limits : RequestLimits) (acts : List Act)
    (hrun : Reach.exec step (arrive requestId limits) acts = some next)
    : next.handed ≤ next.scope.limits.maxResponseBytes
      ∧ ((∀ receipt ∈ next.scope.receipts, next.Truthful receipt)
        ↔ Reach.execWhen step honest (arrive requestId limits) acts = some next) := by
  have hinv : (arrive requestId limits).Inv := arrive_live requestId limits
  constructor
  . exact (Reach.exec_invariant (fun _ _ _ h hstep => step_inv h hstep) hinv hrun).limit
  . rw [Reach.exec_iff_execWhen (fun _ _ _ h hstep => step_truthful h hstep) hinv hrun]
    apply and_iff_right
    intro receipt hreceipt
    cases hreceipt

def smallLimits : RequestLimits := ⟨16, 8, 4, 1⟩

def greeting : List Act :=
  [.admission (.ok ()), .admitHead, .route, .openScope, .openData (.ok false), .runHandler, .respond ⟨200, .text 5⟩,
    .commit]

-- A consumer that polls for the end.
theorem receipt_truthful_iff_greeting
    : ∃ next, Reach.exec step (arrive 0 smallLimits) (greeting ++ [.poll true, .poll true]) = some next
      ∧ ∃ receipt ∈ next.scope.receipts, next.Truthful receipt := by
  have hrun : (Reach.execWhen step honest (arrive 0 smallLimits) (greeting ++ [.poll true, .poll true])).any
      (fun next => next.scope.receipts.length = 1) = true := by
    decide
  obtain ⟨next, hwhen, hlength⟩ := (Option.any_eq_true _ _).mp hrun
  have hexec := Reach.exec_of_execWhen hwhen
  obtain ⟨receipt, hreceipts⟩ := List.length_eq_one_iff.mp (of_decide_eq_true hlength)
  have hmem : receipt ∈ next.scope.receipts := by
    rw [hreceipts]
    exact List.mem_singleton_self _
  exact ⟨next, hexec, receipt, hmem, (receipt_truthful_iff 0 smallLimits _ hexec).2.mpr hwhen receipt hmem⟩

-- A consumer that stops where the body announces its end: the receipt speaks of a client that went away.
theorem announced_end_untruthful
    : ∃ whole body next receipt,
        Reach.exec step (arrive 0 smallLimits) (greeting ++ [.poll true]) = some whole
      ∧ whole.stage = .streaming body ∧ body.isEndStream = true ∧ whole.step .drop = some next
      ∧ next.scope.receipts = [receipt] ∧ receipt.cancelReason = some .clientDisconnect ∧ ¬ next.Truthful receipt := by
  refine ⟨_, _, _, _, rfl, rfl, rfl, rfl, rfl, rfl, ?_⟩
  intro htrue
  cases (htrue.success.mpr ⟨rfl, rfl⟩).1

end Truth

end Exchange

end Native

end Pliego
