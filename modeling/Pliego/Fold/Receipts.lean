import Pliego.Fold.Agreement

/-!
The receipts of a drain describe what it added to the log: the events whose enqueues were given the
tickets of the transaction.
-/

namespace Pliego

namespace Fold

variable {S E ι : Type} {T : ι → Type} (sha256 : Sha256) {contract : ProjectionContract S E}
  {initial : S} {schemas : (i : ι) → EventSchema (T i)} {transactions : List (Transaction S ι T)}
  {batch : List (QueuedEvent ι T)}

theorem Linked.continuous {start finish : Log} (h : Linked start transactions finish)
    (hsound : ∀ transaction ∈ transactions, transaction.Sound sha256 contract initial schemas)
    : (transactions.map (fun transaction => transaction.receipt)).IsChain
        (fun earlier later => later.before = earlier.after) := by
  induction transactions generalizing start with
  | nil => exact List.IsChain.nil
  | cons first rest ih =>
    rcases h with ⟨-, hrest⟩
    have hchain := ih hrest
      (fun transaction hmem => hsound transaction (List.mem_cons_of_mem _ hmem))
    cases rest with
    | nil => exact List.IsChain.singleton _
    | cons second rest =>
      rw [List.map_cons, List.map_cons, List.isChain_cons_cons]
      refine ⟨?_, hchain⟩
      have hfirst := (hsound first List.mem_cons_self).after
      have hsecond := (hsound second (List.mem_cons_of_mem _ List.mem_cons_self)).before
      rw [hrest.1] at hsecond
      exact hsecond.unique hfirst

def Carries (schemas : (i : ι) → EventSchema (T i)) (event : Event) (queued : QueuedEvent ι T)
    : Prop :=
  event.kind = (schemas queued.index).kind
    ∧ event.schemaVersion = (schemas queued.index).version
    ∧ (schemas queued.index).serialize queued.payload = .ok event.payload

theorem appendTyped_carries {log longer : Log} {queued : QueuedEvent ι T}
    (h : log.appendTyped sha256 (schemas queued.index) queued.payload = .ok longer)
    : ∃ event, longer.events = log.events ++ [event] ∧ Carries schemas event queued := by
  unfold Log.appendTyped at h
  split at h
  . cases h
  . split at h
    . cases h
    . next canonical hserialize =>
      split at h
      . cases h
      . split at h
        . cases h
        . unfold Log.appendCanonical at h
          repeat' split at h
          any_goals cases h
          exact ⟨_, rfl, rfl, rfl, hserialize⟩

theorem appendBatch_carries {log candidate : Log} (h : appendBatch sha256 schemas none log batch = .ok candidate)
    : ∃ suffix, candidate.events = log.events ++ suffix
        ∧ List.Forall₂ (Carries schemas) suffix batch := by
  induction batch generalizing log with
  | nil =>
    unfold appendBatch at h
    cases h
    exact ⟨[], by simp, .nil⟩
  | cons queued rest ih =>
    unfold appendBatch at h
    dsimp only at h
    split at h
    . cases h
    . next longer hlonger =>
      rcases ih h with ⟨suffix, hsuffix, hcarries⟩
      rcases appendTyped_carries sha256 hlonger with ⟨event, hevent, hfirst⟩
      refine ⟨event :: suffix, ?_, .cons hfirst hcarries⟩
      rw [hsuffix, hevent, List.append_assoc]
      rfl

/--
A scheduler, and the events that got a ticket since its queue was last drained.
-/
structure Issued (S ι : Type) (T : ι → Type) where
  scheduler : CausalScheduler S ι T
  accepted : List (QueuedEvent ι T)

namespace Issued

def startsFrom (sha256 : Sha256) (contract : ProjectionContract S E) (initial : S)
    (issued : Issued S ι T) : Prop :=
  issued.scheduler.startsFrom sha256 contract initial ∧ issued.accepted = []

def enqueue (issued : Issued S ι T) (index : ι) (payload : T index) : Issued S ι T :=
  let enqueued := issued.scheduler.enqueue index payload
  ⟨enqueued.1, issued.accepted ++ CausalCore.ticketed enqueued.2 index payload⟩

def step (sha256 : Sha256) (contract : ProjectionContract S E)
    (schemas : (i : ι) → EventSchema (T i)) (issued : Issued S ι T) (label : SchedulerStep ι T)
    : Option (Issued S ι T) :=
  match label with
  | .enqueue index payload => some (issued.enqueue index payload)
  | .drain context env =>
    some ⟨(issued.scheduler.drain sha256 contract schemas context env).scheduler, []⟩
  | .dispatch index payload context env =>
    match issued.scheduler.dispatch sha256 contract schemas context env index payload with
    | (scheduler, .ok (_, some _)) => some ⟨scheduler, []⟩
    | _ => some (issued.enqueue index payload)
  | .state => some { issued with scheduler := (issued.scheduler.state sha256 contract).1 }

def stepPublishesOutside (sha256 : Sha256) (contract : ProjectionContract S E)
    (schemas : (i : ι) → EventSchema (T i)) (issued : Issued S ι T) (label : SchedulerStep ι T)
    : Prop :=
  StepPublishesOutside sha256 contract schemas issued.scheduler label

end Issued

-- The enqueues that returned a ticket of this transaction, before the drain or in it.
def ticketsOf (accepted : List (QueuedEvent ι T)) (transactions : List (Transaction S ι T)) (id : Nat)
    : List (QueuedEvent ι T) :=
  (accepted ++ transactions.flatMap (fun transaction => transaction.accepted)).filter
    (fun queued => queued.ticket.transaction = id)

/--
What the receipts of one drain say, when it returns and the transaction ids are not exhausted.
-/
def ReceiptsContinuous (schemas : (i : ι) → EventSchema (T i)) (start : Issued S ι T)
    (drained : Drained S ι T) : Prop :=
  (∀ cause, drained.outcome ≠ .unwound cause)
    → (∀ receipts, drained.outcome ≠ .error .transactionIdExhausted receipts)
    → drained.outcome.receipts = drained.transactions.map (fun transaction => transaction.receipt)
      ∧ drained.outcome.receipts.Pairwise
        (fun earlier later => earlier.transactionId < later.transactionId)
      ∧ drained.outcome.receipts.IsChain (fun earlier later => later.before = earlier.after)
      ∧ Linked start.scheduler.log drained.transactions drained.scheduler.log
      ∧ (∀ transaction ∈ drained.transactions,
        transaction.receipt.outcome = .committed
          → transaction.receipt.after.history.position
              = transaction.receipt.before.history.position + transaction.receipt.attemptedEvents
            ∧ transaction.receipt.committedEvents = transaction.receipt.attemptedEvents
            ∧ ∃ suffix, transaction.logAfter.events = transaction.logBefore.events ++ suffix
              ∧ let issued := ticketsOf start.accepted drained.transactions
                  transaction.receipt.transactionId
                transaction.receipt.attemptedEvents = issued.length
                  ∧ Ticketed transaction.receipt.transactionId issued
                  ∧ List.Forall₂ (Carries schemas) suffix issued)
      ∧ (∀ transaction ∈ drained.transactions,
        transaction.receipt.outcome = .rejected
          → transaction.receipt.before = transaction.receipt.after
            ∧ transaction.receipt.committedEvents = 0
            ∧ transaction.logAfter = transaction.logBefore
            ∧ transaction.stableAfter = transaction.stableBefore
            ∧ drained.outcome.receipts.getLast? = some transaction.receipt)
      ∧ (drained.outcome.finished = true
        → start.accepted ++ drained.transactions.flatMap (fun transaction => transaction.accepted)
          = drained.transactions.flatMap (fun transaction => transaction.batch))

variable {sha256} in
theorem Transaction.Sound.position {transaction : Transaction S ι T}
    (h : transaction.Sound sha256 contract initial schemas) (houtcome : transaction.receipt.outcome = .committed)
    : transaction.receipt.after.history.position
        = transaction.receipt.before.history.position + transaction.receipt.attemptedEvents := by
  rcases appendBatch_extends sha256 (h.committed houtcome).2 with ⟨-, suffix, hsuffix, hlength⟩
  rw [h.after.1, h.before.1, h.attempted, ← hlength]
  unfold Log.cursor Log.len
  dsimp only
  rw [hsuffix, List.length_append]

structure Issued.Inv (contract : ProjectionContract S E) (initial : S) (issued : Issued S ι T) : Prop where
  idle : Idle contract initial issued.scheduler
  queue : issued.accepted = issued.scheduler.core.ready

theorem Issued.Inv.enqueue {issued : Issued S ι T} (h : issued.Inv contract initial) (index : ι)
    (payload : T index)
    : (issued.enqueue index payload).Inv contract initial := by
  refine ⟨h.idle.enqueue index payload, ?_⟩
  unfold Issued.enqueue CausalScheduler.enqueue CausalScheduler.withCore
  dsimp only
  rw [h.queue, enqueue_ready h.idle.resting.active]

theorem startsFrom_ready {scheduler : CausalScheduler S ι T}
    (h : scheduler.startsFrom sha256 contract initial)
    : scheduler.core.ready = [] := by
  rcases h with ⟨history, limits, h⟩
  unfold CausalScheduler.fromLog at h
  repeat' split at h
  all_goals cases h
  rfl

theorem Issued.Inv.step {issued after : Issued S ι T} {label : SchedulerStep ι T}
    (h : issued.Inv contract initial) (hguard : issued.stepPublishesOutside sha256 contract schemas label)
    (hstep : issued.step sha256 contract schemas label = some after)
    : after.Inv contract initial := by
  have hidle : ∀ next, issued.scheduler.step sha256 contract schemas label = some next →
      Idle contract initial next := fun _ hnext => h.idle.step sha256 hguard hnext
  unfold CausalScheduler.step at hidle
  unfold Issued.step at hstep
  cases label with
  | enqueue index payload =>
    cases hstep
    exact h.enqueue index payload
  | drain context env =>
    cases hstep
    exact ⟨hidle _ rfl, (h.idle.drain sha256 hguard).ready.symm⟩
  | dispatch index payload context env =>
    dsimp only at hstep hidle
    split at hstep
    . next scheduler ticket drained hdispatch =>
      cases hstep
      rw [hdispatch] at hidle
      refine ⟨hidle _ rfl, ?_⟩
      have hqueued := h.idle.enqueue index payload
      unfold Issued.stepPublishesOutside StepPublishesOutside at hguard
      unfold CausalScheduler.dispatch at hdispatch
      split at hdispatch
      . cases hdispatch
      . next queued _ henqueue =>
        dsimp only at hguard
        rw [henqueue] at hqueued hguard
        dsimp only at hqueued hguard
        rw [hqueued.idle, if_neg Bool.false_ne_true] at hdispatch
        cases hdispatch
        exact (hqueued.drain sha256 hguard).ready.symm
    . cases hstep
      exact h.enqueue index payload
  | state =>
    cases hstep
    refine ⟨hidle _ rfl, ?_⟩
    rw [h.idle.agrees.state sha256]
    exact h.queue

theorem receiptsContinuous_of_publishesOutside (sha256 : Sha256)
    (contract : ProjectionContract S E) (initial : S) (schemas : (i : ι) → EventSchema (T i))
    (issued : Issued S ι T) (context : Nat → Context) (env : Nat → TransactionEnv ι T)
    (hreach : Reach.Under (Issued.startsFrom sha256 contract initial)
      (Issued.step sha256 contract schemas) (Issued.stepPublishesOutside sha256 contract schemas)
      issued)
    (hguard : PublishesOutside sha256 contract schemas issued.scheduler context env)
    : ReceiptsContinuous schemas issued
        (issued.scheduler.drain sha256 contract schemas context env) := by
  have hinv : issued.Inv contract initial := by
    apply hreach.invariant
    . intro start hstart
      refine ⟨Idle.fromLog sha256 hstart.1, ?_⟩
      rw [hstart.2]
      exact (startsFrom_ready sha256 hstart.1).symm
    . exact fun _ _ _ h hguard => h.step sha256 hguard
  have hdrained := hinv.idle.drain sha256 hguard
  rw [← hinv.queue] at hdrained
  rcases hdrained.issues with ⟨left, hissues, hleft⟩
  intro hreturns hids
  have hreceipts := hdrained.receipts hreturns hids
  have htrace := hdrained.trace
  refine ⟨hreceipts, ?_, ?_, htrace.linked, ?_, ?_, ?_⟩
  . rw [hreceipts, List.pairwise_map]
    exact htrace.increasing
  . rw [hreceipts]
    exact htrace.linked.continuous sha256 htrace.sound
  . intro transaction hmem houtcome
    have hsound := htrace.sound transaction hmem
    have hcommitted := hsound.committed houtcome
    have hbatch : ticketsOf issued.accepted _ _ = transaction.batch :=
      hissues.filter_batch sha256 hmem htrace.sound htrace.increasing
    rcases appendBatch_carries sha256 hcommitted.2 with ⟨suffix, hsuffix, hcarries⟩
    refine ⟨hsound.position houtcome, ?_, suffix, hsuffix, ?_⟩
    . rw [hcommitted.1, hsound.attempted]
    . rw [hbatch]
      exact ⟨hsound.attempted, hsound.tickets, hcarries⟩
  . intro transaction hmem houtcome
    have hsound := htrace.sound transaction hmem
    rcases hsound.rejected houtcome with ⟨hnone, hsame, hlog, hstable⟩
    refine ⟨hsame, hnone, hlog, hstable, ?_⟩
    -- a transaction before the last one would have been committed
    have hne := List.ne_nil_of_mem hmem
    have hlast : transaction
        = (issued.scheduler.drain sha256 contract schemas context env).transactions.getLast hne := by
      rw [← List.dropLast_append_getLast hne] at hmem
      rcases List.mem_append.mp hmem with hearlier | hlast
      . have := htrace.lastRejects transaction hearlier
        rw [houtcome] at this
        cases this
      . exact List.mem_singleton.mp hlast
    rw [hreceipts, List.getLast?_map, List.getLast?_eq_some_getLast hne, ← hlast]
    rfl
  . intro hfinished
    rw [hissues.order, hleft hfinished, List.append_nil]

/--
The same event, queued and then drained from inside a tracking computation: the receipt says that
it was committed, and the log does not have it.
-/
theorem drain_inside_computation_breaks_receipts
    : ∃ issued : Issued Nat Unit (fun _ => Unit),
        Reach.Any (Issued.startsFrom sha256Digest Replica.noteContract 0)
            (Issued.step sha256Digest Replica.noteContract (fun _ => Replica.noteSchema)) issued
          ∧ ¬ ReceiptsContinuous (fun _ => Replica.noteSchema) issued
            (issued.scheduler.drain sha256Digest Replica.noteContract (fun _ => Replica.noteSchema)
              (fun _ => ⟨true, false⟩) noteEnv) := by
  have hrun : noteScheduler.toOption.any (fun scheduler =>
      let drained := (scheduler.enqueue () ()).1.drain sha256Digest Replica.noteContract
        (fun _ => Replica.noteSchema) (fun _ => ⟨true, false⟩) noteEnv
      drained.outcome.kind? == some (.effectPanicked 1)
        && drained.transactions.any fun transaction =>
          transaction.receipt.outcome == .committed && transaction.receipt.attemptedEvents == 1
            && transaction.logBefore.len == 0 && transaction.logAfter.len == 0) = true := by
    decide +kernel
  cases hstart : noteScheduler with
  | error kind =>
    rw [hstart] at hrun
    cases hrun
  | ok scheduler =>
    have hfrom : scheduler.startsFrom sha256Digest Replica.noteContract 0 := ⟨_, _, hstart⟩
    rw [hstart] at hrun
    refine ⟨Issued.enqueue ⟨scheduler, []⟩ () (),
      .step (.init ⟨hfrom, rfl⟩) trivial (a := .enqueue () ()) rfl, ?_⟩
    intro hcontinuous
    unfold Issued.enqueue at hcontinuous
    dsimp only [Except.toOption, Option.any_some] at hcontinuous hrun
    generalize (scheduler.enqueue () ()).1.drain sha256Digest Replica.noteContract
      (fun _ => Replica.noteSchema) (fun _ => ⟨true, false⟩) noteEnv = drained at hrun hcontinuous
    rw [Bool.and_eq_true, List.any_eq_true] at hrun
    obtain ⟨hkind, transaction, hmem, hfacts⟩ := hrun
    simp only [Bool.and_eq_true, beq_iff_eq] at hkind hfacts
    obtain ⟨⟨⟨houtcome, hattempted⟩, hbefore⟩, hafter⟩ := hfacts
    have hreturns : ∀ cause, drained.outcome ≠ .unwound cause := by
      intro cause hcause
      rw [hcause] at hkind
      cases hkind
    have hids : ∀ receipts, drained.outcome ≠ .error .transactionIdExhausted receipts := by
      intro receipts hexhausted
      rw [hexhausted] at hkind
      cases hkind
    rcases hcontinuous hreturns hids with ⟨-, -, -, -, hcommitted, -⟩
    rcases hcommitted transaction hmem houtcome with ⟨-, -, suffix, hsuffix, hlength, -, hcarries⟩
    have hsame := hcarries.length_eq
    unfold Log.len at hbefore hafter
    rw [hsuffix, List.length_append] at hafter
    omega

-- An event enqueued before the drain and one that its transaction enqueues: two transactions.
theorem drain_outside_receipts
    : ∃ issued : Issued Nat Unit (fun _ => Unit),
        let drained := issued.scheduler.drain sha256Digest Replica.noteContract
          (fun _ => Replica.noteSchema) outside chainedEnv
        issued.accepted.length = 1
          ∧ drained.transactions.map (fun transaction => transaction.accepted.length) = [1, 0]
          ∧ ReceiptsContinuous (fun _ => Replica.noteSchema) issued drained := by
  have hrun : noteScheduler.toOption.any (fun scheduler =>
      let issued := Issued.enqueue ⟨scheduler, []⟩ () ()
      let drained := issued.scheduler.drain sha256Digest Replica.noteContract
        (fun _ => Replica.noteSchema) outside chainedEnv
      issued.accepted.length == 1
        && drained.transactions.map (fun transaction => transaction.accepted.length) == [1, 0]) = true := by
    decide +kernel
  cases hstart : noteScheduler with
  | error kind =>
    rw [hstart] at hrun
    cases hrun
  | ok scheduler =>
    have hfrom : scheduler.startsFrom sha256Digest Replica.noteContract 0 := ⟨_, _, hstart⟩
    rw [hstart] at hrun
    obtain ⟨haccepted, htransactions⟩ := (Bool.and_eq_true _ _).mp hrun
    refine ⟨_, eq_of_beq haccepted, eq_of_beq htransactions, ?_⟩
    exact receiptsContinuous_of_publishesOutside sha256Digest Replica.noteContract 0
      (fun _ => Replica.noteSchema) _ outside chainedEnv
      (.step (.init ⟨hfrom, rfl⟩) trivial (a := .enqueue () ()) rfl)
      (LoopPublishesOutside.of_allowed _ (fun _ => rfl) _ _ _)

end Fold

end Pliego
