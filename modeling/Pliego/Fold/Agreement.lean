import Pliego.Fold.Replay
import Pliego.Fold.Scheduler

/-!
The projection of a causal scheduler and the log it publishes agree between transactions.
-/

namespace Pliego

namespace Fold

variable {S E ι : Type} {T : ι → Type} (sha256 : Sha256) {contract : ProjectionContract S E}
  {initial : S} {schemas : (i : ι) → EventSchema (T i)}

/--
The scheduler between two transactions.
-/
structure Agrees (contract : ProjectionContract S E) (initial : S)
    (scheduler : CausalScheduler S ι T) : Prop where
  on : scheduler.projection.On contract Eq initial scheduler.log
  head : scheduler.projection.stable.history = scheduler.log.cursor
  memo : ∀ read, scheduler.projection.memo = some read → read = ⟨scheduler.log.cursor, none⟩

def IsPoint (sha256 : Sha256) (contract : ProjectionContract S E) (initial : S) (log : Log)
    (point : ProjectionPoint) : Prop :=
  point.history = log.cursor
    ∧ ∃ snapshot, replaySnapshot sha256 contract initial log = .ok snapshot
      ∧ point.stateRoot = StateRoot.fromSnapshot sha256 snapshot

variable {sha256} in
theorem IsPoint.unique {log : Log} {left right : ProjectionPoint}
    (hleft : IsPoint sha256 contract initial log left) (hright : IsPoint sha256 contract initial log right)
    : left = right := by
  rcases hleft with ⟨hhistory, snapshot, hsnapshot, hroot⟩
  rcases hright with ⟨hhistory', snapshot', hsnapshot', hroot'⟩
  rw [hsnapshot] at hsnapshot'
  cases hsnapshot'
  cases left
  cases right
  simp_all

theorem synchronize_of_head {log : Log} {stable : Stable S} (h : stable.At contract Eq initial log)
    (hhead : stable.history = log.cursor)
    : synchronize sha256 contract log stable = (stable, .ok log.cursor) := by
  unfold synchronize
  dsimp only
  rw [h.tail]
  simp [hhead]

section Reads

variable {log : Log} {projection : Projection S} (hon : projection.On contract Eq initial log)
  (hhead : projection.stable.history = log.cursor)
  (hmemo : ∀ read, projection.memo = some read → read = ⟨log.cursor, none⟩)

include hon hhead hmemo

theorem memoGet_of_head
    : projection.memoGet sha256 contract log
        = (⟨some ⟨log.cursor, none⟩, projection.stable⟩, ⟨log.cursor, none⟩) := by
  unfold Projection.memoGet
  cases hread : projection.memo with
  | none =>
    dsimp only
    rw [synchronize_of_head sha256 hon.stable hhead]
  | some read =>
    have := hmemo read hread
    subst this
    cases projection
    simp_all

theorem settle_of_head
    : projection.settle sha256 contract log
        = (⟨some ⟨log.cursor, none⟩, projection.stable⟩, .ok ()) := by
  unfold Projection.settle
  rw [memoGet_of_head sha256 hon hhead hmemo]
  simp [hhead]

theorem stateRoot_of_head
    : ∃ snapshot,
        replaySnapshot sha256 contract initial log = .ok snapshot
          ∧ projection.stateRoot sha256 contract log
              = (⟨some ⟨log.cursor, none⟩, projection.stable⟩,
                .ok (StateRoot.fromSnapshot sha256 snapshot)) := by
  have hencode := (canonicalStateBytes_eq_ok hon.stable.bytes).1
  have hbound : projection.stable.stateBytes.length ≤ maxCanonicalStateBytes := by
    unfold codecEncode at hencode
    split at hencode
    . cases hencode
    . cases hencode
    . split at hencode
      . cases hencode
      . next hle =>
        cases hencode
        omega
  have hsnapshot : ∃ snapshot,
      createSnapshot sha256 contract log.cursor projection.stable.stateBytes = .ok snapshot := by
    unfold createSnapshot ProjectionSnapshot.create
    have hnot : ¬ projection.stable.stateBytes.length > maxCanonicalStateBytes := by omega
    simp [hnot]
  rcases hsnapshot with ⟨snapshot, hsnapshot⟩
  refine ⟨snapshot, ?_, ?_⟩
  . unfold replaySnapshot
    rw [folds_eq.mp (hon.folds hhead)]
    dsimp only
    rw [hencode]
    exact hsnapshot
  . unfold Projection.stateRoot Projection.snapshot
    rw [settle_of_head sha256 hon hhead hmemo]
    dsimp only
    rw [hhead, hsnapshot]

end Reads

variable {scheduler : CausalScheduler S ι T}

def settled (scheduler : CausalScheduler S ι T) : CausalScheduler S ι T :=
  {
    scheduler with
    projection := ⟨some ⟨scheduler.log.cursor, none⟩, scheduler.projection.stable⟩
  }

section

variable (h : Agrees contract initial scheduler)

include h

theorem Agrees.settled
    : Agrees contract initial (settled scheduler) := by
  refine ⟨⟨h.on.stable, ?_⟩, h.head, ?_⟩
  . intro history hread
    cases hread
    exact ⟨rfl, h.head⟩
  . intro read hread
    cases hread
    rfl

theorem Agrees.withCore (core : CausalCore ι T)
    : Agrees contract initial (scheduler.withCore core) :=
  ⟨h.on, h.head, h.memo⟩

theorem Agrees.currentPoint
    : ∃ point, IsPoint sha256 contract initial scheduler.log point
        ∧ scheduler.currentPoint sha256 contract = (Fold.settled scheduler, .ok point) := by
  have hread := h.settled
  rcases stateRoot_of_head sha256 hread.on hread.head hread.memo with ⟨snapshot, hsnapshot, hroot⟩
  refine ⟨⟨scheduler.log.cursor, StateRoot.fromSnapshot sha256 snapshot⟩,
    ⟨rfl, snapshot, hsnapshot, rfl⟩, ?_⟩
  unfold CausalScheduler.currentPoint Projection.history
  rw [settle_of_head sha256 h.on h.head h.memo]
  dsimp only
  unfold Fold.settled at hroot
  dsimp only at hroot
  rw [hroot, h.head]
  rfl

theorem Agrees.state
    : scheduler.state sha256 contract
        = (Fold.settled scheduler, .ok scheduler.projection.stable.state) := by
  unfold CausalScheduler.state Projection.tryGet
  rw [settle_of_head sha256 h.on h.head h.memo]
  rfl

end

section Queues

def Ticketed (id : Nat) (queue : List (QueuedEvent ι T)) : Prop :=
  queue.map (fun queued => queued.ticket)
    = (List.range queue.length).map (fun ordinal => ⟨id, ordinal + 1⟩)

theorem Ticketed.push {id : Nat} {queue : List (QueuedEvent ι T)} (h : Ticketed id queue) (i : ι) (payload : T i)
    : Ticketed id (queue ++ [⟨⟨id, queue.length + 1⟩, i, payload⟩]) := by
  unfold Ticketed at h ⊢
  simp [h, List.range_succ]

structure Queues (core : CausalCore ι T) : Prop where
  idle : core.active = none → core.deferred = [] ∧ Ticketed core.nextTransaction core.ready
  active : ∀ id, core.active = some id
    → core.nextTransaction = id + 1 ∧ Ticketed core.nextTransaction core.deferred

variable {core : CausalCore ι T}

theorem Queues.enqueue (h : Queues core) (limits : CausalLimits) (i : ι) (payload : T i)
    : Queues (core.enqueue limits i payload).1
        ∧ (core.enqueue limits i payload).1.active = core.active
        ∧ (core.enqueue limits i payload).1.draining = core.draining
        ∧ (core.enqueue limits i payload).1.nextTransaction = core.nextTransaction := by
  unfold CausalCore.enqueue
  cases hactive : core.active with
  | none =>
    dsimp only
    rcases h.idle hactive with ⟨hdeferred, hready⟩
    split
    . exact ⟨h, hactive, rfl, rfl⟩
    . refine ⟨⟨?_, ?_⟩, rfl, rfl, rfl⟩
      . intro _
        exact ⟨hdeferred, hready.push i payload⟩
      . intro id hid
        cases hid
  | some active =>
    dsimp only
    rcases h.active active hactive with ⟨hnext, hdeferred⟩
    split
    . exact ⟨h, hactive, rfl, rfl⟩
    . split
      . exact ⟨h, hactive, rfl, rfl⟩
      . refine ⟨⟨?_, ?_⟩, rfl, rfl, rfl⟩
        . intro hnone
          cases hnone
        . intro id hid
          cases hid
          dsimp only
          refine ⟨hnext, ?_⟩
          have := hdeferred.push i payload
          rw [hnext] at this ⊢
          exact this

theorem Queues.enqueueAll (h : Queues core) (limits : CausalLimits) (events : List ((i : ι) × T i))
    : Queues (core.enqueueAll limits events)
        ∧ (core.enqueueAll limits events).active = core.active
        ∧ (core.enqueueAll limits events).draining = core.draining
        ∧ (core.enqueueAll limits events).nextTransaction = core.nextTransaction := by
  induction events generalizing core with
  | nil => exact ⟨h, rfl, rfl, rfl⟩
  | cons event rest ih =>
    rcases h.enqueue limits event.1 event.2 with ⟨henqueued, hactive, hdraining, hnext⟩
    rcases ih henqueued with ⟨hall, hactive', hdraining', hnext'⟩
    refine ⟨hall, ?_, ?_, ?_⟩
    . rw [← hactive]
      exact hactive'
    . rw [← hdraining]
      exact hdraining'
    . rw [← hnext]
      exact hnext'

theorem enqueue_ready (hactive : core.active = none) (limits : CausalLimits) (i : ι) (payload : T i)
    : (core.enqueue limits i payload).1.ready
        = core.ready ++ CausalCore.ticketed (core.enqueue limits i payload).2 i payload := by
  unfold CausalCore.enqueue
  rw [hactive]
  dsimp only
  split
  . exact (List.append_nil _).symm
  . rfl

theorem enqueue_deferred {id : Nat} (hactive : core.active = some id) (limits : CausalLimits) (i : ι)
    (payload : T i)
    : (core.enqueue limits i payload).1.deferred
        = core.deferred ++ CausalCore.ticketed (core.enqueue limits i payload).2 i payload := by
  unfold CausalCore.enqueue
  rw [hactive]
  dsimp only
  split
  . exact (List.append_nil _).symm
  . split
    . exact (List.append_nil _).symm
    . rfl

theorem Queues.enqueueAll_deferred (h : Queues core) {id : Nat} (hactive : core.active = some id)
    (limits : CausalLimits) (events : List ((i : ι) × T i))
    : (core.enqueueAll limits events).deferred = core.deferred ++ core.acceptedAll limits events := by
  induction events generalizing core with
  | nil => exact (List.append_nil _).symm
  | cons event rest ih =>
    rcases h.enqueue limits event.1 event.2 with ⟨henqueued, hsame, -, -⟩
    have hrest := ih henqueued (hsame.trans hactive)
    have hfirst := enqueue_deferred hactive limits event.1 event.2
    unfold CausalCore.enqueueAll CausalCore.acceptedAll
    rw [hrest, hfirst, List.append_assoc]

structure Resting (core : CausalCore ι T) : Prop where
  active : core.active = none
  deferred : core.deferred = []
  ready : Ticketed core.nextTransaction core.ready

theorem Resting.queues (h : Resting core) : Queues core := by
  refine ⟨fun _ => ⟨h.deferred, h.ready⟩, ?_⟩
  intro id hid
  rw [h.active] at hid
  cases hid

theorem resting_of_empty (hactive : core.active = none)
    (hready : core.ready = []) (hdeferred : core.deferred = [])
    : Resting core := by
  refine ⟨hactive, hdeferred, ?_⟩
  rw [hready]
  rfl

end Queues

section Batches

theorem appendBatch_extends {panicsAt : Option Nat} {log candidate : Log} {batch : List (QueuedEvent ι T)}
    (h : appendBatch sha256 schemas panicsAt log batch = .ok candidate)
    : appendBatch sha256 schemas none log batch = .ok candidate
        ∧ ∃ suffix, candidate.events = log.events ++ suffix ∧ suffix.length = batch.length := by
  induction batch generalizing panicsAt log with
  | nil =>
    unfold appendBatch at h
    cases h
    exact ⟨rfl, [], by simp⟩
  | cons queued rest ih =>
    unfold appendBatch at h ⊢
    split at h
    . cases h
    . split at h
      . cases h
      . next longer hlonger =>
        rcases ih h with ⟨hnone, suffix, hsuffix, hlength⟩
        rcases Replica.appendTyped_extends sha256 hlonger with ⟨event, hevent⟩
        refine ⟨hnone, event :: suffix, ?_, ?_⟩
        . rw [hsuffix, hevent, List.append_assoc]
          rfl
        . simp [hlength]

end Batches

def Accepts (sha256 : Sha256) (contract : ProjectionContract S E)
    (schemas : (i : ι) → EventSchema (T i)) (env : TransactionEnv ι T) (log : Log)
    (stable : Stable S) (batch : List (QueuedEvent ι T)) : Prop :=
  env.preparePanics = false
    ∧ ∃ candidate prepared,
      appendBatch sha256 schemas env.appendPanics log batch = .ok candidate
        ∧ prepareProjection sha256 contract candidate stable = .ok prepared

structure Transaction.Sound (sha256 : Sha256) (contract : ProjectionContract S E) (initial : S)
    (schemas : (i : ι) → EventSchema (T i)) (transaction : Transaction S ι T) : Prop where
  before : IsPoint sha256 contract initial transaction.logBefore transaction.receipt.before
  after : IsPoint sha256 contract initial transaction.logAfter transaction.receipt.after
  attempted : transaction.receipt.attemptedEvents = transaction.batch.length
  tickets : Ticketed transaction.receipt.transactionId transaction.batch
  committed : transaction.receipt.outcome = .committed
    → transaction.receipt.committedEvents = transaction.batch.length
      ∧ appendBatch sha256 schemas none transaction.logBefore transaction.batch
          = .ok transaction.logAfter
  rejected : transaction.receipt.outcome = .rejected
    → transaction.receipt.committedEvents = 0
      ∧ transaction.receipt.before = transaction.receipt.after
      ∧ transaction.logAfter = transaction.logBefore
      ∧ transaction.stableAfter = transaction.stableBefore

def ExecutedFrom (sha256 : Sha256) (contract : ProjectionContract S E) (initial : S)
    (schemas : (i : ι) → EventSchema (T i)) (env : TransactionEnv ι T)
    (scheduler : CausalScheduler S ι T) (id : Nat) (batch : List (QueuedEvent ι T))
    (executed : Executed S ι T) : Prop :=
  match executed with
  | .unwound after cause => cause = .application ∧ Agrees contract initial after
      ∧ after.log = scheduler.log ∧ after.limits = scheduler.limits
      ∧ after.core.nextTransaction = scheduler.core.nextTransaction
  | .rejected after receipt kind =>
    Agrees contract initial after
      ∧ kind.afterCommit = false
      ∧ after.limits = scheduler.limits
      ∧ after.core.nextTransaction = scheduler.core.nextTransaction
      ∧ receipt.transactionId = id
      ∧ receipt.outcome = .rejected
      ∧ (CausalScheduler.record scheduler after env batch receipt).Sound sha256 contract initial
        schemas
  | .committed after receipt _ =>
    Agrees contract initial after
      ∧ after.limits = scheduler.limits
      ∧ after.core.nextTransaction = scheduler.core.nextTransaction
      ∧ after.core.active = some id
      ∧ after.core.draining = scheduler.core.draining
      ∧ Queues after.core
      ∧ after.core.deferred
          = scheduler.core.deferred ++ scheduler.core.acceptedAll scheduler.limits env.enqueued
      ∧ receipt.transactionId = id
      ∧ receipt.outcome = .committed
      ∧ (CausalScheduler.record scheduler after env batch receipt).Sound sha256 contract initial
        schemas

variable {batch : List (QueuedEvent ι T)} {context : Context} {env : TransactionEnv ι T}
  {transactions : List (Transaction S ι T)}

theorem sound_rejectedReceipt {id : Nat} {point : ProjectionPoint}
    {after : CausalScheduler S ι T} (failure : TransactionFailure)
    (hpoint : IsPoint sha256 contract initial scheduler.log point) (hlog : after.log = scheduler.log)
    (hstable : after.projection.stable = scheduler.projection.stable) (htickets : Ticketed id batch)
    : (CausalScheduler.record scheduler after env batch
        (rejectedReceipt id batch.length point failure)).Sound sha256 contract initial schemas := by
  refine ⟨hpoint, ?_, rfl, htickets, ?_, ?_⟩
  . unfold CausalScheduler.record
    dsimp only
    rw [hlog]
    exact hpoint
  . intro houtcome
    cases houtcome
  . intro _
    exact ⟨rfl, rfl, hlog, hstable⟩

theorem publish_agrees {committed published : CausalScheduler S ι T} {candidate : Log}
    {panicked : Bool}
    (hpublish : committed.publish sha256 contract context env candidate = (published, panicked))
    (hstable : committed.projection.stable.At contract Eq initial candidate)
    (hhead : committed.projection.stable.history = candidate.cursor) (hallowed : context.writeAllowed = true)
    : Agrees contract initial published
        ∧ published.log = candidate
        ∧ published.core = committed.core
        ∧ published.limits = committed.limits := by
  have hon : committed.projection.invalidate.On contract Eq initial candidate := by
    refine ⟨hstable, ?_⟩
    intro history hread
    cases hread
  have hdirty : ∀ read, committed.projection.invalidate.memo = some read
      → read = ⟨candidate.cursor, none⟩ := by
    intro read hread
    cases hread
  unfold CausalScheduler.publish at hpublish
  simp only [hallowed, Bool.not_true, Bool.false_eq_true, ↓reduceIte, Prod.mk.injEq] at hpublish
  rcases hpublish with ⟨rfl, -⟩
  refine ⟨?_, rfl, rfl, rfl⟩
  split
  . rw [memoGet_of_head sha256 hon hhead hdirty]
    refine ⟨⟨hstable, ?_⟩, hhead, ?_⟩
    . intro history hread
      cases hread
      exact ⟨rfl, hhead⟩
    . intro read hread
      cases hread
      rfl
  . exact ⟨hon, hhead, hdirty⟩

theorem executeTransaction_spec {id : Nat} (hagrees : Agrees contract initial scheduler)
    (hqueues : Queues scheduler.core) (hactive : scheduler.core.active = some id)
    (htickets : Ticketed id batch)
    (hallowed : Accepts sha256 contract schemas env scheduler.log scheduler.projection.stable batch
      → context.writeAllowed = true)
    : ExecutedFrom sha256 contract initial schemas env scheduler id batch
        (scheduler.executeTransaction sha256 contract schemas context env id batch) := by
  rcases hagrees.currentPoint sha256 with ⟨point, hpoint, hcurrent⟩
  have hsettled := hagrees.settled
  rcases hqueues.enqueueAll scheduler.limits env.enqueued with
    ⟨hqueues', hactive', hdraining', hnext'⟩
  unfold CausalScheduler.executeTransaction
  rw [hcurrent]
  unfold settled at hsettled ⊢
  dsimp only
  split
  . exact ⟨hsettled.withCore _, rfl, rfl, hnext', rfl, rfl,
      sound_rejectedReceipt sha256 _ hpoint rfl rfl htickets⟩
  . exact ⟨hsettled.withCore _, rfl, rfl, hnext', rfl, rfl,
      sound_rejectedReceipt sha256 _ hpoint rfl rfl htickets⟩
  . next candidate hcandidate =>
    rcases appendBatch_extends sha256 hcandidate with ⟨happended, suffix, hsuffix, -⟩
    split
    . exact ⟨rfl, hsettled.withCore _, rfl, rfl, hnext'⟩
    . next hnopanic =>
      split
      . exact ⟨hsettled.withCore _, rfl, rfl, hnext', rfl, rfl,
          sound_rejectedReceipt sha256 _ hpoint rfl rfl htickets⟩
      . next prepared hprepared =>
        have hfor := prepareProjection_eq_ok sha256 alike_eq (hagrees.on.stable.extend hsuffix) hprepared
        split
        . exact ⟨hsettled.withCore _, rfl, rfl, hnext', rfl, rfl,
            sound_rejectedReceipt sha256 _ hpoint rfl rfl htickets⟩
        . next stable hcommit =>
          have hwrite := hallowed ⟨by simpa using hnopanic, candidate, prepared, hcandidate,
            hprepared⟩
          have hnext := hfor.at_head sha256 hcommit
          generalize hpublish : CausalScheduler.publish sha256 contract context env _ candidate
            = result
          rcases result with ⟨published, panicked⟩
          rcases publish_agrees sha256 hpublish hnext.1 hnext.2 hwrite with
            ⟨hagrees', hlog, hcore, hlimits⟩
          have hbound := (canonicalStateBytes_eq_ok hfor.bytes).1
          have hafter : IsPoint sha256 contract initial candidate
              ⟨prepared.nextHistory, prepared.stateRoot⟩ := by
            rcases hfor.stateRoot with ⟨snapshot, hsnapshot, hroot⟩
            refine ⟨hfor.nextHistory, snapshot, ?_, hroot⟩
            unfold replaySnapshot
            rw [folds_eq.mp hfor.state]
            dsimp only
            rw [hbound]
            exact hsnapshot
          refine ⟨hagrees'.withCore _, hlimits, ?_, ?_, ?_, ?_, ?_, rfl, rfl, ?_⟩
          . unfold CausalScheduler.setPhase CausalCore.setPhase
            dsimp only
            rw [hcore]
            exact hnext'
          . unfold CausalScheduler.setPhase CausalCore.setPhase
            dsimp only
            rw [hcore]
            exact hactive'.trans hactive
          . unfold CausalScheduler.setPhase CausalCore.setPhase
            dsimp only
            rw [hcore]
            exact hdraining'
          . unfold CausalScheduler.setPhase CausalCore.setPhase
            dsimp only
            rw [hcore]
            exact ⟨hqueues'.idle, hqueues'.active⟩
          . unfold CausalScheduler.setPhase CausalCore.setPhase
            dsimp only
            rw [hcore]
            exact hqueues.enqueueAll_deferred hactive scheduler.limits env.enqueued
          . refine ⟨hpoint, ?_, rfl, htickets, ?_, ?_⟩
            . unfold CausalScheduler.record CausalScheduler.setPhase
              dsimp only
              rw [hlog]
              exact hafter
            . intro _
              refine ⟨rfl, ?_⟩
              unfold CausalScheduler.record CausalScheduler.setPhase
              dsimp only
              rw [hlog]
              exact happended
            . intro houtcome
              cases houtcome

def Linked (start : Log) (transactions : List (Transaction S ι T)) (finish : Log) : Prop :=
  match transactions with
  | [] => start = finish
  | transaction :: rest =>
    transaction.logBefore = start ∧ Linked transaction.logAfter rest finish

theorem Linked.concat {start middle : Log}
    {transaction : Transaction S ι T} (h : Linked start transactions middle)
    (hbefore : transaction.logBefore = middle)
    : Linked start (transactions ++ [transaction]) transaction.logAfter := by
  induction transactions generalizing start with
  | nil =>
    unfold Linked at h
    subst h
    exact ⟨hbefore, rfl⟩
  | cons first rest ih => exact ⟨h.1, ih h.2⟩

structure Trace (sha256 : Sha256) (contract : ProjectionContract S E) (initial : S)
    (schemas : (i : ι) → EventSchema (T i)) (start : Log)
    (transactions : List (Transaction S ι T)) (finish : Log) (nextId : Nat) : Prop where
  linked : Linked start transactions finish
  sound : ∀ transaction ∈ transactions, transaction.Sound sha256 contract initial schemas
  increasing : transactions.Pairwise
    (fun left right => left.receipt.transactionId < right.receipt.transactionId)
  bound : ∀ transaction ∈ transactions, transaction.receipt.transactionId < nextId
  lastRejects : ∀ transaction ∈ transactions.dropLast, transaction.receipt.outcome = .committed

variable {sha256} in
theorem Trace.concat {start middle : Log} {id : Nat} {transaction : Transaction S ι T}
    (h : Trace sha256 contract initial schemas start transactions middle id)
    (hcommitted : ∀ earlier ∈ transactions, earlier.receipt.outcome = .committed)
    (hbefore : transaction.logBefore = middle) (hid : transaction.receipt.transactionId = id)
    (hsound : transaction.Sound sha256 contract initial schemas)
    : Trace sha256 contract initial schemas start (transactions ++ [transaction])
        transaction.logAfter (id + 1) := by
  refine ⟨h.linked.concat hbefore, ?_, ?_, ?_, ?_⟩
  . intro other hother
    rcases List.mem_append.mp hother with hold | hnew
    . exact h.sound other hold
    . rw [List.mem_singleton.mp hnew]
      exact hsound
  . rw [List.pairwise_append]
    refine ⟨h.increasing, List.pairwise_singleton _ _, ?_⟩
    intro earlier hearlier later hlater
    rw [List.mem_singleton.mp hlater, hid]
    exact h.bound earlier hearlier
  . intro other hother
    rcases List.mem_append.mp hother with hold | hnew
    . have := h.bound other hold
      omega
    . rw [List.mem_singleton.mp hnew]
      omega
  . rw [List.dropLast_concat]
    exact hcommitted

variable {sha256} in
theorem Trace.next {start finish : Log} {id id' : Nat}
    (h : Trace sha256 contract initial schemas start transactions finish id) (hle : id ≤ id')
    : Trace sha256 contract initial schemas start transactions finish id' := by
  refine ⟨h.linked, h.sound, h.increasing, ?_, h.lastRejects⟩
  intro transaction hmem
  have := h.bound transaction hmem
  omega

-- The batches taken so far are the first events of those that were given a ticket; `left` is what no batch has.
structure Issues (accepted : List (QueuedEvent ι T)) (transactions : List (Transaction S ι T))
    (left : List (QueuedEvent ι T)) : Prop where
  order : accepted ++ transactions.flatMap (fun transaction => transaction.accepted)
    = transactions.flatMap (fun transaction => transaction.batch) ++ left
  later : ∀ transaction ∈ transactions, ∀ queued ∈ left,
    transaction.receipt.transactionId < queued.ticket.transaction

theorem Ticketed.named {id : Nat} {queue : List (QueuedEvent ι T)} (h : Ticketed id queue)
    {queued : QueuedEvent ι T} (hmem : queued ∈ queue)
    : queued.ticket.transaction = id := by
  have hticket : queued.ticket ∈ queue.map (fun queued => queued.ticket) := List.mem_map_of_mem hmem
  unfold Ticketed at h
  rw [h] at hticket
  rcases List.mem_map.mp hticket with ⟨ordinal, -, hordinal⟩
  rw [← hordinal]

theorem Ticketed.filter {id other : Nat} {queue : List (QueuedEvent ι T)} (h : Ticketed id queue)
    : queue.filter (fun queued => queued.ticket.transaction = other) = if id = other then queue else [] := by
  split
  . next hsame =>
    apply List.filter_eq_self.mpr
    intro queued hmem
    exact decide_eq_true ((h.named hmem).trans hsame)
  . next hne =>
    apply List.filter_eq_nil_iff.mpr
    intro queued hmem hnamed
    exact hne ((h.named hmem).symm.trans (of_decide_eq_true hnamed))

theorem filter_batches {transaction : Transaction S ι T} (hmem : transaction ∈ transactions)
    (hsound : ∀ transaction ∈ transactions, transaction.Sound sha256 contract initial schemas)
    (hincreasing : transactions.Pairwise
      (fun left right => left.receipt.transactionId < right.receipt.transactionId))
    : (transactions.flatMap (fun transaction => transaction.batch)).filter
        (fun queued => queued.ticket.transaction = transaction.receipt.transactionId)
      = transaction.batch := by
  induction transactions with
  | nil => cases hmem
  | cons first rest ih =>
    rw [List.pairwise_cons] at hincreasing
    have hfirst := (hsound first List.mem_cons_self).tickets
    rw [List.flatMap_cons, List.filter_append, hfirst.filter]
    rcases List.mem_cons.mp hmem with rfl | hrest
    . have hothers : (rest.flatMap (fun transaction => transaction.batch)).filter
          (fun queued => queued.ticket.transaction = transaction.receipt.transactionId) = [] := by
        apply List.filter_eq_nil_iff.mpr
        intro queued hqueued hnamed
        rcases List.mem_flatMap.mp hqueued with ⟨other, hother, hbatch⟩
        have hlater := hincreasing.1 other hother
        have htickets := (hsound other (List.mem_cons_of_mem _ hother)).tickets
        rw [← htickets.named hbatch, of_decide_eq_true hnamed] at hlater
        exact Nat.lt_irrefl _ hlater
      rw [if_pos rfl, hothers, List.append_nil]
    . rw [if_neg (Nat.ne_of_lt (hincreasing.1 transaction hrest)), List.nil_append]
      exact ih hrest (fun other hother => hsound other (List.mem_cons_of_mem _ hother)) hincreasing.2

theorem Issues.filter_batch {accepted left : List (QueuedEvent ι T)} {transaction : Transaction S ι T}
    (h : Issues accepted transactions left) (hmem : transaction ∈ transactions)
    (hsound : ∀ transaction ∈ transactions, transaction.Sound sha256 contract initial schemas)
    (hincreasing : transactions.Pairwise
      (fun left right => left.receipt.transactionId < right.receipt.transactionId))
    : (accepted ++ transactions.flatMap (fun transaction => transaction.accepted)).filter
        (fun queued => queued.ticket.transaction = transaction.receipt.transactionId)
      = transaction.batch := by
  have hleft : left.filter
      (fun queued => queued.ticket.transaction = transaction.receipt.transactionId) = [] := by
    apply List.filter_eq_nil_iff.mpr
    intro queued hqueued hnamed
    have hlater := h.later transaction hmem queued hqueued
    rw [of_decide_eq_true hnamed] at hlater
    exact Nat.lt_irrefl _ hlater
  rw [h.order, List.filter_append, hleft, List.append_nil]
  exact filter_batches sha256 hmem hsound hincreasing

variable {accepted : List (QueuedEvent ι T)}

structure DrainedFrom (sha256 : Sha256) (contract : ProjectionContract S E) (initial : S)
    (schemas : (i : ι) → EventSchema (T i)) (start : Log) (accepted : List (QueuedEvent ι T))
    (drained : Drained S ι T) : Prop where
  agrees : Agrees contract initial drained.scheduler
  resting : Resting drained.scheduler.core
  ready : drained.scheduler.core.ready = []
  idle : drained.scheduler.core.draining = false
  trace : Trace sha256 contract initial schemas start drained.transactions drained.scheduler.log
    drained.scheduler.core.nextTransaction
  settles : drained.outcome ≠ .unwound .settledPoint
  receipts : (∀ cause, drained.outcome ≠ .unwound cause)
    → (∀ receipts, drained.outcome ≠ .error .transactionIdExhausted receipts)
    → drained.outcome.receipts
      = drained.transactions.map (fun transaction => transaction.receipt)
  issues : ∃ left, Issues accepted drained.transactions left
    ∧ (drained.outcome.finished = true → left = [])

theorem takeTransaction_eq_some {core after : CausalCore ι T} {id : Nat} (hresting : Resting core)
    (h : core.takeTransaction = .ok (some (id, batch, after)))
    : id = core.nextTransaction
        ∧ batch = core.ready
        ∧ core.ready ≠ []
        ∧ after.nextTransaction = id + 1
        ∧ after.active = some id
        ∧ after.draining = core.draining
        ∧ after.deferred = []
        ∧ Queues after := by
  unfold CausalCore.takeTransaction at h
  split at h
  . cases h
  . next hready =>
    split at h
    . cases h
    . cases h
      refine ⟨rfl, rfl, by simpa using hready, rfl, rfl, rfl, hresting.deferred, ?_, ?_⟩
      . intro hnone
        cases hnone
      . intro id hid
        cases hid
        refine ⟨rfl, ?_⟩
        dsimp only
        rw [hresting.deferred]
        rfl

theorem takeTransaction_eq_error {core : CausalCore ι T} {kind : CausalErrorKind}
    (h : core.takeTransaction = .error kind)
    : DrainOutcome.error kind [] = .error .transactionIdExhausted [] := by
  unfold CausalCore.takeTransaction at h
  split at h
  . cases h
  . split at h
    . cases h
      rfl
    . cases h

theorem takeTransaction_eq_none {core : CausalCore ι T} (h : core.takeTransaction = .ok none)
    : core.ready = [] := by
  unfold CausalCore.takeTransaction at h
  split at h
  . next hready => exact List.isEmpty_iff.mp hready
  . split at h
    . cases h
    . cases h

theorem issues_of_trace {start : Log} {done : List (Transaction S ι T)} (hresting : Resting scheduler.core)
    (htrace : Trace sha256 contract initial schemas start done scheduler.log scheduler.core.nextTransaction)
    (horder : accepted ++ done.flatMap (fun transaction => transaction.accepted)
      = done.flatMap (fun transaction => transaction.batch) ++ scheduler.core.ready)
    : Issues accepted done scheduler.core.ready := by
  refine ⟨horder, ?_⟩
  intro transaction hmem queued hqueued
  rw [hresting.ready.named hqueued]
  exact htrace.bound transaction hmem

theorem order_concat {done : List (Transaction S ι T)} {ready : List (QueuedEvent ι T)}
    (horder : accepted ++ done.flatMap (fun transaction => transaction.accepted)
      = done.flatMap (fun transaction => transaction.batch) ++ ready)
    (transaction : Transaction S ι T) (hbatch : transaction.batch = ready)
    : accepted ++ (done ++ [transaction]).flatMap (fun transaction => transaction.accepted)
      = (done ++ [transaction]).flatMap (fun transaction => transaction.batch)
        ++ transaction.accepted := by
  rw [List.flatMap_append, List.flatMap_append, ← List.append_assoc, horder, List.flatMap_singleton,
    List.flatMap_singleton, hbatch]

theorem Queues.ticketed_accepted {core : CausalCore ι T} {id : Nat} (h : Queues core)
    (hactive : core.active = some id) (hdeferred : core.deferred = []) (limits : CausalLimits)
    (events : List ((i : ι) × T i))
    : Ticketed (id + 1) (core.acceptedAll limits events) := by
  rcases h.enqueueAll limits events with ⟨hqueues, hsame, -, hnext⟩
  have htickets := (hqueues.active id (hsame.trans hactive)).2
  rw [h.enqueueAll_deferred hactive, hdeferred, List.nil_append, hnext, (h.active id hactive).1]
    at htickets
  exact htickets

section Stops

variable {start : Log} {done : List (Transaction S ι T)} {id : Nat} {left : List (QueuedEvent ι T)}
  (hagrees : Agrees contract initial scheduler)
  (htrace : Trace sha256 contract initial schemas start done scheduler.log id)
  (hissues : Issues accepted done left)

include hagrees htrace hissues

theorem drainedFrom_stop {core : CausalCore ι T} {outcome : DrainOutcome}
    (hle : id ≤ core.nextTransaction) (hresting : Resting core) (hready : core.ready = [])
    (hidle : core.draining = false)
    (houtcome : outcome ≠ .unwound .settledPoint) (hreceipts : (∀ cause, outcome ≠ .unwound cause)
      → (∀ receipts, outcome ≠ .error .transactionIdExhausted receipts)
      → outcome.receipts = done.map (fun transaction => transaction.receipt))
    (hfinished : outcome.finished = true → left = [])
    : DrainedFrom sha256 contract initial schemas start accepted
        ⟨scheduler.withCore core, outcome, done⟩ :=
  ⟨hagrees.withCore core, hresting, hready, hidle, htrace.next hle, houtcome, hreceipts,
    left, hissues, hfinished⟩

theorem drainedFrom_cleared {core : CausalCore ι T} {kind : CausalErrorKind}
    (hkind : kind.afterCommit = false) (hle : id ≤ core.nextTransaction)
    : DrainedFrom sha256 contract initial schemas start accepted
        ⟨scheduler.withCore core.clearQueues.finish,
          .error kind (done.map (fun transaction => transaction.receipt)), done⟩ := by
  apply drainedFrom_stop sha256 hagrees htrace hissues
  . exact hle
  . exact resting_of_empty rfl rfl rfl
  . rfl
  . rfl
  . simp
  . intro _ _
    rfl
  . intro hfinished
    exact absurd (hkind.symm.trans hfinished) Bool.false_ne_true

theorem drainedFrom_recovered {core : CausalCore ι T} {outcome : DrainOutcome} (hle : id ≤ core.nextTransaction)
    (houtcome : outcome = .error .transactionIdExhausted [] ∨ outcome = .unwound .application)
    : DrainedFrom sha256 contract initial schemas start accepted
        ⟨scheduler.withCore core.recover, outcome, done⟩ := by
  apply drainedFrom_stop sha256 hagrees htrace hissues
  . exact hle
  . exact resting_of_empty rfl rfl rfl
  . rfl
  . rfl
  . rcases houtcome with rfl | rfl
    all_goals simp
  . intro hcause hids
    rcases houtcome with rfl | rfl
    . exact absurd rfl (hids [])
    . exact absurd rfl (hcause .application)
  . intro hfinished
    rcases houtcome with rfl | rfl
    all_goals cases hfinished

theorem drainedFrom_finished (hresting : Resting scheduler.core)
    (hle : id ≤ scheduler.core.nextTransaction) (post : Option CausalErrorKind)
    (hready : scheduler.core.ready = []) (hleft : left = [])
    : DrainedFrom sha256 contract initial schemas start accepted
        (match post with
        | some kind =>
          ⟨scheduler.withCore scheduler.core.finish,
            .error kind (done.map (fun transaction => transaction.receipt)), done⟩
        | none =>
          ⟨scheduler.withCore scheduler.core.finish,
            .report (done.map (fun transaction => transaction.receipt)), done⟩) := by
  split
  all_goals
    apply drainedFrom_stop sha256 hagrees htrace hissues
    . exact hle
    . exact ⟨rfl, hresting.deferred, hresting.ready⟩
    . exact hready
    . rfl
    . simp
    . intro _ _
      rfl
    . exact fun _ => hleft

end Stops

/--
No batch that the loop publishes is published from inside a computation that tracks its reads or
that reads the log.
-/
def LoopPublishesOutside (sha256 : Sha256) (contract : ProjectionContract S E)
    (schemas : (i : ι) → EventSchema (T i)) (context : Nat → Context)
    (env : Nat → TransactionEnv ι T) (remaining transactions events : Nat)
    (scheduler : CausalScheduler S ι T) : Prop :=
  match remaining with
  | 0 => True
  | remaining + 1 =>
    match scheduler.core.takeTransaction with
    | .ok (some (id, batch, core)) =>
      events + batch.length ≤ scheduler.limits.maxEventsPerDrain →
        (Accepts sha256 contract schemas (env transactions) scheduler.log
            scheduler.projection.stable batch → (context transactions).writeAllowed = true)
          ∧ ∀ after receipt failure,
            (scheduler.withCore core).executeTransaction sha256 contract schemas
                (context transactions) (env transactions) id batch
              = .committed after receipt failure →
              LoopPublishesOutside sha256 contract schemas context env remaining (transactions + 1)
                (events + batch.length) (after.withCore after.core.advanceGeneration)
    | _ => True

theorem LoopPublishesOutside.of_allowed {context : Nat → Context} {env : Nat → TransactionEnv ι T}
    (hallowed : ∀ transaction, (context transaction).writeAllowed = true)
    (remaining transactions events : Nat)
    : LoopPublishesOutside sha256 contract schemas context env remaining transactions events
        scheduler := by
  induction remaining generalizing scheduler transactions events with
  | zero =>
    unfold LoopPublishesOutside
    trivial
  | succ remaining ih =>
    unfold LoopPublishesOutside
    split
    . intro _
      refine ⟨fun _ => hallowed transactions, ?_⟩
      intro after receipt failure _
      exact ih (transactions + 1) _
    . trivial

theorem drainLoop_spec {context : Nat → Context} {env : Nat → TransactionEnv ι T} {start : Log}
    (remaining : Nat) {transactions events : Nat} {post : Option CausalErrorKind}
    {done : List (Transaction S ι T)} (hagrees : Agrees contract initial scheduler)
    (hresting : Resting scheduler.core) (htrace : Trace sha256 contract initial schemas start done scheduler.log
      scheduler.core.nextTransaction)
    (hcommitted : ∀ transaction ∈ done, transaction.receipt.outcome = .committed)
    (horder : accepted ++ done.flatMap (fun transaction => transaction.accepted)
      = done.flatMap (fun transaction => transaction.batch) ++ scheduler.core.ready)
    (hguard : LoopPublishesOutside sha256 contract schemas context env remaining transactions events
      scheduler)
    : DrainedFrom sha256 contract initial schemas start accepted
        (scheduler.drainLoop sha256 contract schemas context env remaining transactions events post
          done) := by
  -- the induction follows the transactions the drain may still run
  induction remaining generalizing scheduler transactions events post done with
  | zero =>
    have hissues := issues_of_trace sha256 hresting htrace horder
    unfold CausalScheduler.drainLoop
    dsimp only
    split
    . next kind htake =>
      exact drainedFrom_recovered sha256 hagrees htrace hissues (Nat.le_refl _)
        (Or.inl (takeTransaction_eq_error htake))
    . next htake =>
      exact drainedFrom_finished sha256 hagrees htrace hissues hresting (Nat.le_refl _) post
        (takeTransaction_eq_none htake) (takeTransaction_eq_none htake)
    . next id batch core htake =>
      rcases takeTransaction_eq_some hresting htake with ⟨rfl, rfl, -, hnext, -⟩
      exact drainedFrom_cleared sha256 hagrees htrace hissues rfl (by omega)
  | succ remaining ih =>
    have hissues := issues_of_trace sha256 hresting htrace horder
    unfold LoopPublishesOutside at hguard
    unfold CausalScheduler.drainLoop
    dsimp only
    split
    . next kind htake =>
      exact drainedFrom_recovered sha256 hagrees htrace hissues (Nat.le_refl _)
        (Or.inl (takeTransaction_eq_error htake))
    . next htake =>
      exact drainedFrom_finished sha256 hagrees htrace hissues hresting (Nat.le_refl _) post
        (takeTransaction_eq_none htake) (takeTransaction_eq_none htake)
    . next id batch core htake =>
      rw [htake] at hguard
      rcases takeTransaction_eq_some hresting htake with
        ⟨rfl, rfl, -, hnext, hactive, -, hdeferred, hqueues⟩
      split
      . exact drainedFrom_cleared sha256 hagrees htrace hissues rfl (by omega)
      . next hevents =>
        rcases hguard (Nat.le_of_not_lt hevents) with ⟨hallowed, hrest⟩
        have hspec := executeTransaction_spec sha256 (hagrees.withCore core) hqueues hactive
          hresting.ready hallowed
        split
        . next after cause hexecuted =>
          rw [hexecuted] at hspec
          rcases hspec with ⟨rfl, hagrees', hlog, -, hnext'⟩
          have htrace' : Trace sha256 contract initial schemas start done after.log
              scheduler.core.nextTransaction := by
            rw [hlog]
            exact htrace
          apply drainedFrom_recovered sha256 hagrees' htrace' hissues _ (Or.inr rfl)
          rw [hnext']
          exact Nat.le_trans (Nat.le_succ _) (Nat.le_of_eq hnext.symm)
        . next after receipt kind hexecuted =>
          rw [hexecuted] at hspec
          rcases hspec with ⟨hagrees', hkind, -, hnext', hid, -, hsound⟩
          have htrace' := htrace.concat hcommitted rfl hid hsound
          have horder' := order_concat horder
            (CausalScheduler.record (scheduler.withCore core) after (env transactions)
              scheduler.core.ready receipt) rfl
          have hissues' := Issues.mk horder' fun transaction hmem queued hqueued => by
            rw [(hqueues.ticketed_accepted hactive hdeferred _ _).named hqueued]
            exact htrace'.bound transaction hmem
          apply drainedFrom_cleared sha256 hagrees' htrace' hissues' hkind
          rw [hnext']
          exact Nat.le_of_eq hnext.symm
        . next after receipt failure hexecuted =>
          have hguard' := hrest after receipt failure hexecuted
          rw [hexecuted] at hspec
          rcases hspec with ⟨hagrees', -, hnext', hactive', -, hqueues', hready', hid, houtcome,
            hsound⟩
          have htrace' := htrace.concat hcommitted rfl hid hsound
          have horder' := order_concat horder
            (CausalScheduler.record (scheduler.withCore core) after (env transactions)
              scheduler.core.ready receipt) rfl
          apply ih
          . exact hagrees'.withCore _
          . refine ⟨rfl, rfl, ?_⟩
            exact (hqueues'.active _ hactive').2
          . apply htrace'.next
            unfold CausalScheduler.withCore CausalCore.advanceGeneration
            dsimp only
            rw [hnext']
            exact Nat.le_of_eq hnext.symm
          . intro transaction hmem
            rcases List.mem_append.mp hmem with hold | hnew
            . exact hcommitted transaction hold
            . rw [List.mem_singleton.mp hnew]
              exact houtcome
          . rw [horder']
            unfold CausalScheduler.withCore CausalCore.advanceGeneration
            dsimp only
            rw [hready']
            unfold CausalScheduler.withCore
            dsimp only
            rw [hdeferred, List.nil_append]
            rfl
          . exact hguard'

theorem Linked.extends {start finish : Log} (h : Linked start transactions finish)
    (hsound : ∀ transaction ∈ transactions, transaction.Sound sha256 contract initial schemas)
    : (∃ more, finish.events = start.events ++ more)
        ∧ ∀ transaction ∈ transactions, ∃ more,
          finish.events = transaction.logAfter.events ++ more := by
  induction transactions generalizing start with
  | nil =>
    unfold Linked at h
    subst h
    refine ⟨⟨[], by simp⟩, ?_⟩
    intro transaction hmem
    cases hmem
  | cons first rest ih =>
    rcases h with ⟨hbefore, hrest⟩
    have htail := ih hrest (fun transaction hmem => hsound transaction (List.mem_cons_of_mem _ hmem))
    have hfirst : ∃ more, first.logAfter.events = start.events ++ more := by
      have hsound := hsound first List.mem_cons_self
      cases houtcome : first.receipt.outcome with
      | committed =>
        rcases appendBatch_extends sha256 (hsound.committed houtcome).2 with ⟨-, suffix, hsuffix, -⟩
        rw [hbefore] at hsuffix
        exact ⟨suffix, hsuffix⟩
      | rejected =>
        rw [(hsound.rejected houtcome).2.2.1, hbefore]
        exact ⟨[], by simp⟩
    rcases htail with ⟨⟨more, hmore⟩, hall⟩
    constructor
    . rcases hfirst with ⟨more', hmore'⟩
      rw [hmore, hmore', List.append_assoc]
      exact ⟨_, rfl⟩
    . intro transaction hmem
      rcases List.mem_cons.mp hmem with rfl | htransaction
      . exact ⟨more, hmore⟩
      . exact hall transaction htransaction

inductive SchedulerStep (ι : Type) (T : ι → Type) where
  | enqueue (index : ι) (payload : T index)
  | drain (context : Nat → Context) (env : Nat → TransactionEnv ι T)
  | dispatch (index : ι) (payload : T index) (context : Nat → Context)
    (env : Nat → TransactionEnv ι T)
  | state

def CausalScheduler.step (sha256 : Sha256) (contract : ProjectionContract S E)
    (schemas : (i : ι) → EventSchema (T i)) (scheduler : CausalScheduler S ι T)
    (label : SchedulerStep ι T) : Option (CausalScheduler S ι T) :=
  match label with
  | .enqueue index payload => some (scheduler.enqueue index payload).1
  | .drain context env => some (scheduler.drain sha256 contract schemas context env).scheduler
  | .dispatch index payload context env =>
    some (scheduler.dispatch sha256 contract schemas context env index payload).1
  | .state => some (scheduler.state sha256 contract).1

def CausalScheduler.startsFrom (sha256 : Sha256) (contract : ProjectionContract S E) (initial : S)
    (scheduler : CausalScheduler S ι T) : Prop :=
  ∃ history limits, CausalScheduler.fromLog sha256 contract history initial limits = .ok scheduler

def PublishesOutside (sha256 : Sha256) (contract : ProjectionContract S E)
    (schemas : (i : ι) → EventSchema (T i)) (scheduler : CausalScheduler S ι T)
    (context : Nat → Context) (env : Nat → TransactionEnv ι T) : Prop :=
  LoopPublishesOutside sha256 contract schemas context env scheduler.limits.maxTransactionsPerDrain 0
    0 (scheduler.withCore { scheduler.core with draining := true })

def StepPublishesOutside (sha256 : Sha256) (contract : ProjectionContract S E)
    (schemas : (i : ι) → EventSchema (T i)) (scheduler : CausalScheduler S ι T)
    (label : SchedulerStep ι T) : Prop :=
  match label with
  | .drain context env => PublishesOutside sha256 contract schemas scheduler context env
  | .dispatch index payload context env =>
    PublishesOutside sha256 contract schemas (scheduler.enqueue index payload).1 context env
  | _ => True

structure Idle (contract : ProjectionContract S E) (initial : S)
    (scheduler : CausalScheduler S ι T) : Prop where
  agrees : Agrees contract initial scheduler
  resting : Resting scheduler.core
  idle : scheduler.core.draining = false

theorem Idle.drain {context : Nat → Context} {env : Nat → TransactionEnv ι T}
    (h : Idle contract initial scheduler)
    (hguard : PublishesOutside sha256 contract schemas scheduler context env)
    : DrainedFrom sha256 contract initial schemas scheduler.log scheduler.core.ready
        (scheduler.drain sha256 contract schemas context env) := by
  unfold CausalScheduler.drain
  rw [h.idle]
  simp only [Bool.false_eq_true, ↓reduceIte]
  apply drainLoop_spec sha256
  . exact h.agrees.withCore _
  . exact ⟨h.resting.active, h.resting.deferred, h.resting.ready⟩
  . refine ⟨rfl, ?_, List.Pairwise.nil, ?_, ?_⟩
    all_goals
      intro transaction hmem
      cases hmem
  . intro transaction hmem
    cases hmem
  . exact List.append_nil _
  . exact hguard

theorem Idle.enqueue (h : Idle contract initial scheduler) (index : ι) (payload : T index)
    : Idle contract initial (scheduler.enqueue index payload).1 := by
  rcases h.resting.queues.enqueue scheduler.limits index payload with
    ⟨hqueues, hactive, hdraining, -⟩
  have hnone := hactive.trans h.resting.active
  rcases hqueues.idle hnone with ⟨hdeferred, hready⟩
  exact ⟨h.agrees.withCore _, ⟨hnone, hdeferred, hready⟩, hdraining.trans h.idle⟩

theorem DrainedFrom.toIdle {start : Log} {drained : Drained S ι T}
    (h : DrainedFrom sha256 contract initial schemas start accepted drained)
    : Idle contract initial drained.scheduler :=
  ⟨h.agrees, h.resting, h.idle⟩

theorem Idle.step {after : CausalScheduler S ι T} {label : SchedulerStep ι T}
    (h : Idle contract initial scheduler) (hguard : StepPublishesOutside sha256 contract schemas scheduler label)
    (hstep : scheduler.step sha256 contract schemas label = some after)
    : Idle contract initial after := by
  unfold CausalScheduler.step at hstep
  cases label with
  | enqueue index payload =>
    cases hstep
    exact h.enqueue index payload
  | drain context env =>
    cases hstep
    exact (h.drain sha256 hguard).toIdle
  | dispatch index payload context env =>
    cases hstep
    have henqueued := h.enqueue index payload
    unfold StepPublishesOutside at hguard
    dsimp only at hguard
    unfold CausalScheduler.dispatch
    generalize scheduler.enqueue index payload = enqueued at henqueued hguard
    rcases enqueued with ⟨queued, ticket⟩
    cases ticket with
    | error kind => exact henqueued
    | ok ticket =>
      dsimp only at henqueued hguard ⊢
      rw [henqueued.idle]
      exact (henqueued.drain sha256 hguard).toIdle
  | state =>
    cases hstep
    rw [h.agrees.state sha256]
    exact ⟨h.agrees.settled, h.resting, h.idle⟩

theorem Idle.fromLog (h : scheduler.startsFrom sha256 contract initial)
    : Idle contract initial scheduler := by
  rcases h with ⟨history, limits, h⟩
  unfold CausalScheduler.fromLog at h
  split at h
  . cases h
  . split at h
    . cases h
    . split at h
      . cases h
      . next projection hnew =>
        have hsettle := (Projection.On.new alike_eq hnew).settle sha256 alike_eq
        unfold Projection.tryGet at h
        generalize projection.settle sha256 contract history = settled at hsettle h
        rcases settled with ⟨settled, result⟩
        cases result with
        | error error => cases h
        | ok done =>
          cases h
          have hhead := hsettle.2 rfl
          refine ⟨⟨hsettle.1, hhead.1, ?_⟩, resting_of_empty rfl rfl rfl, rfl⟩
          intro read hread
          exact Option.some.inj (hread.symm.trans hhead.2)

/--
The projection and the published log agree: the checkpoint sits at the head of the log and holds
its replay, a read succeeds, and a drain that publishes outside a computation that reads the log
finds the scheduler settled and puts the events of its committed transactions into the log.
-/
def SoleWriterAgrees (sha256 : Sha256) (contract : ProjectionContract S E) (initial : S)
    (schemas : (i : ι) → EventSchema (T i)) (scheduler : CausalScheduler S ι T) : Prop :=
  scheduler.projection.stable.history = scheduler.log.cursor
    ∧ replay contract initial scheduler.log.events = .ok scheduler.projection.stable.state
    ∧ (scheduler.state sha256 contract).2 = .ok scheduler.projection.stable.state
    ∧ ∀ context env,
      PublishesOutside sha256 contract schemas scheduler context env
        → let drained := scheduler.drain sha256 contract schemas context env
          drained.outcome ≠ .unwound .settledPoint
            ∧ ∀ transaction ∈ drained.transactions,
              transaction.receipt.outcome = .committed
                → appendBatch sha256 schemas none transaction.logBefore transaction.batch
                    = .ok transaction.logAfter
                  ∧ ∃ more, drained.scheduler.log.events = transaction.logAfter.events ++ more

theorem soleWriterAgrees_of_publishesOutside (sha256 : Sha256) (contract : ProjectionContract S E)
    (initial : S) (schemas : (i : ι) → EventSchema (T i)) (scheduler : CausalScheduler S ι T)
    (hreach : Reach.Under (CausalScheduler.startsFrom sha256 contract initial)
      (CausalScheduler.step sha256 contract schemas) (StepPublishesOutside sha256 contract schemas)
      scheduler)
    : SoleWriterAgrees sha256 contract initial schemas scheduler := by
  have hidle : Idle contract initial scheduler :=
    hreach.invariant (fun _ => Idle.fromLog sha256) (fun _ _ _ h hguard => h.step sha256 hguard)
  refine ⟨hidle.agrees.head, folds_eq.mp (hidle.agrees.on.folds hidle.agrees.head), ?_, ?_⟩
  . rw [hidle.agrees.state sha256]
  . intro context env hguard
    have hdrained := hidle.drain sha256 hguard
    have hextends := hdrained.trace.linked.extends sha256 hdrained.trace.sound
    refine ⟨hdrained.settles, ?_⟩
    intro transaction hmem houtcome
    exact ⟨((hdrained.trace.sound transaction hmem).committed houtcome).2,
      hextends.2 transaction hmem⟩

def noteEnv : Nat → TransactionEnv Unit (fun _ => Unit) :=
  fun _ =>
    {
      enqueued := []
      appendPanics := none
      preparePanics := false
      effectsRead := false
      effectsPanic := false
      dropPanics := false
    }

def noteScheduler : Except CausalErrorKind (CausalScheduler Nat Unit (fun _ => Unit)) :=
  CausalScheduler.fromLog sha256Digest Replica.noteContract Log.new 0 ⟨64, 256, 4096⟩

/--
An event dispatched from inside a tracking computation is committed to the projection, and its log
is never published.
-/
theorem dispatch_inside_computation_disagrees
    : ∃ scheduler : CausalScheduler Nat Unit (fun _ => Unit),
        Reach.Any (CausalScheduler.startsFrom sha256Digest Replica.noteContract 0)
            (CausalScheduler.step sha256Digest Replica.noteContract (fun _ => Replica.noteSchema)) scheduler
          ∧ ¬ SoleWriterAgrees sha256Digest Replica.noteContract 0 (fun _ => Replica.noteSchema)
            scheduler := by
  have hrun : (noteScheduler.toOption.bind (fun scheduler =>
      Reach.exec (CausalScheduler.step sha256Digest Replica.noteContract (fun _ => Replica.noteSchema))
        scheduler [.dispatch () () (fun _ => ⟨true, false⟩) noteEnv])).map
      (fun scheduler => (scheduler.projection.stable.history.position, scheduler.log.len))
      = some (1, 0) := by
    decide +kernel
  cases hstart : noteScheduler with
  | error kind => simp [hstart, Except.toOption] at hrun
  | ok scheduler =>
    simp only [hstart, Except.toOption, Option.bind_some] at hrun
    cases hexec : Reach.exec (CausalScheduler.step sha256Digest Replica.noteContract
        (fun _ => Replica.noteSchema)) scheduler [.dispatch () () (fun _ => ⟨true, false⟩) noteEnv] with
    | none => simp [hexec] at hrun
    | some after =>
      simp only [hexec, Option.map_some, Option.some.injEq, Prod.mk.injEq] at hrun
      refine ⟨after, Reach.exec_any _ (.init ⟨_, _, hstart⟩) hexec, ?_⟩
      intro hagrees
      have hposition := congrArg LogCursor.position hagrees.1
      rw [hrun.1] at hposition
      have hlen : after.log.cursor.position = after.log.len := rfl
      omega

-- The first transaction dispatches one more event.
def chainedEnv (transaction : Nat) : TransactionEnv Unit (fun _ => Unit) :=
  { noteEnv transaction with enqueued := if transaction = 0 then [⟨(), ()⟩] else [] }

def outside (_ : Nat) : Context :=
  ⟨false, false⟩

theorem dispatch_outside_agrees
    : ∃ scheduler : CausalScheduler Nat Unit (fun _ => Unit),
        scheduler.log.len = 2
          ∧ SoleWriterAgrees sha256Digest Replica.noteContract 0 (fun _ => Replica.noteSchema)
            scheduler := by
  have hrun : (noteScheduler.toOption.bind (fun scheduler =>
      CausalScheduler.step sha256Digest Replica.noteContract (fun _ => Replica.noteSchema) scheduler
        (.dispatch () () outside chainedEnv))).map (fun scheduler => scheduler.log.len)
      = some 2 := by
    decide +kernel
  cases hstart : noteScheduler with
  | error kind => simp [hstart, Except.toOption] at hrun
  | ok scheduler =>
    simp only [hstart, Except.toOption, Option.bind_some] at hrun
    rcases Option.map_eq_some_iff.mp hrun with ⟨after, hstep, hlen⟩
    refine ⟨after, hlen, ?_⟩
    apply soleWriterAgrees_of_publishesOutside sha256Digest Replica.noteContract 0
      (fun _ => Replica.noteSchema)
    refine .step (.init ⟨_, _, hstart⟩) ?_ hstep
    exact LoopPublishesOutside.of_allowed _ (fun _ => rfl) _ _ _

end Fold

end Pliego
