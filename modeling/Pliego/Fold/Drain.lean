import Pliego.Fold.Agreement

/-!
How much one drain of the causal scheduler executes, and how it leaves the core.
-/

namespace Pliego

namespace Fold

variable {S E ι : Type} {T : ι → Type} {sha256 : Sha256} {contract : ProjectionContract S E}
  {schemas : (i : ι) → EventSchema (T i)}

-- A call of `execute_transaction`: its transaction and its batch.
abbrev Execution (ι : Type) (T : ι → Type) := Nat × List (QueuedEvent ι T)

namespace CausalScheduler

-- The calls of `execute_transaction` that the loop of a drain makes.
def executionsLoop (sha256 : Sha256) (contract : ProjectionContract S E) (schemas : (i : ι) → EventSchema (T i))
    (context : Nat → Context) (env : Nat → TransactionEnv ι T) (remaining transactions events : Nat)
    (scheduler : CausalScheduler S ι T) : List (Execution ι T) :=
  match scheduler.core.takeTransaction with
  | .ok (some (transaction, batch, core)) =>
    match remaining with
    | 0 => []
    | remaining + 1 =>
      if events + batch.length > scheduler.limits.maxEventsPerDrain then
        []
      else
        (transaction, batch)
          :: match (scheduler.withCore core).executeTransaction sha256 contract schemas (context transactions)
              (env transactions) transaction batch with
            | .committed after _ _ =>
              executionsLoop sha256 contract schemas context env remaining (transactions + 1)
                (events + batch.length) (after.withCore after.core.advanceGeneration)
            | _ => []
  | _ => []

def executions (sha256 : Sha256) (contract : ProjectionContract S E) (schemas : (i : ι) → EventSchema (T i))
    (context : Nat → Context) (env : Nat → TransactionEnv ι T) (scheduler : CausalScheduler S ι T)
    : List (Execution ι T) :=
  if scheduler.core.draining then
    []
  else
    executionsLoop sha256 contract schemas context env scheduler.limits.maxTransactionsPerDrain 0 0
      (scheduler.withCore { scheduler.core with draining := true })

end CausalScheduler

section Core

-- The core inside of transaction `id`.
structure Inside (limits : CausalLimits) (id : Nat) (core : CausalCore ι T) : Prop where
  active : core.active = some id
  ready : core.ready = []
  deferred : core.deferred.length ≤ limits.maxEventsPerTransaction
  next : core.nextTransaction = id + 1

structure Between (limits : CausalLimits) (core : CausalCore ι T) : Prop where
  active : core.active = none
  deferred : core.deferred = []
  ready : core.ready.length ≤ limits.maxEventsPerTransaction
  next : core.nextTransaction < 2 ^ 64

structure Rested (core : CausalCore ι T) : Prop where
  phase : core.phase = .idle
  active : core.active = none
  draining : core.draining = false
  ready : core.ready = []
  deferred : core.deferred = []

variable {limits : CausalLimits} {id : Nat} {core : CausalCore ι T}

theorem Inside.enqueue (h : Inside limits id core) (index : ι) (payload : T index)
    : Inside limits id (core.enqueue limits index payload).1 := by
  unfold CausalCore.enqueue
  rw [h.active]
  dsimp only
  split
  . exact h
  . split
    . exact h
    . next hroom =>
      refine ⟨rfl, h.ready, ?_, h.next⟩
      dsimp only
      rw [List.length_append, List.length_singleton]
      omega

theorem Inside.enqueueAll (h : Inside limits id core) (events : List ((i : ι) × T i))
    : Inside limits id (core.enqueueAll limits events) := by
  induction events generalizing core with
  | nil => exact h
  | cons event rest ih => exact ih (h.enqueue event.1 event.2)

theorem Inside.setPhase (h : Inside limits id core) (phase : RuntimePhase) : Inside limits id (core.setPhase phase) :=
  ⟨h.active, h.ready, h.deferred, h.next⟩

theorem Between.take (h : Between limits core) {batch : List (QueuedEvent ι T)} {after : CausalCore ι T}
    (htake : core.takeTransaction = .ok (some (id, batch, after)))
    : Inside limits id after ∧ id = core.nextTransaction ∧ id + 1 < 2 ^ 64 ∧ batch = core.ready := by
  unfold CausalCore.takeTransaction at htake
  split at htake
  . cases htake
  . split at htake
    . cases htake
    . next hexhausted =>
      cases htake
      have hnext := h.next
      refine ⟨⟨rfl, rfl, ?_, rfl⟩, rfl, by omega, rfl⟩
      dsimp only
      rw [h.deferred]
      exact Nat.zero_le _

theorem Inside.advance (h : Inside limits id core) (hid : id + 1 < 2 ^ 64) : Between limits core.advanceGeneration :=
  ⟨rfl, rfl, h.deferred, h.next ▸ hid⟩

theorem Between.enqueue (h : Between limits core) (index : ι) (payload : T index)
    : Between limits (core.enqueue limits index payload).1
      ∧ (core.enqueue limits index payload).1.nextTransaction = core.nextTransaction
      ∧ (core.enqueue limits index payload).1.phase = core.phase
      ∧ (core.enqueue limits index payload).1.draining = core.draining := by
  unfold CausalCore.enqueue
  rw [h.active]
  dsimp only
  split
  . exact ⟨h, rfl, rfl, rfl⟩
  . next hroom =>
    refine ⟨⟨rfl, h.deferred, ?_, h.next⟩, rfl, rfl, rfl⟩
    dsimp only
    rw [List.length_append, List.length_singleton]
    omega

end Core

section Transactions

def Executed.after (executed : Executed S ι T) : CausalScheduler S ι T :=
  match executed with
  | .committed scheduler _ _ => scheduler
  | .rejected scheduler _ _ => scheduler
  | .unwound scheduler _ => scheduler

def Executed.receipt? (executed : Executed S ι T) : Option TransactionReceipt :=
  match executed with
  | .committed _ receipt _ => some receipt
  | .rejected _ receipt _ => some receipt
  | .unwound _ _ => none

variable {scheduler : CausalScheduler S ι T} {limits : CausalLimits} {id : Nat}

theorem currentPoint_core : (scheduler.currentPoint sha256 contract).1.core = scheduler.core
    ∧ (scheduler.currentPoint sha256 contract).1.limits = scheduler.limits := by
  unfold CausalScheduler.currentPoint
  split
  . exact ⟨rfl, rfl⟩
  . split
    . exact ⟨rfl, rfl⟩
    . exact ⟨rfl, rfl⟩

variable {remaining events : Nat}

theorem publish_core {context : Context} {env : TransactionEnv ι T} {candidate : Log}
    : (scheduler.publish sha256 contract context env candidate).1.core = scheduler.core
      ∧ (scheduler.publish sha256 contract context env candidate).1.limits = scheduler.limits := by
  unfold CausalScheduler.publish
  split
  . exact ⟨rfl, rfl⟩
  . exact ⟨rfl, rfl⟩

theorem executeTransaction_core {context : Context} {env : TransactionEnv ι T} {batch : List (QueuedEvent ι T)}
    (hinside : Inside scheduler.limits id scheduler.core)
    : let executed := scheduler.executeTransaction sha256 contract schemas context env id batch
      executed.after.limits = scheduler.limits ∧ Inside scheduler.limits id executed.after.core
      ∧ ∀ receipt ∈ executed.receipt?, receipt.transactionId = id := by
  dsimp only
  unfold CausalScheduler.executeTransaction
  have hpoint := @currentPoint_core S E ι T sha256 contract scheduler
  revert hpoint
  generalize scheduler.currentPoint sha256 contract = current
  intro hpoint
  obtain ⟨settled, result⟩ := current
  obtain ⟨hcore, hlimits⟩ := hpoint
  dsimp only at hcore hlimits
  cases result with
  | error error =>
    refine ⟨hlimits, ?_, nofun⟩
    unfold Executed.after
    dsimp only
    rw [hcore]
    exact hinside
  | ok before =>
    have hqueued : Inside scheduler.limits id (settled.core.enqueueAll settled.limits env.enqueued) := by
      rw [hcore, hlimits]
      exact hinside.enqueueAll env.enqueued
    dsimp only
    split
    . exact ⟨hlimits, hqueued, fun receipt hreceipt => by cases hreceipt; rfl⟩
    . exact ⟨hlimits, hqueued, fun receipt hreceipt => by cases hreceipt; rfl⟩
    . split
      . exact ⟨hlimits, hqueued.setPhase _, nofun⟩
      . split
        . exact ⟨hlimits, hqueued.setPhase _, fun receipt hreceipt => by cases hreceipt; rfl⟩
        . split
          . exact ⟨hlimits, (hqueued.setPhase _).setPhase _, fun receipt hreceipt => by cases hreceipt; rfl⟩
          . next stable _ =>
            refine ⟨publish_core.2.trans hlimits, ?_, fun receipt hreceipt => by cases hreceipt; rfl⟩
            unfold Executed.after CausalScheduler.setPhase
            dsimp only
            rw [publish_core.1]
            exact ((hqueued.setPhase _).setPhase _).setPhase _ |>.setPhase _

-- What a drain executes from `scheduler` on, and how it leaves the scheduler.
structure Bounded (scheduler : CausalScheduler S ι T) (remaining events : Nat) (executions : List (Execution ι T))
    (after : CausalScheduler S ι T) : Prop where
  count : executions.length ≤ remaining
  batches : ∀ execution ∈ executions, execution.2.length ≤ scheduler.limits.maxEventsPerTransaction
  events : events + (executions.map (fun execution => execution.2.length)).sum ≤ scheduler.limits.maxEventsPerDrain
  ids : executions.map (fun execution => execution.1) = List.range' scheduler.core.nextTransaction executions.length
  fresh : scheduler.core.nextTransaction + executions.length ≤ after.core.nextTransaction
  next : after.core.nextTransaction < 2 ^ 64
  rested : Rested after.core
  limits : after.limits = scheduler.limits

theorem Bounded.stop {after : CausalScheduler S ι T} (hevents : events ≤ scheduler.limits.maxEventsPerDrain)
    (hfresh : scheduler.core.nextTransaction ≤ after.core.nextTransaction) (hnext : after.core.nextTransaction < 2 ^ 64)
    (hrested : Rested after.core) (hlimits : after.limits = scheduler.limits)
    : Bounded scheduler remaining events [] after :=
  ⟨Nat.zero_le _, nofun, hevents, rfl, hfresh, hnext, hrested, hlimits⟩

theorem Bounded.execute {remaining events id : Nat} {batch : List (QueuedEvent ι T)}
    {rest : List (Execution ι T)} {next after : CausalScheduler S ι T}
    (hid : id = scheduler.core.nextTransaction) (hnext : next.core.nextTransaction = id + 1)
    (hlimits : next.limits = scheduler.limits) (hbatch : batch.length ≤ scheduler.limits.maxEventsPerTransaction)
    (h : Bounded next remaining (events + batch.length) rest after)
    : Bounded scheduler (remaining + 1) events ((id, batch) :: rest) after := by
  have hcount := h.count
  have hevents := h.events
  have hfresh := h.fresh
  refine ⟨?_, ?_, ?_, ?_, ?_, h.next, h.rested, h.limits.trans hlimits⟩
  . rw [List.length_cons]
    omega
  . intro execution hmem
    cases hmem with
    | head => exact hbatch
    | tail _ hmem => exact hlimits ▸ h.batches execution hmem
  . rw [List.map_cons, List.sum_cons]
    rw [hlimits] at hevents
    dsimp only
    omega
  . rw [List.map_cons, List.length_cons, List.range'_succ, h.ids, hnext, ← hid]
  . rw [List.length_cons]
    omega

theorem Between.recovered (hbetween : Between scheduler.limits scheduler.core)
    (hevents : events ≤ scheduler.limits.maxEventsPerDrain)
    : Bounded scheduler remaining events [] (scheduler.withCore scheduler.core.recover) :=
  .stop hevents (Nat.le_refl _) hbetween.next ⟨rfl, rfl, rfl, rfl, rfl⟩ rfl

theorem Between.finished (hbetween : Between scheduler.limits scheduler.core)
    (hevents : events ≤ scheduler.limits.maxEventsPerDrain) (htake : scheduler.core.takeTransaction = .ok none)
    : Bounded scheduler remaining events [] (scheduler.withCore scheduler.core.finish) := by
  refine .stop hevents (Nat.le_refl _) hbetween.next ?_ rfl
  unfold CausalCore.takeTransaction at htake
  split at htake
  . next hempty => exact ⟨rfl, rfl, rfl, List.isEmpty_iff.mp hempty, hbetween.deferred⟩
  . split at htake
    . cases htake
    . cases htake

theorem Between.cleared {batch : List (QueuedEvent ι T)} {core : CausalCore ι T}
    (hbetween : Between scheduler.limits scheduler.core) (hevents : events ≤ scheduler.limits.maxEventsPerDrain)
    (htake : scheduler.core.takeTransaction = .ok (some (id, batch, core)))
    : Bounded scheduler remaining events [] (scheduler.withCore core.clearQueues.finish) := by
  obtain ⟨hinside, hid, hbound, -⟩ := hbetween.take htake
  have hnext : core.clearQueues.finish.nextTransaction = id + 1 := hinside.next
  refine .stop hevents ?_ ?_ ⟨rfl, rfl, rfl, rfl, rfl⟩ rfl
  . dsimp only [CausalScheduler.withCore]
    omega
  . dsimp only [CausalScheduler.withCore]
    omega

variable {context : Nat → Context} {env : Nat → TransactionEnv ι T}

theorem drainLoop_bounded
    {remaining transactions events : Nat} {postCommitError : Option CausalErrorKind} {done : List (Transaction S ι T)}
    (hbetween : Between scheduler.limits scheduler.core) (hevents : events ≤ scheduler.limits.maxEventsPerDrain)
    : Bounded scheduler remaining events
        (scheduler.executionsLoop sha256 contract schemas context env remaining transactions events)
        (scheduler.drainLoop sha256 contract schemas context env remaining transactions events postCommitError
          done).scheduler := by
  induction remaining generalizing scheduler transactions events postCommitError done with
  | zero =>
    unfold CausalScheduler.drainLoop CausalScheduler.executionsLoop
    cases htake : scheduler.core.takeTransaction with
    | error kind => exact hbetween.recovered hevents
    | ok taken =>
      cases taken with
      | none =>
        cases postCommitError with
        | none => exact hbetween.finished hevents htake
        | some kind => exact hbetween.finished hevents htake
      | some taken => exact hbetween.cleared hevents htake
  | succ remaining ih =>
    unfold CausalScheduler.drainLoop CausalScheduler.executionsLoop
    cases htake : scheduler.core.takeTransaction with
    | error kind => exact hbetween.recovered hevents
    | ok taken =>
      cases taken with
      | none =>
        cases postCommitError with
        | none => exact hbetween.finished hevents htake
        | some kind => exact hbetween.finished hevents htake
      | some taken =>
        obtain ⟨id, batch, core⟩ := taken
        obtain ⟨hinside, hid, hbound, hbatch⟩ := hbetween.take htake
        have hready : batch.length ≤ scheduler.limits.maxEventsPerTransaction := hbatch ▸ hbetween.ready
        dsimp only
        split
        . exact hbetween.cleared hevents htake
        . next hroom =>
          have hexecuted := @executeTransaction_core S E ι T sha256 contract schemas (scheduler.withCore core) id
            (context transactions) (env transactions) batch hinside
          dsimp only at hexecuted
          generalize (scheduler.withCore core).executeTransaction sha256 contract schemas (context transactions)
            (env transactions) id batch = executed at hexecuted
          obtain ⟨hlimits, hafter, -⟩ := hexecuted
          -- Every way out of the transaction goes on with its core, from the next id.
          have hevents' : events + batch.length ≤ executed.after.limits.maxEventsPerDrain := by
            rw [hlimits]
            exact Nat.le_of_not_gt hroom
          have hnext : executed.after.core.nextTransaction < 2 ^ 64 := hafter.next ▸ hbound
          cases executed with
          | committed after receipt failure =>
            have hgeneration : (after.withCore after.core.advanceGeneration).core.nextTransaction = id + 1 := hafter.next
            apply Bounded.execute hid hgeneration hlimits hready
            refine ih ?_ hevents'
            have hlimits' : after.limits = scheduler.limits := hlimits
            exact hlimits' ▸ hafter.advance hbound
          | rejected after receipt kind =>
            apply Bounded.execute hid hafter.next hlimits hready
            exact .stop hevents' (Nat.le_refl _) hnext ⟨rfl, rfl, rfl, rfl, rfl⟩ rfl
          | unwound after cause =>
            apply Bounded.execute hid hafter.next hlimits hready
            exact .stop hevents' (Nat.le_refl _) hnext ⟨rfl, rfl, rfl, rfl, rfl⟩ rfl

theorem drainLoop_transactions
    {remaining transactions events : Nat} {postCommitError : Option CausalErrorKind} {done : List (Transaction S ι T)}
    (hbetween : Between scheduler.limits scheduler.core)
    : let drained := scheduler.drainLoop sha256 contract schemas context env remaining transactions events postCommitError
        done
      ∃ lost, done.map (fun transaction => (transaction.receipt.transactionId, transaction.batch))
            ++ scheduler.executionsLoop sha256 contract schemas context env remaining transactions events
          = drained.transactions.map (fun transaction => (transaction.receipt.transactionId, transaction.batch)) ++ lost
        ∧ (lost ≠ [] → lost.length = 1 ∧ ∃ cause, drained.outcome = .unwound cause) := by
  dsimp only
  induction remaining generalizing scheduler transactions events postCommitError done with
  | zero =>
    unfold CausalScheduler.drainLoop CausalScheduler.executionsLoop
    cases scheduler.core.takeTransaction with
    | error kind => exact ⟨[], rfl, (absurd rfl ·)⟩
    | ok taken =>
      cases taken with
      | none =>
        cases postCommitError with
        | none => exact ⟨[], rfl, (absurd rfl ·)⟩
        | some kind => exact ⟨[], rfl, (absurd rfl ·)⟩
      | some taken => exact ⟨[], rfl, (absurd rfl ·)⟩
  | succ remaining ih =>
    unfold CausalScheduler.drainLoop CausalScheduler.executionsLoop
    cases htake : scheduler.core.takeTransaction with
    | error kind => exact ⟨[], rfl, (absurd rfl ·)⟩
    | ok taken =>
      cases taken with
      | none =>
        cases postCommitError with
        | none => exact ⟨[], rfl, (absurd rfl ·)⟩
        | some kind => exact ⟨[], rfl, (absurd rfl ·)⟩
      | some taken =>
        obtain ⟨id, batch, core⟩ := taken
        obtain ⟨hinside, hid, hbound, hbatch⟩ := hbetween.take htake
        dsimp only
        split
        . exact ⟨[], rfl, (absurd rfl ·)⟩
        . have hexecuted := @executeTransaction_core S E ι T sha256 contract schemas (scheduler.withCore core) id
            (context transactions) (env transactions) batch hinside
          dsimp only at hexecuted
          generalize (scheduler.withCore core).executeTransaction sha256 contract schemas (context transactions)
            (env transactions) id batch = executed at hexecuted
          obtain ⟨hlimits, hafter, hreceipt⟩ := hexecuted
          cases executed with
          | committed after receipt failure =>
            have hlimits' : after.limits = scheduler.limits := hlimits
            have hid' : receipt.transactionId = id := hreceipt receipt rfl
            have hrest := @ih (after.withCore after.core.advanceGeneration) (transactions + 1) (events + batch.length)
              (postCommitError <|> failure)
                (done ++ [(scheduler.withCore core).record after (env transactions) batch receipt])
              (hlimits' ▸ hafter.advance hbound)
            rw [List.map_append, List.append_assoc] at hrest
            unfold CausalScheduler.record at hrest ⊢
            rw [List.map_singleton, hid'] at hrest
            exact hrest
          | rejected after receipt kind =>
            have hid' : receipt.transactionId = id := hreceipt receipt rfl
            refine ⟨[], ?_, (absurd rfl ·)⟩
            dsimp only
            rw [List.map_append, List.append_nil]
            unfold CausalScheduler.record
            rw [List.map_singleton, hid']
          | unwound after cause => exact ⟨[(id, batch)], rfl, fun _ => ⟨rfl, cause, rfl⟩⟩

end Transactions

section Runs

-- The executions of a step: `state` reads the projection and executes nothing.
def CausalScheduler.stepExecutions (sha256 : Sha256) (contract : ProjectionContract S E)
    (schemas : (i : ι) → EventSchema (T i)) (scheduler : CausalScheduler S ι T) (label : SchedulerStep ι T)
    : List (Execution ι T) :=
  match label with
  | .enqueue _ _ => []
  | .drain context env => scheduler.executions sha256 contract schemas context env
  | .dispatch index payload context env =>
    match scheduler.enqueue index payload with
    | (_, .error _) => []
    | (queued, .ok _) => queued.executions sha256 contract schemas context env
  | .state => []

structure Watched (S ι : Type) (T : ι → Type) where
  scheduler : CausalScheduler S ι T
  executed : List Nat

def Watched.startsFrom (sha256 : Sha256) (contract : ProjectionContract S E) (initial : S) (watched : Watched S ι T)
    : Prop :=
  watched.scheduler.startsFrom sha256 contract initial ∧ watched.executed = []

def Watched.step (sha256 : Sha256) (contract : ProjectionContract S E) (schemas : (i : ι) → EventSchema (T i))
    (watched : Watched S ι T) (label : SchedulerStep ι T) : Option (Watched S ι T) :=
  let executions := watched.scheduler.stepExecutions sha256 contract schemas label
  match watched.scheduler.step sha256 contract schemas label with
  | none => none
  | some after => some ⟨after, watched.executed ++ executions.map (fun execution => execution.1)⟩

structure Scheduled (watched : Watched S ι T) : Prop where
  valid : watched.scheduler.limits.valid = true
  between : Between watched.scheduler.limits watched.scheduler.core
  phase : watched.scheduler.core.phase = .idle
  draining : watched.scheduler.core.draining = false
  distinct : watched.executed.Nodup
  below : ∀ id ∈ watched.executed, id < watched.scheduler.core.nextTransaction

variable {watched : Watched S ι T} {initial : S}

theorem drain_bounded {scheduler : CausalScheduler S ι T} {context : Nat → Context} {env : Nat → TransactionEnv ι T}
    (hbetween : Between scheduler.limits scheduler.core) (hdraining : scheduler.core.draining = false)
    : Bounded scheduler scheduler.limits.maxTransactionsPerDrain 0
        (scheduler.executions sha256 contract schemas context env)
        (scheduler.drain sha256 contract schemas context env).scheduler := by
  unfold CausalScheduler.drain CausalScheduler.executions
  rw [hdraining]
  have hloop := @drainLoop_bounded S E ι T sha256 contract schemas
    (scheduler.withCore { scheduler.core with draining := true }) context env scheduler.limits.maxTransactionsPerDrain 0
    0 none [] ⟨hbetween.active, hbetween.deferred, hbetween.ready, hbetween.next⟩ (Nat.zero_le _)
  exact ⟨hloop.count, hloop.batches, hloop.events, hloop.ids, hloop.fresh, hloop.next, hloop.rested, hloop.limits⟩

theorem Scheduled.drain (h : Scheduled watched) {context : Nat → Context} {env : Nat → TransactionEnv ι T}
    : Scheduled ⟨(watched.scheduler.drain sha256 contract schemas context env).scheduler,
        watched.executed ++ (watched.scheduler.executions sha256 contract schemas context env).map
          (fun execution => execution.1)⟩ := by
  have hbounded := @drain_bounded S E ι T sha256 contract schemas watched.scheduler context env h.between h.draining
  have hrested := hbounded.rested
  have hlimits := hbounded.limits
  have hfresh := hbounded.fresh
  refine ⟨hlimits ▸ h.valid, ⟨hrested.active, hrested.deferred, ?_, hbounded.next⟩, hrested.phase, hrested.draining,
    ?_, ?_⟩
  . rw [hrested.ready]
    exact Nat.zero_le _
  . dsimp only
    rw [hbounded.ids, List.nodup_append]
    refine ⟨h.distinct, List.nodup_range', ?_⟩
    intro earlier hearlier id hid
    have hbelow := h.below earlier hearlier
    have hrange := (List.mem_range'_1.mp hid).1
    omega
  . intro id hmem
    dsimp only at hmem ⊢
    rw [hbounded.ids, List.mem_append] at hmem
    rcases hmem with hearlier | hid
    . have hbelow := h.below id hearlier
      omega
    . have hrange := (List.mem_range'_1.mp hid).2
      omega

theorem Scheduled.enqueue (h : Scheduled watched) (index : ι) (payload : T index)
    : Scheduled ⟨(watched.scheduler.enqueue index payload).1, watched.executed⟩ := by
  obtain ⟨hbetween, hnext, hphase, hdraining⟩ := h.between.enqueue index payload
  refine ⟨h.valid, hbetween, hphase.trans h.phase, hdraining.trans h.draining, h.distinct, ?_⟩
  intro id hmem
  have hbelow := h.below id hmem
  exact hnext.symm ▸ hbelow

theorem state_core {scheduler : CausalScheduler S ι T} : (scheduler.state sha256 contract).1.core = scheduler.core
    ∧ (scheduler.state sha256 contract).1.limits = scheduler.limits := by
  unfold CausalScheduler.state
  split
  . exact ⟨rfl, rfl⟩
  . exact ⟨rfl, rfl⟩

theorem Scheduled.step {after : Watched S ι T} {label : SchedulerStep ι T} (h : Scheduled watched)
    (hstep : watched.step sha256 contract schemas label = some after)
    : Scheduled after := by
  unfold Watched.step at hstep
  cases label with
  | enqueue index payload =>
    cases hstep
    have henqueued := h.enqueue index payload
    unfold CausalScheduler.stepExecutions
    rw [List.map_nil, List.append_nil]
    exact henqueued
  | drain context env =>
    cases hstep
    exact h.drain
  | dispatch index payload context env =>
    cases hstep
    have henqueued := h.enqueue index payload
    unfold CausalScheduler.stepExecutions CausalScheduler.dispatch
    dsimp only
    generalize watched.scheduler.enqueue index payload = enqueued at henqueued
    obtain ⟨queued, ticket⟩ := enqueued
    cases ticket with
    | error kind =>
      dsimp only
      rw [List.map_nil, List.append_nil]
      exact henqueued
    | ok ticket =>
      have hidle : queued.core.draining = false := henqueued.draining
      dsimp only
      rw [hidle]
      exact Scheduled.drain henqueued
  | state =>
    cases hstep
    have hcore := @state_core S E ι T sha256 contract watched.scheduler
    refine ⟨hcore.2.symm ▸ h.valid, ?_, hcore.1.symm ▸ h.phase, hcore.1.symm ▸ h.draining, ?_, ?_⟩
    . dsimp only
      rw [hcore.1, hcore.2]
      exact h.between
    . unfold CausalScheduler.stepExecutions
      rw [List.map_nil, List.append_nil]
      exact h.distinct
    . unfold CausalScheduler.stepExecutions
      rw [List.map_nil, List.append_nil]
      dsimp only
      rw [hcore.1]
      exact h.below

theorem Scheduled.start (h : watched.startsFrom sha256 contract initial) : Scheduled watched := by
  obtain ⟨⟨history, limits, hstart⟩, hnone⟩ := h
  unfold CausalScheduler.fromLog at hstart
  split at hstart
  . cases hstart
  . next hvalid =>
    have hlimits : limits.valid = true := by simpa using hvalid
    split at hstart
    . cases hstart
    . split at hstart
      . cases hstart
      . split at hstart
        . cases hstart
        . obtain ⟨scheduler, executed⟩ := watched
          cases hnone
          cases hstart
          exact ⟨hlimits, ⟨rfl, rfl, Nat.zero_le _, Nat.one_lt_two_pow (by decide)⟩, rfl, rfl, List.nodup_nil, nofun⟩

theorem scheduled_of_reach (h : Reach.Any (Watched.startsFrom sha256 contract initial)
      (Watched.step sha256 contract schemas) watched)
    : Scheduled watched :=
  h.invariant (fun _ hstart => Scheduled.start hstart) (fun _ _ _ hs _ hstep => hs.step hstep)

-- The next dispatch executes its event in a transaction of its own, under an id that no transaction had before. Once
-- the ids are exhausted it executes nothing.
def StartsFresh (sha256 : Sha256) (contract : ProjectionContract S E) (schemas : (i : ι) → EventSchema (T i))
    (watched : Watched S ι T) : Prop :=
  ∀ index payload context env,
    let next := watched.scheduler.core.nextTransaction
    let ticket : DispatchTicket := ⟨next, 1⟩
    let executions := watched.scheduler.stepExecutions sha256 contract schemas (.dispatch index payload context env)
    ∃ drained,
      (watched.scheduler.dispatch sha256 contract schemas context env index payload).2 = .ok (ticket, some drained)
      ∧ if next = 2 ^ 64 - 1 then
          executions = [] ∧ drained.outcome = .error .transactionIdExhausted []
        else
          next ∉ watched.executed ∧ ∃ rest, executions = (next, [⟨ticket, index, payload⟩]) :: rest

theorem enqueue_rested {limits : CausalLimits} {core : CausalCore ι T} (hrested : Rested core)
    (hvalid : limits.valid = true) (index : ι) (payload : T index)
    : core.enqueue limits index payload
      = ({ core with ready := [⟨⟨core.nextTransaction, 1⟩, index, payload⟩] }, .ok ⟨core.nextTransaction, 1⟩) := by
  have hmax : 0 < limits.maxEventsPerTransaction := by
    unfold CausalLimits.valid at hvalid
    simp only [Bool.and_eq_true, decide_eq_true_eq] at hvalid
    exact hvalid.1.1.1.1.1.1
  unfold CausalCore.enqueue
  rw [hrested.active, hrested.ready]
  dsimp only
  rw [List.length_nil, if_neg (Nat.not_le.mpr hmax)]
  rfl

def CausalScheduler.holding (scheduler : CausalScheduler S ι T) (index : ι) (payload : T index)
    : CausalScheduler S ι T :=
  scheduler.withCore { scheduler.core with ready := [⟨⟨scheduler.core.nextTransaction, 1⟩, index, payload⟩] }

theorem enqueue_holding {scheduler : CausalScheduler S ι T} (hrested : Rested scheduler.core)
    (hvalid : scheduler.limits.valid = true) (index : ι) (payload : T index)
    : scheduler.enqueue index payload
      = (scheduler.holding index payload, .ok ⟨scheduler.core.nextTransaction, 1⟩) := by
  unfold CausalScheduler.enqueue
  dsimp only
  rw [enqueue_rested hrested hvalid]
  rfl

theorem Scheduled.startsFresh (h : Scheduled watched) (hrested : Rested watched.scheduler.core)
    : StartsFresh sha256 contract schemas watched := by
  intro index payload context env
  have henqueue := enqueue_holding hrested h.valid index payload
  have hvalid := h.valid
  have hbelow := h.below
  unfold CausalLimits.valid at hvalid
  simp only [Bool.and_eq_true, decide_eq_true_eq] at hvalid
  obtain ⟨⟨⟨⟨⟨⟨hperTransaction, hperDrain⟩, hevents⟩, -⟩, -⟩, -⟩, -⟩ := hvalid
  dsimp only
  unfold CausalScheduler.stepExecutions CausalScheduler.dispatch
  dsimp only
  rw [henqueue]
  dsimp only
  have hidle : (watched.scheduler.holding index payload).core.draining = false := hrested.draining
  rw [hidle, if_neg Bool.false_ne_true]
  refine ⟨_, rfl, ?_⟩
  unfold CausalScheduler.drain CausalScheduler.executions
  rw [hidle, if_neg Bool.false_ne_true, if_neg Bool.false_ne_true]
  unfold CausalScheduler.drainLoop CausalScheduler.executionsLoop CausalCore.takeTransaction CausalScheduler.holding
    CausalScheduler.withCore
  dsimp only [List.isEmpty_cons]
  rw [if_neg Bool.false_ne_true]
  split
  . exact ⟨rfl, rfl⟩
  . refine ⟨fun hmem => Nat.lt_irrefl _ (hbelow _ hmem), ?_⟩
    dsimp only
    cases hremaining : watched.scheduler.limits.maxTransactionsPerDrain with
    | zero => omega
    | succ remaining =>
      dsimp only
      rw [if_neg (by rw [List.length_singleton]; omega)]
      exact ⟨_, rfl⟩

-- What one drain of `watched` does, whatever its effects enqueue.
structure Settles (sha256 : Sha256) (contract : ProjectionContract S E) (schemas : (i : ι) → EventSchema (T i))
    (watched : Watched S ι T) (context : Nat → Context) (env : Nat → TransactionEnv ι T)
    (executions : List (Execution ι T)) (drained : Drained S ι T) : Prop where
  count : executions.length ≤ watched.scheduler.limits.maxTransactionsPerDrain
  batches : ∀ execution ∈ executions, execution.2.length ≤ watched.scheduler.limits.maxEventsPerTransaction
  events : (executions.map (fun execution => execution.2.length)).sum ≤ watched.scheduler.limits.maxEventsPerDrain
  recorded : ∃ lost, executions
      = drained.transactions.map (fun transaction => (transaction.receipt.transactionId, transaction.batch)) ++ lost
    ∧ (lost ≠ [] → lost.length = 1 ∧ ∃ cause, drained.outcome = .unwound cause)
  rested : Rested drained.scheduler.core
  fresh : StartsFresh sha256 contract schemas
    ⟨drained.scheduler, watched.executed ++ executions.map (fun execution => execution.1)⟩

theorem drain_settles (h : Reach.Any (Watched.startsFrom sha256 contract initial)
      (Watched.step sha256 contract schemas) watched)
    : watched.executed.Nodup
      ∧ ∀ context env, Settles sha256 contract schemas watched context env
          (watched.scheduler.executions sha256 contract schemas context env)
          (watched.scheduler.drain sha256 contract schemas context env) := by
  have hscheduled := scheduled_of_reach h
  refine ⟨hscheduled.distinct, fun context env => ?_⟩
  have hbounded := @drain_bounded S E ι T sha256 contract schemas watched.scheduler context env hscheduled.between
    hscheduled.draining
  refine ⟨hbounded.count, hbounded.batches, ?_, ?_, hbounded.rested,
    hscheduled.drain.startsFresh hbounded.rested⟩
  . have hevents := hbounded.events
    omega
  . unfold CausalScheduler.drain CausalScheduler.executions
    rw [hscheduled.draining]
    have hbetween := hscheduled.between
    exact @drainLoop_transactions S E ι T sha256 contract schemas
      (watched.scheduler.withCore { watched.scheduler.core with draining := true }) context env
      watched.scheduler.limits.maxTransactionsPerDrain 0 0 none []
      ⟨hbetween.active, hbetween.deferred, hbetween.ready, hbetween.next⟩

theorem drain_settles_after_note
    : ∃ watched : Watched Nat Unit (fun _ => Unit),
        watched.executed = [1]
        ∧ watched.executed.Nodup
        ∧ ∀ context env, Settles sha256Digest Replica.noteContract (fun _ => Replica.noteSchema) watched context env
            (watched.scheduler.executions sha256Digest Replica.noteContract (fun _ => Replica.noteSchema) context env)
            (watched.scheduler.drain sha256Digest Replica.noteContract (fun _ => Replica.noteSchema) context env) := by
  have hrun : (noteScheduler.toOption.bind (fun scheduler =>
      Watched.step sha256Digest Replica.noteContract (fun _ => Replica.noteSchema) ⟨scheduler, []⟩
        (.dispatch () () outside noteEnv))).map (fun watched => watched.executed) = some [1] := by
    decide +kernel
  cases hstart : noteScheduler with
  | error kind =>
    rw [hstart] at hrun
    cases hrun
  | ok scheduler =>
    rw [hstart] at hrun
    have hinit : Watched.startsFrom sha256Digest Replica.noteContract 0 ⟨scheduler, []⟩ := ⟨⟨_, _, hstart⟩, rfl⟩
    exact ⟨_, Option.some.inj hrun,
      drain_settles (.step (.init hinit) trivial rfl (a := .dispatch () () outside noteEnv))⟩

end Runs

def panickingEnv : Nat → TransactionEnv ι T :=
  fun _ =>
    {
      enqueued := []
      appendPanics := some 0
      preparePanics := false
      effectsRead := false
      effectsPanic := false
      dropPanics := false
    }

section Exhausted

variable {scheduler : CausalScheduler S ι T}

theorem drain_rested {context : Nat → Context} {env : Nat → TransactionEnv ι T} (hrested : Rested scheduler.core)
    : (scheduler.drain sha256 contract schemas context env).scheduler = scheduler := by
  obtain ⟨core, log, projection, limits⟩ := scheduler
  obtain ⟨phase, active, next, ready, deferred, draining⟩ := core
  obtain ⟨hphase, hactive, hdraining, hready, hdeferred⟩ := hrested
  dsimp only at hphase hactive hdraining hready hdeferred
  subst hphase hactive hdraining hready hdeferred
  unfold CausalScheduler.drain CausalScheduler.drainLoop
  rfl

theorem executeTransaction_panics {context : Context} {id : Nat} {queued : QueuedEvent ι T}
    {batch : List (QueuedEvent ι T)} {after : CausalScheduler S ι T} {receipt : TransactionReceipt}
    {failure : Option CausalErrorKind}
    : scheduler.executeTransaction sha256 contract schemas context (panickingEnv 0) id (queued :: batch)
      ≠ .committed after receipt failure := by
  unfold CausalScheduler.executeTransaction
  split
  . nofun
  . nofun

theorem dispatch_panics {scheduler : CausalScheduler S ι T} (hrested : Rested scheduler.core)
    (hvalid : scheduler.limits.valid = true) (hnext : scheduler.core.nextTransaction < 2 ^ 64 - 1)
    (context : Nat → Context)
    (index : ι) (payload : T index)
    : let after := (scheduler.dispatch sha256 contract schemas context panickingEnv index payload).1
      Rested after.core ∧ after.limits = scheduler.limits
      ∧ after.core.nextTransaction = scheduler.core.nextTransaction + 1 := by
  have henqueue := enqueue_holding hrested hvalid index payload
  unfold CausalLimits.valid at hvalid
  simp only [Bool.and_eq_true, decide_eq_true_eq] at hvalid
  obtain ⟨⟨⟨⟨⟨⟨hperTransaction, hperDrain⟩, hevents⟩, -⟩, -⟩, -⟩, -⟩ := hvalid
  have hidle : (scheduler.holding index payload).core.draining = false := hrested.draining
  dsimp only
  unfold CausalScheduler.dispatch
  rw [henqueue]
  dsimp only
  rw [hidle, if_neg Bool.false_ne_true]
  unfold CausalScheduler.drain
  rw [hidle, if_neg Bool.false_ne_true]
  have hlimits : (scheduler.holding index payload).limits = scheduler.limits := rfl
  rw [hlimits]
  cases hremaining : scheduler.limits.maxTransactionsPerDrain with
  | zero => omega
  | succ remaining =>
    unfold CausalScheduler.drainLoop CausalCore.takeTransaction CausalScheduler.holding CausalScheduler.withCore
    dsimp only [List.isEmpty_cons]
    rw [if_neg Bool.false_ne_true, if_neg (by omega)]
    dsimp only
    rw [if_neg (by rw [List.length_singleton]; omega)]
    generalize hstart : CausalScheduler.mk (CausalCore.mk _ _ _ _ _ _) _ _ _ = start
    have hinside : Inside start.limits scheduler.core.nextTransaction start.core := by
      subst hstart
      refine ⟨rfl, rfl, ?_, rfl⟩
      dsimp only
      rw [hrested.deferred]
      exact Nat.zero_le _
    have hsame : start.limits = scheduler.limits := hstart ▸ rfl
    have hpanics := @executeTransaction_panics S E ι T sha256 contract schemas start (context 0)
      scheduler.core.nextTransaction ⟨⟨scheduler.core.nextTransaction, 1⟩, index, payload⟩ []
    have hexecuted := @executeTransaction_core S E ι T sha256 contract schemas start scheduler.core.nextTransaction
      (context 0) (panickingEnv 0) [⟨⟨scheduler.core.nextTransaction, 1⟩, index, payload⟩] hinside
    dsimp only at hexecuted
    generalize start.executeTransaction sha256 contract schemas (context 0) (panickingEnv 0)
      scheduler.core.nextTransaction [⟨⟨scheduler.core.nextTransaction, 1⟩, index, payload⟩] = executed at hexecuted hpanics
    obtain ⟨hkept, hafter, -⟩ := hexecuted
    cases executed with
    | committed after receipt failure => exact absurd rfl hpanics
    | rejected after receipt kind => exact ⟨⟨rfl, rfl, rfl, rfl, rfl⟩, hkept.trans hsame, hafter.next⟩
    | unwound after cause => exact ⟨⟨rfl, rfl, rfl, rfl, rfl⟩, hkept.trans hsame, hafter.next⟩

theorem reaches_next {initial : S} (hstart : scheduler.startsFrom sha256 contract initial)
    (hrested : Rested scheduler.core) (hnext : scheduler.core.nextTransaction = 1) (index : ι) (payload : T index)
    (context : Nat → Context) (n : Nat) (hn : n + 1 < 2 ^ 64)
    : ∃ watched, Reach.Any (Watched.startsFrom sha256 contract initial) (Watched.step sha256 contract schemas) watched
        ∧ Rested watched.scheduler.core ∧ watched.scheduler.core.nextTransaction = n + 1 := by
  induction n with
  | zero => exact ⟨⟨scheduler, []⟩, .init ⟨hstart, rfl⟩, hrested, hnext⟩
  | succ n ih =>
    obtain ⟨watched, hreach, hrested, hnext⟩ := ih (by omega)
    have hvalid := (scheduled_of_reach hreach).valid
    have hafter := @dispatch_panics S E ι T sha256 contract schemas watched.scheduler hrested hvalid (by omega) context
      index payload
    dsimp only at hafter
    refine ⟨_, .step hreach trivial rfl (a := .dispatch index payload context panickingEnv), hafter.1, ?_⟩
    rw [← hnext]
    exact hafter.2.2

end Exhausted

theorem exhausted_ids_execute_nothing
    : ∃ watched : Watched Nat Unit (fun _ => Unit),
        Reach.Any (Watched.startsFrom sha256Digest Replica.noteContract 0)
          (Watched.step sha256Digest Replica.noteContract (fun _ => Replica.noteSchema)) watched
        ∧ let drained := watched.scheduler.drain sha256Digest Replica.noteContract (fun _ => Replica.noteSchema) outside
            noteEnv
          drained.scheduler.stepExecutions sha256Digest Replica.noteContract (fun _ => Replica.noteSchema)
            (.dispatch () () outside noteEnv) = [] := by
  have hstarts : noteScheduler.toOption.isSome = true := by decide +kernel
  cases hstart : noteScheduler with
  | error kind =>
    rw [hstart] at hstarts
    cases hstarts
  | ok scheduler =>
    have hfresh : Rested scheduler.core ∧ scheduler.core.nextTransaction = 1 := by
      unfold noteScheduler CausalScheduler.fromLog at hstart
      repeat' split at hstart
      all_goals cases hstart
      exact ⟨⟨rfl, rfl, rfl, rfl, rfl⟩, rfl⟩
    obtain ⟨watched, hreach, hrested, hnext⟩ := @reaches_next Nat Nat Unit (fun _ => Unit) sha256Digest
      Replica.noteContract (fun _ => Replica.noteSchema) scheduler 0 ⟨_, _, hstart⟩ hfresh.1 hfresh.2 () () outside
      (2 ^ 64 - 2) (by omega)
    obtain ⟨drained, -, hdispatched⟩ := @Scheduled.startsFresh Nat Nat Unit (fun _ => Unit) sha256Digest
      Replica.noteContract (fun _ => Replica.noteSchema) watched (scheduled_of_reach hreach) hrested () () outside noteEnv
    refine ⟨watched, hreach, ?_⟩
    dsimp only
    rw [drain_rested hrested]
    have hlast : watched.scheduler.core.nextTransaction = 2 ^ 64 - 1 := by omega
    rw [if_pos hlast] at hdispatched
    exact hdispatched.1

end Fold

end Pliego
