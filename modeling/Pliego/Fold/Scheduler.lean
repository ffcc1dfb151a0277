import Pliego.Fold.Projection
import Pliego.Lib.Reach

/-!
The causal scheduler of `pliego-fold`: the sole writer of a log, which runs queued events in transactions, folds each
batch into the projection and publishes the log. What application code does inside a transaction is given by a
`TransactionEnv`.
-/

namespace Pliego

namespace Fold

structure CausalLimits where
  maxEventsPerTransaction : Nat
  maxTransactionsPerDrain : Nat
  maxEventsPerDrain : Nat
  deriving DecidableEq

inductive RuntimePhase where
  | idle
  | collecting
  | reducing
  | planning
  | committing
  | runningEffects
  | recordingReceipt
  | recovering
  deriving DecidableEq, Repr

structure DispatchTicket where
  transaction : Nat
  ordinal : Nat
  deriving DecidableEq, Repr

structure ProjectionPoint where
  history : LogCursor
  stateRoot : StateRoot
  deriving DecidableEq

inductive TransactionOutcome where
  | committed
  | rejected
  deriving DecidableEq, Repr

inductive TransactionFailure where
  | eventRejected
  | eventPanicked
  | projectionRejected
  | effectPanicked
  | stateDropPanicked
  deriving DecidableEq, Repr

structure TransactionReceipt where
  contract : String
  transactionId : Nat
  outcome : TransactionOutcome
  attemptedEvents : Nat
  committedEvents : Nat
  before : ProjectionPoint
  after : ProjectionPoint
  failure : Option TransactionFailure
  deriving DecidableEq

inductive CausalErrorKind where
  | invalidLimits
  | reentrantDrain
  | queueLimit (maximum : Nat)
  | transactionLimit (maximum : Nat)
  | eventLimit (maximum : Nat)
  | transactionIdExhausted
  | eventRejected (error : LogError)
  | eventPanicked (transaction : Nat)
  | projectionRejected (error : ProjectionError)
  | effectPanicked (transaction : Nat)
  | stateDropPanicked (transaction : Nat)
  deriving DecidableEq

-- The kinds of an error that stops no drain.
def CausalErrorKind.afterCommit (kind : CausalErrorKind) : Bool :=
  match kind with
  | .effectPanicked _ => true
  | .stateDropPanicked _ => true
  | _ => false

def transactionReceiptContractV1 : String := "dev.pliegors.fold-transaction-receipt/v1"

def CausalLimits.valid (limits : CausalLimits) : Bool :=
  0 < limits.maxEventsPerTransaction
    && 0 < limits.maxTransactionsPerDrain
    && 0 < limits.maxEventsPerDrain
    && limits.maxEventsPerTransaction ≤ limits.maxEventsPerDrain
    && limits.maxEventsPerTransaction ≤ 1024
    && limits.maxTransactionsPerDrain ≤ 4096
    && limits.maxEventsPerDrain ≤ 65536

variable {S E ι : Type} {T : ι → Type}

structure QueuedEvent (ι : Type) (T : ι → Type) where
  ticket : DispatchTicket
  index : ι
  payload : T index

structure CausalCore (ι : Type) (T : ι → Type) where
  phase : RuntimePhase
  active : Option Nat
  nextTransaction : Nat
  ready : List (QueuedEvent ι T)
  deferred : List (QueuedEvent ι T)
  draining : Bool

structure CausalScheduler (S ι : Type) (T : ι → Type) where
  core : CausalCore ι T
  log : Log
  projection : Projection S
  limits : CausalLimits

/--
Where in the reactive graph a batch is published: whether a computation is tracking its reads, and
whether a computation on the stack has read the log by then, in this run or in its last one,
directly or through memos. A serializer or reducer of the batch may bring such a read about, so that
two batches of one drain need not have the same context.
-/
structure Context where
  observer : Bool
  readsLog : Bool
  deriving DecidableEq

/--
`assert_signal_write_allowed` for the log inside a transaction. A tracking computation has read the
projection by then: `current_point` is a tracked read.
-/
def Context.writeAllowed (context : Context) : Bool :=
  !context.observer && !context.readsLog

structure TransactionEnv (ι : Type) (T : ι → Type) where
  enqueued : List ((i : ι) × T i)
  appendPanics : Option Nat
  preparePanics : Bool
  effectsRead : Bool
  effectsPanic : Bool
  dropPanics : Bool

namespace CausalCore

def enqueue (limits : CausalLimits) (core : CausalCore ι T) (index : ι) (payload : T index)
    : CausalCore ι T × Except CausalErrorKind DispatchTicket :=
  match core.active with
  | some active =>
    if active + 1 ≥ 2 ^ 64 then
      (core, .error .transactionIdExhausted)
    else if core.deferred.length ≥ limits.maxEventsPerTransaction then
      (core, .error (.queueLimit limits.maxEventsPerTransaction))
    else
      let ticket : DispatchTicket := ⟨active + 1, core.deferred.length + 1⟩
      ({ core with deferred := core.deferred ++ [⟨ticket, index, payload⟩] }, .ok ticket)
  | none =>
    if core.ready.length ≥ limits.maxEventsPerTransaction then
      (core, .error (.queueLimit limits.maxEventsPerTransaction))
    else
      let ticket : DispatchTicket := ⟨core.nextTransaction, core.ready.length + 1⟩
      ({ core with ready := core.ready ++ [⟨ticket, index, payload⟩] }, .ok ticket)

def enqueueAll (limits : CausalLimits) (core : CausalCore ι T) (events : List ((i : ι) × T i))
    : CausalCore ι T :=
  match events with
  | [] => core
  | event :: rest => enqueueAll limits (core.enqueue limits event.1 event.2).1 rest

-- What the caller of `enqueue` knows of its event: the ticket it is given, if it is given one.
def ticketed (returned : Except CausalErrorKind DispatchTicket) (index : ι) (payload : T index)
    : List (QueuedEvent ι T) :=
  match returned with
  | .ok ticket => [⟨ticket, index, payload⟩]
  | .error _ => []

def acceptedAll (limits : CausalLimits) (core : CausalCore ι T) (events : List ((i : ι) × T i))
    : List (QueuedEvent ι T) :=
  match events with
  | [] => []
  | event :: rest =>
    let enqueued := core.enqueue limits event.1 event.2
    ticketed enqueued.2 event.1 event.2 ++ acceptedAll limits enqueued.1 rest

def takeTransaction (core : CausalCore ι T)
    : Except CausalErrorKind (Option (Nat × List (QueuedEvent ι T) × CausalCore ι T)) :=
  if core.ready.isEmpty then
    .ok none
  else if core.nextTransaction = 2 ^ 64 - 1 then
    .error .transactionIdExhausted
  else
    let id := core.nextTransaction
    .ok (some (id, core.ready,
      {
        core with
        nextTransaction := id + 1
        active := some id
        phase := .collecting
        ready := []
      }))

def setPhase (core : CausalCore ι T) (phase : RuntimePhase) : CausalCore ι T :=
  { core with phase := phase }

def advanceGeneration (core : CausalCore ι T) : CausalCore ι T :=
  { core with ready := core.deferred, deferred := [], active := none, phase := .idle }

def clearQueues (core : CausalCore ι T) : CausalCore ι T :=
  { core with ready := [], deferred := [], active := none }

def finish (core : CausalCore ι T) : CausalCore ι T :=
  { core with phase := .idle, active := none, draining := false }

/--
The `Drop` of a `DrainGuard` that was not finished.
-/
def recover (core : CausalCore ι T) : CausalCore ι T :=
  { core with ready := [], deferred := [], active := none, draining := false, phase := .idle }

end CausalCore

-- `accepted` are the events that an `enqueue` made inside the transaction gave a ticket.
structure Transaction (S ι : Type) (T : ι → Type) where
  receipt : TransactionReceipt
  batch : List (QueuedEvent ι T)
  accepted : List (QueuedEvent ι T)
  logBefore : Log
  logAfter : Log
  stableBefore : Stable S
  stableAfter : Stable S

inductive Unwound where
  | settledPoint
  | application
  deriving DecidableEq, Repr

inductive Executed (S ι : Type) (T : ι → Type) where
  | committed (scheduler : CausalScheduler S ι T) (receipt : TransactionReceipt)
    (failure : Option CausalErrorKind)
  | rejected (scheduler : CausalScheduler S ι T) (receipt : TransactionReceipt)
    (kind : CausalErrorKind)
  | unwound (scheduler : CausalScheduler S ι T) (cause : Unwound)

/--
The loop of `execute_transaction` over its batch. `panicsAt` counts down to the serializer that
panics.
-/
def appendBatch (sha256 : Sha256) (schemas : (i : ι) → EventSchema (T i)) (panicsAt : Option Nat)
    (candidate : Log) (batch : List (QueuedEvent ι T)) : Attempt LogError Log :=
  match batch with
  | [] => .ok candidate
  | queued :: rest =>
    match panicsAt with
    | some 0 => .panicked
    | _ =>
      match candidate.appendTyped sha256 (schemas queued.index) queued.payload with
      | .error error => .err error
      | .ok candidate =>
        appendBatch sha256 schemas (panicsAt.map (fun n => n - 1)) candidate rest

def rejectedReceipt (transaction attempted : Nat) (point : ProjectionPoint)
    (failure : TransactionFailure) : TransactionReceipt where
  contract := transactionReceiptContractV1
  transactionId := transaction
  outcome := .rejected
  attemptedEvents := attempted
  committedEvents := 0
  before := point
  after := point
  failure := some failure

def committedFailure (env : TransactionEnv ι T) (effectPanicked : Bool)
    : Option TransactionFailure :=
  if effectPanicked then some .effectPanicked
  else if env.dropPanics then some .stateDropPanicked
  else none

def committedError (env : TransactionEnv ι T) (effectPanicked : Bool) (transaction : Nat)
    : Option CausalErrorKind :=
  if effectPanicked then some (.effectPanicked transaction)
  else if env.dropPanics then some (.stateDropPanicked transaction)
  else none

namespace CausalScheduler

def currentPoint (sha256 : Sha256) (contract : ProjectionContract S E) (scheduler : CausalScheduler S ι T)
    : CausalScheduler S ι T × Except ProjectionError ProjectionPoint :=
  match scheduler.projection.history sha256 contract scheduler.log with
  | (projection, .error error) => ({ scheduler with projection := projection }, .error error)
  | (projection, .ok history) =>
    match projection.stateRoot sha256 contract scheduler.log with
    | (projection, .error error) => ({ scheduler with projection := projection }, .error error)
    | (projection, .ok root) =>
      ({ scheduler with projection := projection }, .ok ⟨history, root⟩)

def setPhase (scheduler : CausalScheduler S ι T) (phase : RuntimePhase) : CausalScheduler S ι T :=
  { scheduler with core := scheduler.core.setPhase phase }

/--
`ReactiveLog::publish` and what the flush it starts does to the projection: the scheduler after it,
and whether it panicked.
-/
def publish (sha256 : Sha256) (contract : ProjectionContract S E) (context : Context)
    (env : TransactionEnv ι T) (scheduler : CausalScheduler S ι T) (candidate : Log)
    : CausalScheduler S ι T × Bool :=
  if !context.writeAllowed then
    (scheduler, true)
  else
    let projection := scheduler.projection.invalidate
    let projection :=
      if env.effectsRead then (projection.memoGet sha256 contract candidate).1 else projection
    ({ scheduler with log := candidate, projection := projection }, env.effectsPanic)

def executeTransaction (sha256 : Sha256) (contract : ProjectionContract S E)
    (schemas : (i : ι) → EventSchema (T i)) (context : Context) (env : TransactionEnv ι T)
    (scheduler : CausalScheduler S ι T) (transaction : Nat) (batch : List (QueuedEvent ι T))
    : Executed S ι T :=
  match scheduler.currentPoint sha256 contract with
  | (scheduler, .error _) => .unwound scheduler .settledPoint
  | (scheduler, .ok before) =>
    let scheduler :=
      { scheduler with core := scheduler.core.enqueueAll scheduler.limits env.enqueued }
    let reject (scheduler : CausalScheduler S ι T) (failure : TransactionFailure)
        (kind : CausalErrorKind) : Executed S ι T :=
      .rejected scheduler (rejectedReceipt transaction batch.length before failure) kind
    match appendBatch sha256 schemas env.appendPanics scheduler.log batch with
    | .err error => reject scheduler .eventRejected (.eventRejected error)
    | .panicked => reject scheduler .eventPanicked (.eventPanicked transaction)
    | .ok candidate =>
      let scheduler := scheduler.setPhase .reducing
      if env.preparePanics then
        .unwound scheduler .application
      else
        match prepareProjection sha256 contract candidate scheduler.projection.stable with
        | .error error => reject scheduler .projectionRejected (.projectionRejected error)
        | .ok prepared =>
          let scheduler := scheduler.setPhase .committing
          match commitStable scheduler.projection.stable prepared with
          | .error error => reject scheduler .projectionRejected (.projectionRejected error)
          | .ok stable =>
            let scheduler := scheduler.setPhase .runningEffects
            let committed :=
              { scheduler with projection := { scheduler.projection with stable := stable } }
            match committed.publish sha256 contract context env candidate with
            | (published, panicked) =>
              .committed (published.setPhase .recordingReceipt)
                {
                  contract := transactionReceiptContractV1
                  transactionId := transaction
                  outcome := .committed
                  attemptedEvents := batch.length
                  committedEvents := batch.length
                  before := before
                  after := ⟨prepared.nextHistory, prepared.stateRoot⟩
                  failure := committedFailure env panicked
                }
                (committedError env panicked transaction)

end CausalScheduler

inductive DrainOutcome where
  | report (receipts : List TransactionReceipt)
  | error (kind : CausalErrorKind) (receipts : List TransactionReceipt)
  | unwound (cause : Unwound)
  deriving DecidableEq

def DrainOutcome.receipts (outcome : DrainOutcome) : List TransactionReceipt :=
  match outcome with
  | .report receipts => receipts
  | .error _ receipts => receipts
  | .unwound _ => []

def DrainOutcome.kind? (outcome : DrainOutcome) : Option CausalErrorKind :=
  match outcome with
  | .error kind _ => some kind
  | _ => none

-- The loop of the drain has come to the end of the queue.
def DrainOutcome.finished (outcome : DrainOutcome) : Bool :=
  match outcome with
  | .report _ => true
  | .error kind _ => kind.afterCommit
  | .unwound _ => false

structure Drained (S ι : Type) (T : ι → Type) where
  scheduler : CausalScheduler S ι T
  outcome : DrainOutcome
  transactions : List (Transaction S ι T)

namespace CausalScheduler

def withCore (scheduler : CausalScheduler S ι T) (core : CausalCore ι T)
    : CausalScheduler S ι T :=
  { scheduler with core := core }

def record (before after : CausalScheduler S ι T) (env : TransactionEnv ι T)
    (batch : List (QueuedEvent ι T)) (receipt : TransactionReceipt) : Transaction S ι T where
  receipt := receipt
  batch := batch
  accepted := before.core.acceptedAll before.limits env.enqueued
  logBefore := before.log
  logAfter := after.log
  stableBefore := before.projection.stable
  stableAfter := after.projection.stable

/--
The loop of `drain`. `remaining` is what `max_transactions_per_drain` still allows.
-/
def drainLoop (sha256 : Sha256) (contract : ProjectionContract S E)
    (schemas : (i : ι) → EventSchema (T i)) (context : Nat → Context)
    (env : Nat → TransactionEnv ι T)
    (remaining transactions events : Nat) (postCommitError : Option CausalErrorKind)
    (done : List (Transaction S ι T)) (scheduler : CausalScheduler S ι T) : Drained S ι T :=
  let receipts := done.map (fun transaction => transaction.receipt)
  match scheduler.core.takeTransaction with
  | .error kind => ⟨scheduler.withCore scheduler.core.recover, .error kind [], done⟩
  | .ok none =>
    let scheduler := scheduler.withCore scheduler.core.finish
    match postCommitError with
    | some kind => ⟨scheduler, .error kind receipts, done⟩
    | none => ⟨scheduler, .report receipts, done⟩
  | .ok (some (transaction, batch, core)) =>
    let limits := scheduler.limits
    match remaining with
    | 0 =>
      ⟨scheduler.withCore core.clearQueues.finish,
        .error (.transactionLimit limits.maxTransactionsPerDrain) receipts, done⟩
    | remaining + 1 =>
      if events + batch.length > limits.maxEventsPerDrain then
        ⟨scheduler.withCore core.clearQueues.finish,
          .error (.eventLimit limits.maxEventsPerDrain) receipts, done⟩
      else
        let started := scheduler.withCore core
        match started.executeTransaction sha256 contract schemas (context transactions)
            (env transactions) transaction batch with
        | .unwound after cause => ⟨after.withCore after.core.recover, .unwound cause, done⟩
        | .rejected after receipt kind =>
          let done := done ++ [record started after (env transactions) batch receipt]
          ⟨after.withCore after.core.clearQueues.finish,
            .error kind (done.map (fun transaction => transaction.receipt)), done⟩
        | .committed after receipt failure =>
          drainLoop sha256 contract schemas context env remaining (transactions + 1)
            (events + batch.length) (postCommitError <|> failure)
            (done ++ [record started after (env transactions) batch receipt])
            (after.withCore after.core.advanceGeneration)

def drain (sha256 : Sha256) (contract : ProjectionContract S E)
    (schemas : (i : ι) → EventSchema (T i)) (context : Nat → Context)
    (env : Nat → TransactionEnv ι T)
    (scheduler : CausalScheduler S ι T) : Drained S ι T :=
  if scheduler.core.draining then
    ⟨scheduler, .error .reentrantDrain [], []⟩
  else
    drainLoop sha256 contract schemas context env scheduler.limits.maxTransactionsPerDrain 0 0 none
      [] (scheduler.withCore { scheduler.core with draining := true })

def enqueue (scheduler : CausalScheduler S ι T) (index : ι) (payload : T index)
    : CausalScheduler S ι T × Except CausalErrorKind DispatchTicket :=
  let enqueued := scheduler.core.enqueue scheduler.limits index payload
  (scheduler.withCore enqueued.1, enqueued.2)

def dispatch (sha256 : Sha256) (contract : ProjectionContract S E)
    (schemas : (i : ι) → EventSchema (T i)) (context : Nat → Context)
    (env : Nat → TransactionEnv ι T)
    (scheduler : CausalScheduler S ι T) (index : ι) (payload : T index)
    : CausalScheduler S ι T × Except CausalErrorKind (DispatchTicket × Option (Drained S ι T)) :=
  match scheduler.enqueue index payload with
  | (scheduler, .error kind) => (scheduler, .error kind)
  | (scheduler, .ok ticket) =>
    if scheduler.core.draining then
      (scheduler, .ok (ticket, none))
    else
      let drained := scheduler.drain sha256 contract schemas context env
      (drained.scheduler, .ok (ticket, some drained))

def state (sha256 : Sha256) (contract : ProjectionContract S E)
    (scheduler : CausalScheduler S ι T) : CausalScheduler S ι T × Except CausalErrorKind S :=
  match scheduler.projection.tryGet sha256 contract scheduler.log with
  | (projection, .error error) =>
    ({ scheduler with projection := projection }, .error (.projectionRejected error))
  | (projection, .ok state) => ({ scheduler with projection := projection }, .ok state)

def fromLog (sha256 : Sha256) (contract : ProjectionContract S E) (history : Log) (initial : S)
    (limits : CausalLimits) : Except CausalErrorKind (CausalScheduler S ι T) :=
  if !limits.valid then
    .error .invalidLimits
  else
    match history.verify sha256 with
    | .error error => .error (.eventRejected error)
    | .ok () =>
      match Projection.new contract history initial with
      | .error error => .error (.projectionRejected error)
      | .ok projection =>
        match projection.tryGet sha256 contract history with
        | (_, .error error) => .error (.projectionRejected error)
        | (projection, .ok _) => .ok ⟨⟨.idle, none, 1, [], [], false⟩, history, projection, limits⟩

end CausalScheduler

end Fold

end Pliego
