import Pliego.Reactive.Runtime
import Pliego.Lib.Reach

/-!
The operations that run user code, as a machine with an explicit stack. An activation is what a
function of the source still has to do once the code above it has ended; the guards of the source are
the fields an activation keeps. One step is one loop iteration or one call.
-/

namespace Pliego

namespace Reactive

structure PullFrame where
  id : NodeId
  -- the sources that have not been asked yet
  sources : List NodeId

/--
What follows the disposals of a batch and the deferred ones that have become ready.
-/
inductive After (V : Type) where
  | rollback (id : NodeId) (kind : Kind)
  | finish (result : Outcome (Reply V))
  | unwind

inductive Activation (V : Type) where
  | user (k : Outcome (Reply V) → Prog V)
  | untracked (previous : Option NodeId)
  | computing (id : NodeId) (previousObserver previousOwner : Option NodeId) (kind : Kind)
    (prevValue : Option V) (eq : Option (EqFn V (Prog V)))
  | comparing (id : NodeId) (previousObserver previousOwner : Option NodeId) (kind : Kind)
    (previous : Option NodeId) (newValue : V) (holds : V → Bool)
  | disposal (cleanups : List (Prog V)) (panicked : Bool) (previous : Option NodeId)
    (after : After V)
  | pulling (frames : List PullFrame) (active : List NodeId)
  | reading (id : NodeId)
  | tryReading (id : NodeId)
  | installing (id : NodeId)
  | uninstalling
  | updating (id : NodeId)
  | flushing (current : Option NodeId) (executions max : Nat) (panicked : Bool)
    (result : Outcome (Reply V))

inductive Control (V : Type) where
  | run (p : Prog V)
  -- a closure of the user has ended
  | done (outcome : Outcome V)
  -- a public operation, or a function it calls, has ended
  | ret (outcome : Outcome (Reply V))
  -- the loop of the topmost activation goes on
  | next
  -- a guard has found its frame or its node gone while it unwinds
  | aborted

structure Config (V : Type) where
  rt : Runtime V
  stack : List (Activation V)
  control : Control V

namespace Config

variable {V : Type}

def initial (c : Config V) : Prop :=
  ∃ p, c = ⟨.initial, [], .run p⟩

def pullFrame (id : NodeId) (node : Node V) : PullFrame :=
  { id := id, sources := node.sources }

def enterBatch (rt : Runtime V) : Runtime V :=
  { rt with batchDepth := rt.batchDepth + 1 }

-- A batch guard that is dropped while a panic unwinds does not flush.
def dropBatch (rt : Runtime V) : Runtime V :=
  { rt with batchDepth := rt.batchDepth - 1 }

def flushEffects (rt : Runtime V) (stack : List (Activation V)) (result : Outcome (Reply V))
    : Config V :=
  if rt.flushing then
    ⟨rt, stack, .ret result⟩
  else
    ⟨{ rt with flushing := true }, .flushing none 0 rt.maxExecutions false result :: stack, .next⟩

def finishBatch (rt : Runtime V) (stack : List (Activation V)) (result : Outcome (Reply V))
    : Config V :=
  match rt.batchDepth with
  | 0 => ⟨rt, stack, .aborted⟩
  | depth + 1 =>
    if depth = 0 then
      flushEffects { rt with batchDepth := depth } stack result
    else
      ⟨{ rt with batchDepth := depth }, stack, .ret result⟩

def runDisposal (rt : Runtime V) (stack : List (Activation V)) (cleanups : List (Prog V))
    (after : After V) : Config V :=
  ⟨{ rt with observer := none }, .disposal cleanups false rt.observer after :: stack, .next⟩

def finishDisposal (rt : Runtime V) (stack : List (Activation V)) (panicked : Bool)
    (after : After V) : Config V :=
  match after with
  | .rollback id kind =>
    let rt :=
      if kind = .memo then
        rt.modifyNode id (fun n => { n with retryNotify := true })
      else
        rt
    finishBatch rt stack .panicked
  | .finish result => finishBatch rt stack (if panicked then .panicked else result)
  | .unwind => ⟨dropBatch rt, stack, .ret .panicked⟩

def enterComputation (rt : Runtime V) (id : NodeId) : Runtime V :=
  { rt.modifyNode id (fun n => { n with running := true }) with
    observer := some id
    owner := some id
    frames := { observer := id } :: rt.frames }

def leaveComputation (rt : Runtime V) (id : NodeId) (previousObserver previousOwner : Option NodeId)
    (frames : List (ComputationFrame V)) : Runtime V :=
  { rt.modifyNode id (fun n => { n with running := false }) with
    observer := previousObserver
    owner := previousOwner
    frames := frames }

def runComputation (rt : Runtime V) (stack : List (Activation V)) (id : NodeId) : Config V :=
  match rt.node id with
  | none => ⟨rt, stack, .ret .panicked⟩
  | some node =>
    match node.compute with
    | none => ⟨rt, stack, .ret .panicked⟩
    | some compute =>
      if node.running then
        ⟨rt, stack, .ret .panicked⟩
      else
        ⟨enterComputation (enterBatch rt) id,
          .computing id rt.observer rt.owner node.kind node.value node.eq :: stack, .run compute⟩

/--
The frame a guard pops has to be its own, and the computation has to be live to publish.
-/
def finishComputation (rt : Runtime V) (stack : List (Activation V)) (id : NodeId)
    (previousObserver previousOwner : Option NodeId) (newValue : V) (changed : Bool) : Config V :=
  match rt.frames with
  | [] => ⟨rt, stack, .aborted⟩
  | frame :: frames =>
    if frame.observer = id then
      let left := leaveComputation rt id previousObserver previousOwner frames
      match left.node id with
      | none => ⟨left, stack, .aborted⟩
      | some node =>
        let retired := left.commitComputation id node frame newValue changed
        runDisposal retired.1 stack retired.2 (.finish (.ok .unit))
    else
      ⟨{ rt with frames := frames }, stack, .aborted⟩

def rollbackComputation (rt : Runtime V) (stack : List (Activation V)) (id : NodeId)
    (previousObserver previousOwner : Option NodeId) (kind : Kind) : Config V :=
  match rt.frames with
  | [] => ⟨rt, stack, .aborted⟩
  | frame :: frames =>
    if frame.observer = id then
      let left := leaveComputation rt id previousObserver previousOwner frames
      let retired := left.collectAll frame.owned.reverse
      runDisposal retired.1 stack (retired.2 ++ frame.cleanups.reverse) (.rollback id kind)
    else
      ⟨{ rt with frames := frames }, stack, .aborted⟩

/--
One iteration of `update_if_necessary`.
-/
def pull (rt : Runtime V) (stack : List (Activation V)) (frames : List PullFrame)
    (active : List NodeId) : Config V :=
  match frames with
  | [] => ⟨rt, stack, .ret (.ok .unit)⟩
  | current :: frames =>
    let rest := active.filter (· ≠ current.id)
    match rt.node current.id with
    | none => ⟨rt, .pulling frames rest :: stack, .next⟩
    | some node =>
      if node.color = .clean ∨ node.kind = .signal then
        ⟨rt, .pulling frames rest :: stack, .next⟩
      else if node.color = .dirty then
        runComputation rt (.pulling frames rest :: stack) current.id
      else
        match current.sources with
        | source :: sources =>
          match rt.node source with
          | none => ⟨rt, .pulling ({ current with sources := sources } :: frames) active :: stack, .next⟩
          | some sourceNode =>
            if source ∈ active then
              ⟨rt, stack, .ret .panicked⟩
            else
              ⟨rt, .pulling (pullFrame source sourceNode :: { current with sources := sources } :: frames)
                (source :: active) :: stack, .next⟩
        | [] =>
          ⟨rt.modifyNode current.id (fun n => { n with color := .clean }),
            .pulling frames rest :: stack, .next⟩

def updateIfNecessary (rt : Runtime V) (stack : List (Activation V)) (id : NodeId) : Config V :=
  match rt.node id with
  | none => ⟨rt, stack, .ret (.ok .unit)⟩
  | some node => ⟨rt, .pulling [pullFrame id node] [id] :: stack, .next⟩

/--
One iteration of `flush_effects`.
-/
def flush (rt : Runtime V) (stack : List (Activation V)) (executions max : Nat) (panicked : Bool)
    (result : Outcome (Reply V)) : Config V :=
  match rt.popPending with
  | (none, rt) =>
    ⟨{ rt with flushing := false }, stack, .ret (if panicked then .panicked else result)⟩
  | (some effect, rt) =>
    if executions + 1 > max then
      ⟨{ rt.abortPending effect with flushing := false }, stack, .ret .panicked⟩
    else
      updateIfNecessary rt (.flushing (some effect) (executions + 1) max panicked result :: stack)
        effect

def disposeNode (rt : Runtime V) (stack : List (Activation V)) (id : NodeId) : Config V :=
  if rt.assertDisposableTree id then
    let retired := (enterBatch rt).collectDisposal id
    runDisposal retired.1 stack retired.2 (.finish (.ok .unit))
  else
    ⟨rt, stack, .ret .panicked⟩

def disposeOwner (rt : Runtime V) (stack : List (Activation V)) (id : NodeId) : Config V :=
  let rt := enterBatch rt
  match rt.resolve .owner id with
  | none => runDisposal rt stack [] (.finish (.ok .unit))
  | some _ =>
    if rt.disposableTreeIsBusy id then
      runDisposal (rt.deferOwnerDisposal id) stack [] (.finish (.ok .unit))
    else
      runDisposal (rt.collectDisposal id).1 stack (rt.collectDisposal id).2 (.finish (.ok .unit))

def isAlive (rt : Runtime V) (owner : NodeId) : Bool :=
  match rt.resolve .owner owner with
  | none => false
  | some node => !node.disposeRequested

def ownerNode : Node V := { kind := .owner, color := .clean }

def signalNode (value : V) : Node V := { kind := .signal, color := .clean, value := some value }

def memoNode (f : Prog V) (eq : EqFn V (Prog V)) : Node V :=
  { kind := .memo, color := .dirty, compute := some f, eq := some eq }

def effectNode (f : Prog V) : Node V := { kind := .effect, color := .dirty, compute := some f }

def added (added : Option NodeId × Runtime V) (stack : List (Activation V)) : Config V :=
  match added with
  | (none, rt) => ⟨rt, stack, .ret .panicked⟩
  | (some id, rt) => ⟨rt, stack, .ret (.ok (.id id))⟩

def installed (added : Option NodeId × Runtime V) (stack : List (Activation V)) : Config V :=
  match added with
  | (none, rt) => ⟨rt, stack, .ret .panicked⟩
  | (some id, rt) => runComputation rt (.installing id :: stack) id

def adoptEffect (rt : Runtime V) (owner effect : NodeId) : Runtime V × Reply V :=
  if isAlive rt owner then
    match rt.resolve .effect effect with
    | none => (rt, .refused .resourceDisposed)
    | some resource =>
      if resource.running then
        (rt, .refused .resourceBusy)
      else
        match resource.owner with
        | some current =>
          if current = owner then (rt, .unit) else (rt, .refused .alreadyOwned)
        | none =>
          ((rt.modifyNode effect (fun n => { n with owner := some owner })).modifyNode owner
            (fun n => { n with owned := n.owned ++ [effect] }), .unit)
  else
    (rt, .refused .disposed)

-- `none` is the panic of an owner without its frame.
def onCleanup (rt : Runtime V) (f : Prog V) : Option (Runtime V) :=
  match rt.owner with
  | none => some rt
  | some owner =>
    match rt.frames with
    | [] => none
    | frame :: frames =>
      if frame.observer = owner then
        some { rt with frames := { frame with cleanups := frame.cleanups ++ [f] } :: frames }
      else
        none

def signalValue (rt : Runtime V) (id : NodeId) : Option V :=
  match rt.resolve .signal id with
  | none => none
  | some node => node.value

def readSignal (rt : Runtime V) (id : NodeId) : Outcome (Reply V) :=
  match signalValue rt id with
  | none => .panicked
  | some value => .ok (.value value)

-- The value a write replaces; `none` is the panic of a write that is not allowed.
def writable (rt : Runtime V) (id : NodeId) : Option V :=
  if rt.assertSignalWriteAllowed id then
    match rt.resolve .signal id with
    | none => none
    | some node => if node.updating then none else node.value
  else
    none

def publish (rt : Runtime V) (id : NodeId) (value : V) : Runtime V :=
  (rt.modifyNode id (fun n => { n with value := some value })).markSubscribers id .dirty

def call (rt : Runtime V) (stack : List (Activation V)) (c : Call V (Prog V)) : Config V :=
  match c with
  | .newSignal value => added (rt.addNode (signalNode value)) stack
  | .newMemo f eq => added (rt.addNode (memoNode f eq)) stack
  | .newEffect f => installed (rt.addNode (effectNode f)) stack
  | .newOwner => added (rt.addRootNode ownerNode) stack
  | .child owner =>
    if isAlive rt owner then
      added (rt.addOwnedNode ownerNode owner) stack
    else
      ⟨rt, stack, .ret (.ok (.refused .disposed))⟩
  | .ownerOnCleanup owner f =>
    if isAlive rt owner then
      ⟨rt.modifyNode owner (fun n => { n with cleanups := n.cleanups ++ [f] }), stack, .ret (.ok .unit)⟩
    else
      ⟨rt, stack, .ret (.ok (.refused .disposed))⟩
  | .ownerSignal owner value =>
    if isAlive rt owner then
      added (rt.addOwnedNode (signalNode value) owner) stack
    else
      ⟨rt, stack, .ret (.ok (.refused .disposed))⟩
  | .ownerMemo owner f eq =>
    if isAlive rt owner then
      added (rt.addOwnedNode (memoNode f eq) owner) stack
    else
      ⟨rt, stack, .ret (.ok (.refused .disposed))⟩
  | .ownerEffect owner f =>
    if isAlive rt owner then
      installed (rt.addOwnedNode (effectNode f) owner) stack
    else
      ⟨rt, stack, .ret (.ok (.refused .disposed))⟩
  | .adoptEffect owner effect =>
    ⟨(adoptEffect rt owner effect).1, stack, .ret (.ok (adoptEffect rt owner effect).2)⟩
  | .ownerDispose owner => disposeOwner rt stack owner
  | .isDisposed owner => ⟨rt, stack, .ret (.ok (.flag (!isAlive rt owner)))⟩
  | .get signal =>
    match rt.resolve .signal signal with
    | none => ⟨rt, stack, .ret .panicked⟩
    | some _ =>
      match rt.track signal with
      | none => ⟨rt, stack, .ret .panicked⟩
      | some rt => ⟨rt, stack, .ret (readSignal rt signal)⟩
  | .getUntracked signal => ⟨rt, stack, .ret (readSignal rt signal)⟩
  | .tryGet signal =>
    match signalValue rt signal with
    | none => ⟨rt, stack, .ret (.ok .absent)⟩
    | some value => ⟨rt, stack, .ret (.ok (.value value))⟩
  | .set signal value =>
    match writable rt signal with
    | none => ⟨rt, stack, .ret .panicked⟩
    | some _ => finishBatch (publish (enterBatch rt) signal value) stack (.ok .unit)
  | .update signal f =>
    match writable rt signal with
    | none => ⟨rt, stack, .ret .panicked⟩
    | some value =>
      ⟨(enterBatch rt).modifyNode signal (fun n => { n with updating := true }),
        .updating signal :: stack, .run (f value)⟩
  | .memoGet memo =>
    match rt.resolve .memo memo with
    | none => ⟨rt, stack, .ret .panicked⟩
    | some _ => updateIfNecessary rt (.reading memo :: stack) memo
  | .memoTryGet memo =>
    match rt.resolve .memo memo with
    | none => ⟨rt, stack, .ret (.ok .absent)⟩
    | some _ => updateIfNecessary rt (.tryReading memo :: stack) memo
  | .dispose id =>
    match rt.resolve .owner id with
    | none => disposeNode rt stack id
    | some _ => runDisposal (enterBatch rt) stack [] (.finish (.ok .unit))
  | .onCleanup f =>
    match onCleanup rt f with
    | none => ⟨rt, stack, .ret .panicked⟩
    | some rt => ⟨rt, stack, .ret (.ok .unit)⟩
  | .untrack f => ⟨{ rt with observer := none }, .untracked rt.observer :: stack, .run f⟩

-- `none` is the panic of a read that finds no value.
def readMemo (rt : Runtime V) (id : NodeId) : Option (Runtime V × Option V) :=
  match rt.track id with
  | none => none
  | some rt =>
    match rt.node id with
    | none => some (rt, none)
    | some node => some (rt, node.value)

/--
A closure of the user has ended below an activation of the runtime.
-/
def resume (rt : Runtime V) (stack : List (Activation V)) (outcome : Outcome V)
    : Option (Config V) :=
  match stack with
  | .untracked previous :: stack =>
    let rt := { rt with observer := previous }
    match outcome with
    | .ok value => some ⟨rt, stack, .ret (.ok (.value value))⟩
    | .panicked => some ⟨rt, stack, .ret .panicked⟩
  | .computing id previousObserver previousOwner kind prevValue eq :: stack =>
    match outcome with
    | .panicked => some (rollbackComputation rt stack id previousObserver previousOwner kind)
    | .ok value =>
      match prevValue, eq with
      | some prev, some eq =>
        some ⟨{ rt with observer := none },
          .comparing id previousObserver previousOwner kind rt.observer value eq.holds :: stack,
          .run (eq.apply prev value)⟩
      | _, _ =>
        some (finishComputation rt stack id previousObserver previousOwner value true)
  | .comparing id previousObserver previousOwner kind previous newValue holds :: stack =>
    let rt := { rt with observer := previous }
    match outcome with
    | .panicked => some (rollbackComputation rt stack id previousObserver previousOwner kind)
    | .ok value =>
      some (finishComputation rt stack id previousObserver previousOwner newValue (!holds value))
  | .disposal cleanups panicked previous after :: stack =>
    match outcome with
    | .ok _ => some ⟨rt, .disposal cleanups panicked previous after :: stack, .next⟩
    | .panicked => some ⟨rt, .disposal cleanups true previous after :: stack, .next⟩
  | .updating id :: stack =>
    match rt.node id with
    | none => some (runDisposal rt stack [] .unwind)
    | some _ =>
      match outcome with
      | .ok candidate =>
        some (runDisposal
          ((publish rt id candidate).modifyNode id (fun n => { n with updating := false }))
          stack [] (.finish (.ok .unit)))
      | .panicked =>
        some (runDisposal (rt.modifyNode id (fun n => { n with updating := false }))
          stack [] (.finish .panicked))
  | _ => none

/--
An operation has ended below the code that called it.
-/
def returned (rt : Runtime V) (stack : List (Activation V)) (outcome : Outcome (Reply V))
    : Option (Config V) :=
  match stack with
  | .user k :: stack => some ⟨rt, stack, .run (k outcome)⟩
  | .pulling frames active :: stack =>
    match outcome with
    | .ok _ => some ⟨rt, .pulling frames active :: stack, .next⟩
    | .panicked => some ⟨rt, stack, .ret .panicked⟩
  | .reading id :: stack =>
    match outcome with
    | .panicked => some ⟨rt, stack, .ret .panicked⟩
    | .ok _ =>
      match readMemo rt id with
      | none => some ⟨rt, stack, .ret .panicked⟩
      | some (rt, none) => some ⟨rt, stack, .ret .panicked⟩
      | some (rt, some value) => some ⟨rt, stack, .ret (.ok (.value value))⟩
  | .tryReading id :: stack =>
    match outcome with
    | .panicked => some ⟨rt, stack, .ret .panicked⟩
    | .ok _ =>
      match readMemo rt id with
      | none => some ⟨rt, stack, .ret .panicked⟩
      | some (rt, none) => some ⟨rt, stack, .ret (.ok .absent)⟩
      | some (rt, some value) => some ⟨rt, stack, .ret (.ok (.value value))⟩
  | .installing id :: stack =>
    match outcome with
    | .ok _ => some ⟨rt, stack, .ret (.ok (.id id))⟩
    | .panicked => some (disposeNode rt (.uninstalling :: stack) id)
  | .uninstalling :: stack => some ⟨rt, stack, .ret .panicked⟩
  | .flushing _ executions max panicked result :: stack =>
    match outcome with
    | .ok _ => some ⟨rt, .flushing none executions max panicked result :: stack, .next⟩
    | .panicked => some ⟨rt, .flushing none executions max true result :: stack, .next⟩
  | _ => none

def iterate (rt : Runtime V) (stack : List (Activation V)) : Option (Config V) :=
  match stack with
  | .disposal (cleanup :: cleanups) panicked previous after :: stack =>
    some ⟨rt, .disposal cleanups panicked previous after :: stack, .run cleanup⟩
  | .disposal [] panicked previous after :: stack =>
    match rt.takeReadyDeferredDisposal with
    | (some cleanups, rt) => some ⟨rt, .disposal cleanups panicked previous after :: stack, .next⟩
    | (none, rt) => some (finishDisposal { rt with observer := previous } stack panicked after)
  | .pulling frames active :: stack => some (pull rt stack frames active)
  | .flushing _ executions max panicked result :: stack =>
    some (flush rt stack executions max panicked result)
  | _ => none

def step (c : Config V) (answer : V) : Option (Config V) :=
  match c.control with
  | .run (.ret value) => some ⟨c.rt, c.stack, .done (.ok value)⟩
  | .run .panic => some ⟨c.rt, c.stack, .done .panicked⟩
  | .run (.ask k) => some ⟨c.rt, c.stack, .run (k answer)⟩
  | .run (.call operation k) => some (call c.rt (.user k :: c.stack) operation)
  | .done outcome => resume c.rt c.stack outcome
  | .ret outcome => returned c.rt c.stack outcome
  | .next => iterate c.rt c.stack
  | .aborted => none

/--
Between two operations of the outermost code.
-/
def Quiescent (c : Config V) : Prop :=
  c.stack = []

end Config

end Reactive

end Pliego
