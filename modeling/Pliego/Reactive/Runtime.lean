import Pliego.Lib.Arena
import Pliego.Lib.Worklist

/-!
The runtime of `pliego-reactive`: the node arena, the frames of the running computations, and the
operations that change them without calling user code. User code is a program over the public
operations. Values, closures and cleanups are dropped without running any code of the runtime.
-/

namespace Pliego

namespace Reactive

abbrev NodeId := Arena.Handle

inductive OwnerError where
  | disposed
  | resourceDisposed
  | resourceBusy
  | alreadyOwned
  deriving DecidableEq, Repr

inductive Color where
  | clean
  | check
  | dirty
  deriving DecidableEq, Repr

def Color.rank (color : Color) : Nat :=
  match color with
  | .clean => 0
  | .check => 1
  | .dirty => 2

inductive Kind where
  | owner
  | signal
  | memo
  | effect
  deriving DecidableEq, Repr

/--
The equality callback of a memo, and how its answer is read.
-/
structure EqFn (V P : Type) where
  apply : V → V → P
  holds : V → Bool

/--
The public operations. A handle is the id of a node of its own kind, so an id of another kind is
handled as a stale one is.
-/
inductive Call (V P : Type) where
  | newSignal (value : V)
  | newMemo (f : P) (eq : EqFn V P)
  | newEffect (f : P)
  | newOwner
  | child (owner : NodeId)
  | ownerOnCleanup (owner : NodeId) (f : P)
  | ownerSignal (owner : NodeId) (value : V)
  | ownerMemo (owner : NodeId) (f : P) (eq : EqFn V P)
  | ownerEffect (owner : NodeId) (f : P)
  | adoptEffect (owner effect : NodeId)
  | ownerDispose (owner : NodeId)
  | isDisposed (owner : NodeId)
  | get (signal : NodeId)
  | getUntracked (signal : NodeId)
  | tryGet (signal : NodeId)
  | set (signal : NodeId) (value : V)
  | update (signal : NodeId) (f : V → P)
  | memoGet (memo : NodeId)
  | memoTryGet (memo : NodeId)
  | dispose (id : NodeId)
  | onCleanup (f : P)
  | untrack (f : P)

inductive Reply (V : Type) where
  | unit
  | id (id : NodeId)
  | value (value : V)
  | absent
  | flag (b : Bool)
  | refused (error : OwnerError)
  deriving DecidableEq, Repr

inductive Outcome (α : Type) where
  | ok (a : α)
  | panicked
  deriving DecidableEq, Repr

/--
A closure of the user: it ends with a value or panics, and it can call the public operations and read
state outside the runtime. The continuation of a call also receives its panic, so a panic is caught or
passed on.
-/
inductive Prog (V : Type) where
  | ret (value : V)
  | panic
  | ask (k : V → Prog V)
  | call (c : Call V (Prog V)) (k : Outcome (Reply V) → Prog V)

structure Node (V : Type) where
  kind : Kind
  color : Color
  owner : Option NodeId := none
  disposeRequested : Bool := false
  queued : Bool := false
  updating : Bool := false
  running : Bool := false
  retryNotify : Bool := false
  value : Option V := none
  compute : Option (Prog V) := none
  eq : Option (EqFn V (Prog V)) := none
  sources : List NodeId := []
  subscribers : List NodeId := []
  owned : List NodeId := []
  cleanups : List (Prog V) := []

structure ComputationFrame (V : Type) where
  observer : NodeId
  sources : List NodeId := []
  owned : List NodeId := []
  cleanups : List (Prog V) := []

structure Runtime (V : Type) extends Arena (Node V) where
  observer : Option NodeId := none
  owner : Option NodeId := none
  -- the innermost computation first
  frames : List (ComputationFrame V) := []
  pending : List NodeId := []
  flushing : Bool := false
  batchDepth : Nat := 0
  deferredDisposals : List NodeId := []

-- `u32`: slot indices and generations
def arenaLimit : Nat := 4294967296

def minEffectRunsPerFlush : Nat := 1024

def effectRunsPerLiveNode : Nat := 256

def maxEffectRunsPerFlush : Nat := 1000000

namespace Runtime

variable {V : Type}

def initial : Runtime V := { Arena.empty with }

def node (rt : Runtime V) (id : NodeId) : Option (Node V) :=
  rt.toArena.get id

def modifyNode (rt : Runtime V) (id : NodeId) (f : Node V → Node V) : Runtime V :=
  { rt with toArena := rt.toArena.modify id f }

def resolve (rt : Runtime V) (kind : Kind) (id : NodeId) : Option (Node V) :=
  match rt.node id with
  | none => none
  | some node => if node.kind = kind then some node else none

def allocateNode (rt : Runtime V) (node : Node V) : Option (NodeId × Runtime V) :=
  match rt.toArena.insert arenaLimit node with
  | none => none
  | some (id, arena) => some (id, { rt with toArena := arena })

-- The allocations return no id when an expectation of theirs fails, which is a panic.
def addNode (rt : Runtime V) (node : Node V) : Option NodeId × Runtime V :=
  let owner := rt.owner.filter (fun owner => (rt.node owner).isSome)
  match rt.allocateNode { node with owner := owner } with
  | none => (none, rt)
  | some (id, rt) =>
    match owner with
    | none => (some id, rt)
    | some owner =>
      match rt.frames with
      | [] => (none, rt)
      | frame :: frames =>
        if frame.observer = owner then
          (some id, { rt with frames := { frame with owned := frame.owned ++ [id] } :: frames })
        else
          (none, rt)

def addRootNode (rt : Runtime V) (node : Node V) : Option NodeId × Runtime V :=
  match rt.allocateNode { node with owner := none } with
  | none => (none, rt)
  | some (id, rt) => (some id, rt)

def addOwnedNode (rt : Runtime V) (node : Node V) (owner : NodeId) : Option NodeId × Runtime V :=
  match rt.node owner with
  | none => (none, rt)
  | some ownerNode =>
    if ownerNode.kind = .owner ∧ ownerNode.disposeRequested = false then
      match rt.allocateNode { node with owner := some owner } with
      | none => (none, rt)
      | some (id, rt) =>
        (some id, rt.modifyNode owner (fun n => { n with owned := n.owned ++ [id] }))
    else
      (none, rt)

def deferOwnerDisposal (rt : Runtime V) (id : NodeId) : Runtime V :=
  match rt.node id with
  | none => rt
  | some node =>
    if node.disposeRequested then
      rt
    else
      { rt.modifyNode id (fun n => { n with disposeRequested := true }) with
        deferredDisposals := rt.deferredDisposals ++ [id] }

def takeNode (rt : Runtime V) (id : NodeId) : Option (Node V × Runtime V) :=
  match rt.toArena.remove arenaLimit id with
  | none => none
  | some (node, arena) => some (node, { rt with toArena := arena })

def enqueueEffect (rt : Runtime V) (id : NodeId) : Runtime V :=
  match rt.node id with
  | none => rt
  | some node =>
    if node.kind = .effect ∧ node.queued = false then
      { rt.modifyNode id (fun n => { n with queued := true }) with pending := rt.pending ++ [id] }
    else
      rt

def popPending.go (rt : Runtime V) (pending : List NodeId) : Option NodeId × Runtime V :=
  match pending with
  | [] => (none, { rt with pending := [] })
  | id :: rest =>
    match rt.node id with
    | none => go rt rest
    | some _ =>
      (some id, { rt.modifyNode id (fun n => { n with queued := false }) with pending := rest })

def popPending (rt : Runtime V) : Option NodeId × Runtime V :=
  popPending.go rt rt.pending

-- The work lists below visit each key once, so the edges and the first keys bound their length.
def edgeCount (rt : Runtime V) : Nat :=
  (rt.slots.map (fun slot => match slot.node with
    | none => 0
    | some node => node.sources.length + node.subscribers.length)).sum

def rearmVisit (rt : Runtime V) (source : NodeId) : Runtime V × List NodeId :=
  match rt.node source with
  | none => (rt, [])
  | some node =>
    if node.kind = .memo ∧ node.color = .dirty then
      (rt.modifyNode source (fun n => { n with retryNotify := true }), node.sources.reverse)
    else
      (rt, node.sources.reverse)

def rearmDiscardedEffect (rt : Runtime V) (effect : NodeId) : Runtime V :=
  match rt.node effect with
  | none => rt
  | some node =>
    (Worklist.run rearmVisit (node.sources.length + rt.edgeCount) [] rt node.sources.reverse).1

def clearPending (rt : Runtime V) : Runtime V :=
  let discarded := rt.pending.filter (fun id => (rt.node id).isSome)
  let rt := discarded.foldl (fun rt id => rt.modifyNode id (fun n => { n with queued := false }))
    { rt with pending := [] }
  discarded.foldl rearmDiscardedEffect rt

def abortPending (rt : Runtime V) (current : NodeId) : Runtime V :=
  (rt.rearmDiscardedEffect current).clearPending

def detach (rt : Runtime V) (id : NodeId) (node : Node V) : Runtime V :=
  let rt := { rt with
    pending := rt.pending.filter (· ≠ id)
    frames := rt.frames.map (fun frame => { frame with owned := frame.owned.filter (· ≠ id) }) }
  let rt := match node.owner with
    | none => rt
    | some owner => rt.modifyNode owner (fun n => { n with owned := n.owned.filter (· ≠ id) })
  let rt := node.sources.foldl (fun rt source =>
    rt.modifyNode source (fun n => { n with subscribers := n.subscribers.filter (· ≠ id) })) rt
  node.subscribers.foldl (fun rt subscriber =>
    rt.modifyNode subscriber (fun n => { n with sources := n.sources.filter (· ≠ id) })) rt

/--
Retire a node and everything it owns. The recursion stands for the task stack of the source: the newest
child is retired first, and the cleanups of a node come after those of its descendants. Each level has
taken a node, so the number of live nodes bounds the depth.
-/
def collectDisposal.go (fuel : Nat) (rt : Runtime V) (id : NodeId) : Runtime V × List (Prog V) :=
  match fuel with
  | 0 => (rt, [])
  | fuel + 1 =>
    match rt.takeNode id with
    | none => (rt, [])
    | some (node, rt) =>
      let children := node.owned.reverse.foldl (fun (acc : Runtime V × List (Prog V)) child =>
          ((go fuel acc.1 child).1, acc.2 ++ (go fuel acc.1 child).2))
        (rt.detach id node, [])
      (children.1, children.2 ++ node.cleanups.reverse)

def collectDisposal (rt : Runtime V) (id : NodeId) : Runtime V × List (Prog V) :=
  collectDisposal.go (rt.liveCount + 1) rt id

def collectAll (rt : Runtime V) (ids : List NodeId) : Runtime V × List (Prog V) :=
  ids.foldl (fun (acc : Runtime V × List (Prog V)) id =>
    ((acc.1.collectDisposal id).1, acc.2 ++ (acc.1.collectDisposal id).2)) (rt, [])

-- A chain of owners visits no slot twice, so the number of slots bounds the depth.
def disposableTreeIsBusy.go (rt : Runtime V) (fuel : Nat) (id : NodeId) : Bool :=
  match fuel with
  | 0 => false
  | fuel + 1 =>
    match rt.node id with
    | none => false
    | some node => node.updating || node.running || node.owned.any (go rt fuel)

def disposableTreeIsBusy (rt : Runtime V) (id : NodeId) : Bool :=
  disposableTreeIsBusy.go rt (rt.slots.length + 1) id

def assertDisposableTree (rt : Runtime V) (id : NodeId) : Bool :=
  !rt.disposableTreeIsBusy id

def takeReadyDeferredDisposal.go (rt : Runtime V) (queue kept : List NodeId)
    : Option (List (Prog V)) × Runtime V :=
  match queue with
  | [] => (none, { rt with deferredDisposals := kept })
  | id :: rest =>
    match rt.node id with
    | none => go rt rest kept
    | some node =>
      if node.disposeRequested = false then
        go rt rest kept
      else if rt.disposableTreeIsBusy id then
        go rt rest (kept ++ [id])
      else
        let rt := { rt.modifyNode id (fun n => { n with disposeRequested := false }) with
          deferredDisposals := rest ++ kept }
        (some (rt.collectDisposal id).2, (rt.collectDisposal id).1)

def takeReadyDeferredDisposal (rt : Runtime V) : Option (List (Prog V)) × Runtime V :=
  takeReadyDeferredDisposal.go rt rt.deferredDisposals []

def sourcesOf (rt : Runtime V) (id : NodeId) : List NodeId :=
  match rt.node id with
  | none => []
  | some node => node.sources

def sourceClosure (rt : Runtime V) (ids : List NodeId) : List NodeId :=
  (Worklist.run (fun (_ : Unit) source => ((), (rt.sourcesOf source).reverse))
    (ids.length + rt.edgeCount) [] () ids.reverse).2

def assertSignalWriteAllowed (rt : Runtime V) (id : NodeId) : Bool :=
  rt.frames.all (fun frame =>
    !(rt.sourceClosure (frame.sources ++ rt.sourcesOf frame.observer)).contains id)

-- `none` is the panic of an observer without its frame.
def track (rt : Runtime V) (source : NodeId) : Option (Runtime V) :=
  match rt.observer with
  | none => some rt
  | some observer =>
    if observer = source ∨ (rt.node source).isNone then
      some rt
    else
      match rt.frames with
      | [] => none
      | frame :: frames =>
        if frame.observer = observer then
          if source ∈ frame.sources then
            some rt
          else
            some { rt with frames := { frame with sources := frame.sources ++ [source] } :: frames }
        else
          none

structure Visit where
  id : NodeId
  color : Color
  force : Bool
  deriving DecidableEq

def recolor (color : Color) (node : Node V) : Node V :=
  { node with
    color := if node.color.rank < color.rank then color else node.color
    retryNotify := false }

def markVisit (rt : Runtime V) (visit : Visit) : Runtime V × List Visit :=
  match rt.node visit.id with
  | none => (rt, [])
  | some node =>
    let rt := rt.modifyNode visit.id (recolor visit.color)
    if node.kind = .effect then
      (rt.enqueueEffect visit.id, [])
    else if node.color.rank < visit.color.rank ∨ visit.force ∨ node.retryNotify then
      (rt, node.subscribers.map (⟨·, .check, visit.force || node.retryNotify⟩))
    else
      (rt, [])

def markSubscribersWithForce (rt : Runtime V) (of : NodeId) (color : Color) (force : Bool)
    : Runtime V :=
  match rt.node of with
  | none => rt
  | some node =>
    -- a node is visited at most once for each color and force
    (Worklist.run markVisit (node.subscribers.length + 6 * rt.edgeCount) [] rt
      (node.subscribers.map (⟨·, color, force⟩))).1

def markSubscribers (rt : Runtime V) (of : NodeId) (color : Color) : Runtime V :=
  rt.markSubscribersWithForce of color false

def liveSources (rt : Runtime V) (frame : ComputationFrame V) : List NodeId :=
  frame.sources.filter (fun source => (rt.node source).isSome)

-- The first half of `commit_computation`: the frame takes the place of the last run.
def installFrame (rt : Runtime V) (id : NodeId) (node : Node V) (frame : ComputationFrame V)
    (newValue : V) : Runtime V :=
  let rt := rt.modifyNode id (fun n => { n with sources := [], owned := [], cleanups := [] })
  let rt := node.sources.foldl (fun rt source =>
    rt.modifyNode source (fun n => { n with subscribers := n.subscribers.filter (· ≠ id) })) rt
  let newSources := rt.liveSources frame
  let rt := newSources.foldl (fun rt source =>
    rt.modifyNode source (fun n =>
      { n with
        subscribers := if id ∈ n.subscribers then n.subscribers else n.subscribers ++ [id] })) rt
  rt.modifyNode id (fun n =>
    { n with
      sources := newSources
      owned := frame.owned
      cleanups := frame.cleanups
      retryNotify := false
      value := if node.kind = .memo then some newValue else n.value
      color := .clean })

def notifySubscribers (rt : Runtime V) (id : NodeId) (node : Node V) (changed : Bool) : Runtime V :=
  if node.kind = .memo ∧ (changed ∨ node.retryNotify) then
    rt.markSubscribersWithForce id (if changed then .dirty else .check) node.retryNotify
  else
    rt

def commitComputation (rt : Runtime V) (id : NodeId) (node : Node V) (frame : ComputationFrame V)
    (newValue : V) (changed : Bool) : Runtime V × List (Prog V) :=
  let rt := (rt.installFrame id node frame newValue).notifySubscribers id node changed
  let old := rt.collectAll node.owned.reverse
  (old.1, old.2 ++ node.cleanups.reverse)

def maxExecutions (rt : Runtime V) : Nat :=
  min (max minEffectRunsPerFlush (rt.liveCount * effectRunsPerLiveNode)) maxEffectRunsPerFlush

end Runtime

end Reactive

end Pliego
