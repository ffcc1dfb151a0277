import Pliego.Lib.Patience
import Pliego.Lib.Siblings

/-!
The update of a keyed view: the rows of the new keys are planned, placed among the siblings from the last one to the
first, and the rows of dropped keys are retired.
-/

namespace Pliego.Keyed

open Siblings

variable {K N : Type} [DecidableEq K] [DecidableEq N]

structure OwnedRangeSnapshot (N : Type) where
  start : N
  endNode : N
  nodes : List N

structure KeyedRow (K N : Type) where
  key : K
  scope : OwnedRangeSnapshot N

structure PendingKeyedRow (K N : Type) where
  key : K
  staged : OwnedRangeSnapshot N

inductive PlannedKeyedRow (K N : Type) where
  | retained (oldIndex : Nat) (snapshot : OwnedRangeSnapshot N)
  | fresh (key : K) (staged : OwnedRangeSnapshot N)

namespace PlannedKeyedRow

def oldIndex (row : PlannedKeyedRow K N) : Option Nat :=
  match row with
  | .retained oldIndex _ => some oldIndex
  | .fresh _ _ => none

def snapshot (row : PlannedKeyedRow K N) : OwnedRangeSnapshot N :=
  match row with
  | .retained _ snapshot => snapshot
  | .fresh _ staged => staged

end PlannedKeyedRow

def retainedPositions (rows : List (PlannedKeyedRow K N)) : List (Nat × Nat) :=
  rows.zipIdx.filterMap (fun row => row.1.oldIndex.map (fun index => (row.2, index)))

def keyedLis (rows : List (PlannedKeyedRow K N)) : Option (List Bool) :=
  Patience.marks rows.length (retainedPositions rows)

/-
Validation
-/

def validateBoundaryRange (children : List N) (start endNode : N) : Bool :=
  decide (start ∈ children) && decide (endNode ∈ children.dropWhile (fun child => decide (child ≠ start)))

-- The nodes are found one after the other from `cursor` on.
def followsFrom (children : List N) (cursor : Option N) (expected : List N) : Bool :=
  match expected with
  | [] => true
  | node :: rest =>
    match cursor with
    | none => false
    | some actual => decide (actual = node) && followsFrom children (nextSibling children actual) rest

def validateNodeSequence (children : List N) (row : OwnedRangeSnapshot N) : Bool :=
  validateBoundaryRange children row.start row.endNode
    && decide (row.nodes.head? = some row.start) && decide (row.nodes.getLast? = some row.endNode)
    && followsFrom children (some row.start) row.nodes

def validateRows (children : List N) (outerEnd : N) (cursor : Option N) (rows : List (OwnedRangeSnapshot N)) : Bool :=
  match rows with
  | [] => decide (cursor = some outerEnd)
  | row :: rest =>
    validateNodeSequence children row && decide (cursor = row.nodes.head?)
      && validateRows children outerEnd (nextSibling children row.endNode) rest

def validateKeyedLayout (children : List N) (outerStart outerEnd : N) (rows : List (OwnedRangeSnapshot N)) : Bool :=
  validateBoundaryRange children outerStart outerEnd
    && validateRows children outerEnd (nextSibling children outerStart) rows

/-
Planning
-/

def oldRow? (rows : List (KeyedRow K N)) (key : K) : Option (KeyedRow K N × Nat) :=
  (rows.zipIdx.filter (fun row => decide (row.1.key = key))).getLast?

def planRow (rows : List (KeyedRow K N)) (pending : PendingKeyedRow K N) : PlannedKeyedRow K N :=
  match oldRow? rows pending.key with
  | some (row, oldIndex) => .retained oldIndex row.scope
  | none => .fresh pending.key pending.staged

structure ReconcileKeyed where
  previousRows : Nat
  nextRows : Nat
  retainedRows : Nat
  movedRows : Nat
  insertedRows : Nat
  removedRows : Nat
deriving DecidableEq, Repr

def reconcileCounts (current : Nat) (planned : List (PlannedKeyedRow K N)) (keep : List Bool) : ReconcileKeyed :=
  let retainedRows := (planned.filter (fun row => row.oldIndex.isSome)).length
  let movedRows := ((planned.zip keep).filter (fun row => row.1.oldIndex.isSome && !row.2)).length
  ⟨current, planned.length, retainedRows, movedRows, planned.length - retainedRows, current - retainedRows⟩

/-
Placement
-/

inductive DomCall (N : Type) where
  | move (node anchor : N)
  | insert (fragment : List N) (anchor : N)
  | retire (node : N)

structure Placing (N : Type) where
  anchor : N
  children : List N
  calls : List (DomCall N)

def placeRow (state : Placing N) (row : PlannedKeyedRow K N × Bool) : Option (Placing N) :=
  match row with
  | (.retained _ snapshot, true) => some { state with anchor := snapshot.start }
  | (.retained _ snapshot, false) =>
    (snapshot.nodes.foldlM (fun children node => insertBefore node state.anchor children) state.children).map
      fun children => ⟨snapshot.start, children, state.calls ++ snapshot.nodes.map (DomCall.move · state.anchor)⟩
  | (.fresh _ staged, _) =>
    (insertFragment staged.nodes state.anchor state.children).map
      fun children => ⟨staged.start, children, state.calls ++ [.insert staged.nodes state.anchor]⟩

def placeRows (endNode : N) (children : List N) (rows : List (PlannedKeyedRow K N × Bool)) : Option (Placing N) :=
  rows.reverse.foldlM placeRow ⟨endNode, children, []⟩

def retainedFlags (current : Nat) (planned : List (PlannedKeyedRow K N)) : List Bool :=
  (planned.filterMap PlannedKeyedRow.oldIndex).foldl (fun retained index => retained.set index true)
    (List.replicate current false)

def retireNodes (state : Placing N) (nodes : List N) : Placing N :=
  { state with children := nodes.foldl List.erase state.children, calls := state.calls ++ nodes.map DomCall.retire }

def retireRows (rows : List (KeyedRow K N)) (retained : List Bool) (state : Placing N) : Placing N :=
  (rows.zip retained).foldl (fun state row => if row.2 then state else retireNodes state row.1.scope.nodes) state

/-
Ownership
-/

-- The rows as their new owner has them, and the old slots that are left.
def handOver (slots : List (Option (KeyedRow K N))) (planned : List (PlannedKeyedRow K N))
    : Option (List (KeyedRow K N) × List (Option (KeyedRow K N))) :=
  match planned with
  | [] => some ([], slots)
  | .retained oldIndex _ :: rest =>
    match slots[oldIndex]? with
    | some (some row) => (handOver (slots.set oldIndex none) rest).map (fun next => (row :: next.1, next.2))
    | _ => none
  | .fresh key staged :: rest => (handOver slots rest).map (fun next => (⟨key, staged⟩ :: next.1, next.2))

/-
The update
-/

-- A keyed view among the children of its parent. Its rows stand in order between its two boundaries.
structure KeyedSlot (K N : Type) [DecidableEq K] [DecidableEq N] where
  start : N
  endNode : N
  rows : List (KeyedRow K N)
  children : List N
  nodup : children.Nodup
  distinct : (rows.map KeyedRow.key).Nodup
  layout : validateKeyedLayout children start endNode (rows.map KeyedRow.scope) = true

structure Reconciled (K N : Type) where
  keep : List Bool
  counts : ReconcileKeyed
  children : List N
  calls : List (DomCall N)
  rows : List (KeyedRow K N)
  retired : List (KeyedRow K N)

def KeyedSlot.plan (slot : KeyedSlot K N) (pending : List (PendingKeyedRow K N)) : List (PlannedKeyedRow K N) :=
  pending.map (planRow slot.rows)

def reconcile (slot : KeyedSlot K N) (pending : List (PendingKeyedRow K N)) : Option (Reconciled K N) := do
  let planned := slot.plan pending
  let keep ← keyedLis planned
  let placed ← placeRows slot.endNode slot.children (planned.zip keep)
  let state := retireRows slot.rows (retainedFlags slot.rows.length planned) placed
  if validateKeyedLayout state.children slot.start slot.endNode (planned.map PlannedKeyedRow.snapshot) then
    let (rows, left) ← handOver (slot.rows.map some) planned
    some ⟨keep, reconcileCounts slot.rows.length planned keep, state.children, state.calls, rows, left.filterMap id⟩
  else
    none

end Pliego.Keyed
