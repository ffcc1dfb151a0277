import Pliego.Dom.KeyedLayout

/-!
The placement loop of a keyed view: walking from the last row to the first, the rows behind the anchor stand in their
order, and the marked rows before it have not moved.
-/

namespace Pliego.Keyed

open Siblings

variable {K N : Type} [DecidableEq N]

namespace DomCall

def moved? (call : DomCall N) : Option N :=
  match call with
  | .move node _ => some node
  | _ => none

def inserted? (call : DomCall N) : Option (List N) :=
  match call with
  | .insert fragment _ => some fragment
  | _ => none

def retired? (call : DomCall N) : Option N :=
  match call with
  | .retire node => some node
  | _ => none

end DomCall

abbrev MarkedRow (K N : Type) := PlannedKeyedRow K N × Bool

namespace MarkedRow

def nodes (row : MarkedRow K N) : List N := row.1.snapshot.nodes

def kept (row : MarkedRow K N) : Bool := row.1.oldIndex.isSome && row.2

def unmarked (row : MarkedRow K N) : Bool := row.1.oldIndex.isSome && !row.2

def fresh (row : MarkedRow K N) : Bool := row.1.oldIndex.isNone

end MarkedRow

def rowCalls (anchor : N) (row : MarkedRow K N) : List (DomCall N) :=
  match row with
  | (.retained _ _, true) => []
  | (.retained _ snapshot, false) => snapshot.nodes.map (DomCall.move · anchor)
  | (.fresh _ staged, _) => [.insert staged.nodes anchor]

-- The nodes that do not stand where they belong: those of dropped rows and of unmarked rows that are still to be placed.
def staleNodes (dropped : List N) (todo : List (MarkedRow K N)) : List N :=
  dropped ++ (todo.filter MarkedRow.unmarked).flatMap MarkedRow.nodes

variable {front tail dropped : List N} {todo : List (MarkedRow K N)} {row : MarkedRow K N} {state : Placing N}

-- The loop with `todo` still to be placed: the other children are the marked rows and what comes from the anchor on.
structure Placed (front dropped : List N) (todo : List (MarkedRow K N)) (tail : List N) (state : Placing N) : Prop where
  nodup : state.children.Nodup
  anchor : tail.head? = some state.anchor
  live : state.children.filter (fun child => decide (child ∉ staleNodes dropped todo))
    = front ++ ((todo.filter MarkedRow.kept).flatMap MarkedRow.nodes ++ tail)
  fresh : ∀ row ∈ todo, row.fresh = true → ∀ node ∈ row.nodes, node ∉ state.children

omit [DecidableEq N] in
theorem staleNodes_snoc
    : staleNodes dropped (todo ++ [row]) = staleNodes dropped todo ++ (if row.unmarked then row.nodes else []) := by
  unfold staleNodes
  rw [List.filter_append, List.flatMap_append, List.append_assoc]
  cases hrow : row.unmarked with
  | true => rw [List.filter_cons_of_pos hrow, if_pos rfl, List.filter_nil, List.flatMap_singleton]
  | false => rw [List.filter_cons_of_neg (Bool.eq_false_iff.mp hrow), if_neg Bool.false_ne_true]; rfl

omit [DecidableEq N] in
theorem kept_snoc
    : ((todo ++ [row]).filter MarkedRow.kept).flatMap MarkedRow.nodes
      = (todo.filter MarkedRow.kept).flatMap MarkedRow.nodes ++ (if row.kept then row.nodes else []) := by
  rw [List.filter_append, List.flatMap_append]
  cases hrow : row.kept with
  | true => rw [List.filter_cons_of_pos hrow, if_pos rfl, List.filter_nil, List.flatMap_singleton]
  | false => rw [List.filter_cons_of_neg (Bool.eq_false_iff.mp hrow), if_neg Bool.false_ne_true]; rfl

omit [DecidableEq N] in
theorem mem_staleNodes {node : N} (h : node ∈ staleNodes dropped todo) : node ∈ dropped ++ todo.flatMap MarkedRow.nodes := by
  unfold staleNodes at h
  rw [List.mem_append] at h ⊢
  apply h.imp_right
  intro hnode
  obtain ⟨other, hother, hnode⟩ := List.mem_flatMap.mp hnode
  exact List.mem_flatMap.mpr ⟨other, List.mem_of_mem_filter hother, hnode⟩

omit [DecidableEq N] in
theorem nodes_disjoint (hnodes : (dropped ++ (todo ++ [row]).flatMap MarkedRow.nodes).Nodup)
    : row.nodes.Nodup ∧ (dropped ++ todo.flatMap MarkedRow.nodes).Nodup
      ∧ ∀ node ∈ row.nodes, node ∉ dropped ++ todo.flatMap MarkedRow.nodes := by
  rw [List.flatMap_append, List.flatMap_singleton, ← List.append_assoc, List.nodup_append] at hnodes
  exact ⟨hnodes.2.1, hnodes.1, fun node hnode hother => hnodes.2.2 node hother node hnode rfl⟩

theorem Placed.anchor_live (h : Placed front dropped todo tail state) : state.anchor ∉ staleNodes dropped todo := by
  have hanchor : state.anchor ∈ state.children.filter (fun child => decide (child ∉ staleNodes dropped todo)) := by
    rw [h.live]
    exact List.mem_append_right _ (List.mem_append_right _ (List.mem_of_head? h.anchor))
  exact of_decide_eq_true (List.mem_filter.mp hanchor).2

theorem Placed.inserted (h : Placed front dropped (todo ++ [row]) tail state) {rest : List N}
    (hrest : tail = state.anchor :: rest) (hbounded : row.1.snapshot.Bounded)
    (hnodes : (dropped ++ (todo ++ [row]).flatMap MarkedRow.nodes).Nodup) {after : List N} {calls : List (DomCall N)}
    (hafter : Inserted (fun child => decide (child ∉ staleNodes dropped todo)) row.nodes state.children
      (front ++ (todo.filter MarkedRow.kept).flatMap MarkedRow.nodes) (state.anchor :: rest) after)
    : Placed front dropped todo (row.nodes ++ tail) ⟨row.1.snapshot.start, after, calls⟩ := by
  obtain ⟨-, -, hdisjoint⟩ := nodes_disjoint hnodes
  refine ⟨hafter.nodup, ?_, ?_, ?_⟩
  . obtain ⟨inner, hinner⟩ := hbounded.nodes_cons
    unfold MarkedRow.nodes
    rw [hinner]
    rfl
  . rw [hrest, ← List.append_assoc]
    exact hafter.filter
  . intro other hother hfresh node hnode hchild
    cases (hafter.mem node).mp hchild with
    | inl hrow =>
      exact hdisjoint node hrow (List.mem_append_right _ (List.mem_flatMap.mpr ⟨other, hother, hnode⟩))
    | inr hold => exact h.fresh other (List.mem_append_left _ hother) hfresh node hnode hold

theorem placeRow_placed (h : Placed front dropped (todo ++ [row]) tail state) (hbounded : row.1.snapshot.Bounded)
    (hnodes : (dropped ++ (todo ++ [row]).flatMap MarkedRow.nodes).Nodup)
    : ∃ after, placeRow state row = some after ∧ Placed front dropped todo (row.nodes ++ tail) after
        ∧ after.calls = state.calls ++ rowCalls state.anchor row := by
  obtain ⟨hself, -, hdisjoint⟩ := nodes_disjoint hnodes
  obtain ⟨rest, hrest⟩ : ∃ rest, tail = state.anchor :: rest := List.head?_eq_some_iff.mp h.anchor
  have hlive := h.live
  have hanchor := h.anchor_live
  have hnodesLive : ∀ node ∈ row.nodes, decide (node ∉ staleNodes dropped todo) = true :=
    fun node hnode => decide_eq_true (fun hstale => hdisjoint node hnode (mem_staleNodes hstale))
  rw [staleNodes_snoc] at hlive hanchor
  rw [kept_snoc] at hlive
  obtain ⟨planned, mark⟩ := row
  cases planned with
  | retained oldIndex snapshot =>
    cases mark with
    -- A marked row is where it belongs, and the anchor goes to its start.
    | true =>
      refine ⟨_, rfl, ⟨h.nodup, ?_, ?_, ?_⟩, (List.append_nil _).symm⟩
      . obtain ⟨inner, hinner⟩ := hbounded.nodes_cons
        unfold MarkedRow.nodes
        rw [hinner]
        rfl
      . rw [if_neg (by exact Bool.false_ne_true), if_pos (by rfl), List.append_nil, List.append_assoc] at hlive
        exact hlive
      . exact fun other hother => h.fresh other (List.mem_append_left _ hother)
    -- An unmarked row is moved before the anchor node by node.
    | false =>
      rw [if_pos (by rfl)] at hlive hanchor
      rw [if_neg (by exact Bool.false_ne_true), List.append_nil, ← List.append_assoc, hrest] at hlive
      have hfilter : state.children.filter (fun child => decide (child ∉ staleNodes dropped todo)
          && decide (child ∉ snapshot.nodes))
          = (front ++ (todo.filter MarkedRow.kept).flatMap MarkedRow.nodes) ++ state.anchor :: rest := by
        rw [← hlive]
        apply List.filter_congr
        intro child hchild
        rw [← Bool.decide_and, decide_eq_decide, List.mem_append, not_or]
        exact Iff.rfl
      have hne : state.anchor ∉ snapshot.nodes := fun hmem => hanchor (List.mem_append_right _ hmem)
      obtain ⟨after, hafter, hinserted⟩ := @insertEach_inserted N _ _ _ _ snapshot.nodes _ _ h.nodup hself hne hnodesLive
        hfilter
      refine ⟨⟨snapshot.start, after, state.calls ++ snapshot.nodes.map (DomCall.move · state.anchor)⟩, ?_, ?_, rfl⟩
      . unfold placeRow
        dsimp only
        rw [hafter]
        rfl
      . exact h.inserted hrest hbounded hnodes hinserted
  | fresh key staged =>
    rw [if_neg (by exact Bool.false_ne_true), if_neg (by exact Bool.false_ne_true), List.append_nil, List.append_nil,
      ← List.append_assoc, hrest] at hlive
    obtain ⟨after, hafter, hinserted⟩ := @insertFragment_inserted N _ _ _ _ staged.nodes _ _ h.nodup hself
      (h.fresh _ (List.mem_append_right _ (List.mem_singleton_self _)) rfl) hnodesLive hlive
    refine ⟨⟨staged.start, after, state.calls ++ [.insert staged.nodes state.anchor]⟩, ?_, ?_, rfl⟩
    . unfold placeRow
      dsimp only
      rw [hafter]
      rfl
    . exact h.inserted hrest hbounded hnodes hinserted

/-
Calls
-/

-- The calls of the loop: the unmarked rows are moved and the fresh ones inserted, from the last to the first.
structure CallsOf (todo : List (MarkedRow K N)) (calls : List (DomCall N)) : Prop where
  moved : calls.filterMap DomCall.moved? = (todo.filter MarkedRow.unmarked).reverse.flatMap MarkedRow.nodes
  inserted : calls.filterMap DomCall.inserted? = (todo.filter MarkedRow.fresh).reverse.map MarkedRow.nodes
  retired : calls.filterMap DomCall.retired? = []

omit [DecidableEq N] in
theorem filterMap_moves {nodes : List N} {anchor : N}
    : (nodes.map (DomCall.move · anchor)).filterMap DomCall.moved? = nodes
      ∧ (nodes.map (DomCall.move · anchor)).filterMap DomCall.inserted? = []
      ∧ (nodes.map (DomCall.move · anchor)).filterMap DomCall.retired? = [] := by
  rw [List.filterMap_map, List.filterMap_map, List.filterMap_map]
  exact ⟨List.filterMap_some, List.filterMap_none _, List.filterMap_none _⟩

omit [DecidableEq N] in
theorem CallsOf.snoc {calls : List (DomCall N)} (h : CallsOf todo calls) (anchor : N)
    : CallsOf (todo ++ [row]) (rowCalls anchor row ++ calls) := by
  have hsplit : ∀ select : MarkedRow K N → Bool,
      ((todo ++ [row]).filter select).reverse = ([row].filter select).reverse ++ (todo.filter select).reverse := by
    intro select
    rw [List.filter_append, List.reverse_append]
  have hmoves := @filterMap_moves N row.nodes anchor
  refine ⟨?_, ?_, ?_⟩
  . rw [List.filterMap_append, h.moved, hsplit, List.flatMap_append]
    congr 1
    match row with
    | (.retained _ _, true) => rfl
    | (.retained _ _, false) => exact hmoves.1.trans (List.append_nil _).symm
    | (.fresh _ _, _) => rfl
  . rw [List.filterMap_append, h.inserted, hsplit, List.map_append]
    congr 1
    match row with
    | (.retained _ _, true) => rfl
    | (.retained _ _, false) => exact hmoves.2.1
    | (.fresh _ _, _) => rfl
  . rw [List.filterMap_append, h.retired, List.append_nil]
    match row with
    | (.retained _ _, true) => rfl
    | (.retained _ _, false) => exact hmoves.2.2
    | (.fresh _ _, _) => rfl

theorem placeRows_placed (h : Placed front dropped todo tail state) (hbounded : ∀ row ∈ todo, row.1.snapshot.Bounded)
    (hnodes : (dropped ++ todo.flatMap MarkedRow.nodes).Nodup)
    : ∃ after calls, todo.reverse.foldlM placeRow state = some after
        ∧ Placed front dropped ([] : List (MarkedRow K N)) (todo.flatMap MarkedRow.nodes ++ tail) after
        ∧ after.calls = state.calls ++ calls ∧ CallsOf todo calls := by
  induction todo using List.reverseRecOn generalizing tail state with
  | nil => exact ⟨state, [], rfl, h, (List.append_nil _).symm, ⟨rfl, rfl, rfl⟩⟩
  | append_singleton todo row ih =>
    obtain ⟨next, hnext, hplaced, hcalls⟩ := placeRow_placed h
      (hbounded row (List.mem_append_right _ (List.mem_singleton_self _))) hnodes
    obtain ⟨after, calls, hafter, hdone, hrest, hof⟩ := ih hplaced
      (fun other hother => hbounded other (List.mem_append_left _ hother)) (nodes_disjoint hnodes).2.1
    refine ⟨after, rowCalls state.anchor row ++ calls, ?_, ?_, ?_, hof.snoc state.anchor⟩
    . rw [List.reverse_append, List.reverse_singleton, List.singleton_append, List.foldlM_cons, hnext]
      exact hafter
    . rw [List.flatMap_append, List.flatMap_singleton, List.append_assoc]
      exact hdone
    . rw [hrest, hcalls, List.append_assoc]

end Pliego.Keyed
