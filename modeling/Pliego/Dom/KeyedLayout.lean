import Pliego.Dom.Keyed

/-!
What the validation of a keyed view says about the children of its parent.
-/

namespace Pliego.Keyed

open Siblings

variable {N : Type} [DecidableEq N] {children front tail back nodes : List N} {start endNode node : N}
  {row : OwnedRangeSnapshot N} {rows : List (OwnedRangeSnapshot N)}

theorem nextSibling_nodup (hnodup : (front ++ node :: back).Nodup) : nextSibling (front ++ node :: back) node = back.head? := by
  apply nextSibling_split
  exact fun hmem => (List.nodup_append.mp hnodup).2.2 node hmem node List.mem_cons_self rfl

theorem dropWhile_nodup (hnodup : (front ++ node :: back).Nodup)
    : (front ++ node :: back).dropWhile (fun child => decide (child ≠ node)) = node :: back := by
  apply dropWhile_split
  exact fun hmem => (List.nodup_append.mp hnodup).2.2 node hmem node List.mem_cons_self rfl

theorem validateBoundaryRange_iff (hnodup : (front ++ start :: back).Nodup)
    : validateBoundaryRange (front ++ start :: back) start endNode = true ↔ endNode ∈ start :: back := by
  unfold validateBoundaryRange
  rw [Bool.and_eq_true, decide_eq_true_eq, decide_eq_true_eq, dropWhile_nodup hnodup]
  exact and_iff_right (List.mem_append_right _ List.mem_cons_self)

theorem validateBoundaryRange_mem (h : validateBoundaryRange children start endNode = true) : start ∈ children := by
  unfold validateBoundaryRange at h
  rw [Bool.and_eq_true, decide_eq_true_eq] at h
  exact h.1

theorem followsFrom_iff (hnodup : (front ++ tail).Nodup)
    : followsFrom (front ++ tail) tail.head? nodes = true ↔ ∃ rest, tail = nodes ++ rest := by
  induction nodes generalizing front tail with
  | nil => exact iff_of_true rfl ⟨tail, rfl⟩
  | cons node nodes ih =>
    unfold followsFrom
    cases tail with
    | nil => exact iff_of_false Bool.false_ne_true (fun h => nomatch h.choose_spec)
    | cons actual tail =>
      dsimp only [List.head?_cons]
      rw [Bool.and_eq_true, decide_eq_true_eq, nextSibling_nodup hnodup]
      have happend : front ++ actual :: tail = (front ++ [actual]) ++ tail := by
        rw [List.append_assoc, List.singleton_append]
      rw [happend] at hnodup ⊢
      rw [ih hnodup]
      constructor
      . intro h
        obtain ⟨hsame, rest, hrest⟩ := h
        exact ⟨rest, by rw [hsame, hrest, List.cons_append]⟩
      . intro h
        obtain ⟨rest, hrest⟩ := h
        rw [List.cons_append, List.cons.injEq] at hrest
        exact ⟨hrest.1, rest, hrest.2⟩

structure OwnedRangeSnapshot.Bounded (row : OwnedRangeSnapshot N) : Prop where
  first : row.nodes.head? = some row.start
  last : row.nodes.getLast? = some row.endNode

omit [DecidableEq N] in
theorem OwnedRangeSnapshot.Bounded.nodes_cons (h : row.Bounded) : ∃ rest, row.nodes = row.start :: rest := by
  cases hnodes : row.nodes with
  | nil =>
    have hfirst := h.first
    rw [hnodes] at hfirst
    cases hfirst
  | cons node rest =>
    have hfirst := h.first
    rw [hnodes, List.head?_cons, Option.some.injEq] at hfirst
    rw [hfirst]
    exact ⟨rest, rfl⟩

omit [DecidableEq N] in
theorem OwnedRangeSnapshot.Bounded.nodes_snoc (h : row.Bounded) : ∃ rest, row.nodes = rest ++ [row.endNode] :=
  List.getLast?_eq_some_iff.mp h.last

theorem validateNodeSequence_iff (hnodup : (front ++ tail).Nodup) (hhead : tail.head? = some row.start)
    : validateNodeSequence (front ++ tail) row = true ↔ row.Bounded ∧ ∃ rest, tail = row.nodes ++ rest := by
  unfold validateNodeSequence
  rw [Bool.and_eq_true, Bool.and_eq_true, Bool.and_eq_true, decide_eq_true_eq, decide_eq_true_eq, ← hhead,
    followsFrom_iff hnodup]
  constructor
  . intro h
    obtain ⟨⟨⟨-, hfirst⟩, hlast⟩, hrest⟩ := h
    exact ⟨⟨hfirst.trans hhead, hlast⟩, hrest⟩
  . intro h
    obtain ⟨hbounded, rest, hrest⟩ := h
    refine ⟨⟨⟨?_, hbounded.first.trans hhead.symm⟩, hbounded.last⟩, rest, hrest⟩
    obtain ⟨inner, hinner⟩ := hbounded.nodes_cons
    rw [hrest, hinner, List.cons_append] at hnodup ⊢
    rw [validateBoundaryRange_iff hnodup, ← List.cons_append, ← hinner]
    exact List.mem_append_left _ (List.mem_of_getLast? hbounded.last)

theorem validateRows_iff (hnodup : (front ++ tail).Nodup)
    : validateRows (front ++ tail) endNode tail.head? rows = true
      ↔ (∀ row ∈ rows, row.Bounded) ∧ ∃ back, tail = rows.flatMap OwnedRangeSnapshot.nodes ++ endNode :: back := by
  induction rows generalizing front tail with
  | nil =>
    unfold validateRows
    simp only [decide_eq_true_eq, List.flatMap_nil, List.nil_append]
    constructor
    . intro h
      cases tail with
      | nil => cases h
      | cons node tail =>
        rw [List.head?_cons, Option.some.injEq] at h
        exact ⟨nofun, tail, by rw [h]⟩
    . intro h
      obtain ⟨-, back, rfl⟩ := h
      rfl
  | cons row rows ih =>
    unfold validateRows
    simp only [Bool.and_eq_true, decide_eq_true_eq, List.forall_mem_cons, List.flatMap_cons, List.append_assoc]
    -- Past a row the cursor stands at what comes after its nodes.
    have hpast : row.Bounded → ∀ rest, tail = row.nodes ++ rest
        → (validateRows (front ++ tail) endNode (nextSibling (front ++ tail) row.endNode) rows = true
          ↔ (∀ row ∈ rows, row.Bounded) ∧ ∃ back, rest = rows.flatMap OwnedRangeSnapshot.nodes ++ endNode :: back) := by
      intro hbounded rest hrest
      obtain ⟨inner, hinner⟩ := hbounded.nodes_snoc
      have hsplit : front ++ tail = (front ++ inner) ++ row.endNode :: rest := by
        rw [hrest, hinner, List.append_assoc, List.append_assoc, List.singleton_append]
      have hnext : nextSibling (front ++ tail) row.endNode = rest.head? := by
        rw [hsplit] at hnodup ⊢
        exact nextSibling_nodup hnodup
      rw [hnext, hrest, ← List.append_assoc]
      apply ih
      rw [List.append_assoc, ← hrest]
      exact hnodup
    constructor
    . intro h
      obtain ⟨⟨hsequence, hcursor⟩, hrows⟩ := h
      have hhead : tail.head? = some row.start := by
        rw [hcursor]
        unfold validateNodeSequence at hsequence
        rw [Bool.and_eq_true, Bool.and_eq_true, Bool.and_eq_true, decide_eq_true_eq] at hsequence
        exact hsequence.1.1.2
      obtain ⟨hbounded, rest, hrest⟩ := (validateNodeSequence_iff hnodup hhead).mp hsequence
      obtain ⟨hall, back, hback⟩ := (hpast hbounded rest hrest).mp hrows
      exact ⟨⟨hbounded, hall⟩, back, by rw [hrest, hback]⟩
    . intro h
      obtain ⟨⟨hbounded, hall⟩, back, hback⟩ := h
      have hcursor : tail.head? = row.nodes.head? := by
        obtain ⟨inner, hinner⟩ := hbounded.nodes_cons
        rw [hback, hinner]
        rfl
      refine ⟨⟨?_, hcursor⟩, ?_⟩
      . exact (validateNodeSequence_iff hnodup (hcursor.trans hbounded.first)).mpr ⟨hbounded, _, hback⟩
      . exact (hpast hbounded _ hback).mpr ⟨hall, back, rfl⟩

theorem validateKeyedLayout_iff (hnodup : children.Nodup)
    : validateKeyedLayout children start endNode rows = true
      ↔ (∀ row ∈ rows, row.Bounded)
        ∧ ∃ front back, children = front ++ start :: (rows.flatMap OwnedRangeSnapshot.nodes ++ endNode :: back) := by
  unfold validateKeyedLayout
  rw [Bool.and_eq_true]
  have hrows : ∀ {front tail : List N}, children = front ++ start :: tail
      → (validateRows children endNode (nextSibling children start) rows = true
        ↔ (∀ row ∈ rows, row.Bounded) ∧ ∃ back, tail = rows.flatMap OwnedRangeSnapshot.nodes ++ endNode :: back) := by
    intro front tail hsplit
    have happend : front ++ start :: tail = (front ++ [start]) ++ tail := by
      rw [List.append_assoc, List.singleton_append]
    rw [hsplit] at hnodup ⊢
    rw [nextSibling_nodup hnodup]
    rw [happend] at hnodup ⊢
    exact validateRows_iff hnodup
  constructor
  . intro h
    obtain ⟨hboundary, h⟩ := h
    obtain ⟨front, tail, hsplit⟩ := List.append_of_mem (validateBoundaryRange_mem hboundary)
    obtain ⟨hall, back, hback⟩ := (hrows hsplit).mp h
    exact ⟨hall, front, back, by rw [hsplit, hback]⟩
  . intro h
    obtain ⟨hall, front, back, hsplit⟩ := h
    refine ⟨?_, (hrows hsplit).mpr ⟨hall, back, rfl⟩⟩
    rw [hsplit] at hnodup ⊢
    rw [validateBoundaryRange_iff hnodup]
    exact List.mem_cons_of_mem _ (List.mem_append_right _ List.mem_cons_self)

end Pliego.Keyed
