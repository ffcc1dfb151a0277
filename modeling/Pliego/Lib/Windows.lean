import Mathlib.Data.List.Infix

/-!
The windows of a list, and the search of a list that comes in pieces: the end of what has been seen that a match can
still begin in.
-/

namespace Pliego

namespace Windows

variable {α : Type}

-- The sublists of a size that follow one another, as `windows` of a slice.
def windows (size : Nat) (items : List α) : List (List α) :=
  (List.range (items.length + 1 - size)).map fun start => (items.drop start).take size

def lastOf (count : Nat) (items : List α) : List α := items.drop (items.length - count)

variable {needle seen piece : List α} {count : Nat}

theorem mem_windows {items : List α} (hne : needle ≠ []) : needle ∈ windows needle.length items ↔ needle <:+: items := by
  have hpos := List.length_pos_iff.mpr hne
  unfold windows
  rw [List.mem_map]
  constructor
  . intro h
    obtain ⟨start, -, hwindow⟩ := h
    rw [← hwindow]
    apply List.IsInfix.trans (List.take_prefix _ _).isInfix
    exact (List.drop_suffix _ _).isInfix
  . intro h
    obtain ⟨front, back, happend⟩ := h
    refine ⟨front.length, ?_, ?_⟩
    . rw [List.mem_range, ← happend, List.length_append, List.length_append]
      omega
    . rw [← happend, List.append_assoc, List.drop_left, List.take_left]

theorem lastOf_append : lastOf count (lastOf count seen ++ piece) = lastOf count (seen ++ piece) := by
  unfold lastOf
  rw [← List.drop_append_of_le_length (Nat.sub_le _ _), List.drop_drop, List.length_drop, List.length_append]
  congr 1
  omega

theorem infix_append_iff (hne : needle ≠ []) (hseen : ¬ needle <:+: seen)
    : needle <:+: seen ++ piece ↔ needle <:+: lastOf (needle.length - 1) seen ++ piece := by
  have hpos := List.length_pos_iff.mpr hne
  have hdrop : lastOf (needle.length - 1) seen ++ piece
      = (seen ++ piece).drop (seen.length - (needle.length - 1)) := by
    unfold lastOf
    rw [List.drop_append_of_le_length (Nat.sub_le _ _)]
  rw [hdrop]
  constructor
  . intro h
    obtain ⟨front, back, happend⟩ := h
    have hlate : seen.length - (needle.length - 1) ≤ front.length := by
      by_contra hearly
      apply hseen
      have hwhole : front ++ needle <+: seen := by
        have hfront : front ++ needle <+: seen ++ piece := ⟨back, happend⟩
        apply List.prefix_of_prefix_length_le hfront (List.prefix_append _ _)
        rw [List.length_append]
        omega
      exact (List.suffix_append front needle).isInfix.trans hwhole.isInfix
    rw [← happend, List.append_assoc, List.drop_append_of_le_length hlate, ← List.append_assoc]
    apply List.infix_append
  . intro h
    exact h.trans (List.drop_suffix _ _).isInfix

end Windows

end Pliego
