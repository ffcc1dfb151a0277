import Mathlib

/-!
Sums over a list some of whose items stand in groups of alternatives: an upper bound for every choice of at most one
item of each group.
-/

namespace Grouped

variable {α κ : Type} [DecidableEq κ] {key : α → Option κ} {weight : α → Nat} {items chosen : List α}

def highest (weights : List Nat) : Nat :=
  weights.foldr max 0

def loose (key : α → Option κ) (weight : α → Nat) (items : List α) : Nat :=
  ((items.filter (key · = none)).map weight).sum

def member (key : α → Option κ) (weight : α → Nat) (items : List α) (group : κ) : Nat :=
  highest ((items.filter (key · = some group)).map weight)

def groups (key : α → Option κ) (items : List α) : Finset κ :=
  (items.filterMap key).toFinset

def worst (key : α → Option κ) (weight : α → Nat) (items : List α) : Nat :=
  loose key weight items + ∑ group ∈ groups key items, member key weight items group

-- At most one item of each group, and any of the others.
structure Choice (key : α → Option κ) (items chosen : List α) : Prop where
  among : chosen.Sublist items
  one : (chosen.filterMap key).Nodup

theorem le_highest {weights : List Nat} {n : Nat} (h : n ∈ weights) : n ≤ highest weights := by
  induction weights with
  | nil => cases h
  | cons first rest ih =>
    unfold highest
    rw [List.foldr_cons]
    rw [List.mem_cons] at h
    cases h with
    | inl hfirst =>
      rw [hfirst]
      exact Nat.le_max_left _ _
    | inr hrest => exact Nat.le_trans (ih hrest) (Nat.le_max_right _ _)

theorem weight_le_member {a : α} {group : κ} (hmem : a ∈ items) (hkey : key a = some group)
    : weight a ≤ member key weight items group := by
  apply le_highest
  apply List.mem_map_of_mem
  rw [List.mem_filter]
  exact ⟨hmem, decide_eq_true hkey⟩

theorem sum_grouped_le (hmem : ∀ a ∈ chosen, a ∈ items) (hone : (chosen.filterMap key).Nodup)
    : (chosen.map weight).sum ≤ loose key weight chosen + ∑ group ∈ groups key chosen, member key weight items group := by
  induction chosen with
  | nil => exact Nat.zero_le _
  | cons a rest ih =>
    have hrest : ∀ b ∈ rest, b ∈ items := fun b hb => hmem b (List.mem_cons_of_mem _ hb)
    unfold loose groups at ih ⊢
    rw [List.map_cons, List.sum_cons, List.filter_cons]
    cases hkey : key a with
    | none =>
      rw [List.filterMap_cons_none hkey] at hone ⊢
      have ih := ih hrest hone
      rw [if_pos (decide_eq_true rfl), List.map_cons, List.sum_cons]
      omega
    | some group =>
      rw [List.filterMap_cons_some hkey] at hone ⊢
      rw [List.nodup_cons] at hone
      have ih := ih hrest hone.2
      have hweight : weight a ≤ member key weight items group := weight_le_member (hmem a List.mem_cons_self) hkey
      rw [if_neg (by simp), List.toFinset_cons, Finset.sum_insert (fun h => hone.1 (List.mem_toFinset.mp h))]
      omega

theorem choice_le_worst (h : Choice key items chosen) : (chosen.map weight).sum ≤ worst key weight items := by
  have hgrouped := @sum_grouped_le _ _ _ key weight items chosen (fun a ha => h.among.subset ha) h.one
  have hloose : loose key weight chosen ≤ loose key weight items := by
    unfold loose
    apply List.Sublist.sum_le_sum
    . exact (h.among.filter _).map _
    . intro n _
      exact Nat.zero_le n
  have hgroups : ∑ group ∈ groups key chosen, member key weight items group
      ≤ ∑ group ∈ groups key items, member key weight items group := by
    apply Finset.sum_le_sum_of_subset
    intro group hgroup
    unfold groups at hgroup ⊢
    rw [List.mem_toFinset] at hgroup ⊢
    exact (h.among.filterMap key).subset hgroup
  unfold worst
  omega

omit [DecidableEq κ] in
theorem Choice.trans {kept : List α} (h : Choice key kept chosen) (hkept : kept.Sublist items)
    : Choice key items chosen :=
  ⟨h.among.trans hkept, h.one⟩

end Grouped
