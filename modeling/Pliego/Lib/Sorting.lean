import Mathlib

/-!
Results that do not depend on an order: stable sorting by a key, and folds whose steps commute.
-/

namespace Sorting

variable {α κ : Type} [LinearOrder κ] {key : α → κ} {xs ys : List α}

def sortBy (key : α → κ) (xs : List α) : List α :=
  xs.insertionSort (fun a b => key a ≤ key b)

theorem sortBy_perm : (sortBy key xs).Perm xs :=
  List.perm_insertionSort _ xs

@[simp]
theorem mem_sortBy {x : α} : x ∈ sortBy key xs ↔ x ∈ xs :=
  sortBy_perm.mem_iff

@[simp]
theorem length_sortBy : (sortBy key xs).length = xs.length :=
  sortBy_perm.length_eq

theorem sortBy_sorted : (sortBy key xs).Pairwise (fun a b => key a ≤ key b) := by
  have htotal : Std.Total (fun a b : α => key a ≤ key b) := ⟨fun a b => le_total _ _⟩
  have htrans : IsTrans α (fun a b => key a ≤ key b) := ⟨fun a b c => le_trans⟩
  exact List.pairwise_insertionSort _ xs

theorem sortBy_eq_of_perm (hperm : xs.Perm ys) (hkeys : (xs.map key).Nodup)
    : sortBy key xs = sortBy key ys := by
  apply ((sortBy_perm.trans hperm).trans sortBy_perm.symm).eq_of_pairwise _ sortBy_sorted
    sortBy_sorted
  intro a b ha hb hab hba
  apply List.inj_on_of_nodup_map hkeys (mem_sortBy.mp ha)
  . exact hperm.mem_iff.mpr (mem_sortBy.mp hb)
  . exact le_antisymm hab hba

theorem forall₂_sortBy {R : α → α → Prop} (hkey : ∀ {a b : α}, R a b → key a = key b)
    (h : List.Forall₂ R xs ys) : List.Forall₂ R (sortBy key xs) (sortBy key ys) := by
  have hinsert : ∀ {a b : α} {as bs : List α}, R a b → List.Forall₂ R as bs →
      List.Forall₂ R (as.orderedInsert (fun a b => key a ≤ key b) a)
        (bs.orderedInsert (fun a b => key a ≤ key b) b) := by
    intro a b as bs hab hrest
    induction hrest with
    | nil => exact .cons hab .nil
    | @cons a' b' as bs hfirst hrest ih =>
      rw [List.orderedInsert_cons, List.orderedInsert_cons, hkey hab, hkey hfirst]
      split
      . exact .cons hab (.cons hfirst hrest)
      . exact .cons hfirst ih
  unfold sortBy
  induction h with
  | nil => exact .nil
  | cons hfirst _ ih =>
    rw [List.insertionSort_cons, List.insertionSort_cons]
    exact hinsert hfirst ih

theorem sortBy_map {β : Type} {f : β → α} {zs : List β}
    : sortBy key (zs.map f) = (sortBy (fun z => key (f z)) zs).map f := by
  unfold sortBy
  exact (List.map_insertionSort (fun a b => key (f a) ≤ key (f b)) (fun a b => key a ≤ key b) f zs
    (fun _ _ _ _ => Iff.rfl)).symm

theorem sortBy_sortBy : sortBy key (sortBy key xs) = sortBy key xs :=
  sortBy_sorted.insertionSort_eq

-- Each element is less than the next.
def ascending (keys : List κ) : Bool :=
  match keys with
  | a :: b :: rest => a < b && ascending (b :: rest)
  | _ => true

theorem ascending_iff {keys : List κ} : ascending keys = true ↔ keys.Pairwise (· < ·) := by
  rw [← List.isChain_iff_pairwise]
  induction keys with
  | nil => simp [ascending]
  | cons a keys ih =>
    cases keys with
    | nil => simp [ascending]
    | cons b rest =>
      unfold ascending
      rw [Bool.and_eq_true, decide_eq_true_eq, List.isChain_cons_cons, ih]

theorem first_le {p : α → Bool} {zs : List α} {x y : α}
    (hsorted : zs.Pairwise (fun a b => key a ≤ key b)) (hx : zs.find? p = some x) (hy : y ∈ zs)
    (hp : p y = true) : key x ≤ key y := by
  induction zs with
  | nil => cases hy
  | cons z zs ih =>
    rw [List.find?_cons] at hx
    obtain ⟨hz, hrest⟩ := List.pairwise_cons.mp hsorted
    split at hx
    . cases hx
      cases List.mem_cons.mp hy with
      | inl hsame => rw [hsame]
      | inr hmem => exact hz y hmem
    . next hnot =>
      cases List.mem_cons.mp hy with
      | inl hsame =>
        rw [hsame, hnot] at hp
        cases hp
      | inr hmem => exact ih hrest hx hmem

theorem foldlM_perm {ε β : Type} {f : β → α → Except ε β}
    (hcomm : ∀ a b start next last, f start a = .ok next → f next b = .ok last →
      ∃ other, f start b = .ok other ∧ f other a = .ok last)
    (hperm : xs.Perm ys) {start last : β} (h : xs.foldlM f start = .ok last)
    : ys.foldlM f start = .ok last := by
  induction hperm generalizing start last with
  | nil => exact h
  | cons x _ ih =>
    rw [List.foldlM_cons] at h ⊢
    cases hstep : f start x with
    | error e =>
      rw [hstep] at h
      cases h
    | ok next =>
      rw [hstep] at h
      exact ih h
  | swap a b rest =>
    rw [List.foldlM_cons] at h ⊢
    cases hb : f start b with
    | error e =>
      rw [hb] at h
      cases h
    | ok next =>
      rw [hb] at h
      change (a :: rest).foldlM f next = .ok last at h
      rw [List.foldlM_cons] at h
      cases ha : f next a with
      | error e =>
        rw [ha] at h
        cases h
      | ok middle =>
        rw [ha] at h
        obtain ⟨other, hother, hmiddle⟩ := hcomm b a start next middle hb ha
        rw [hother]
        change (b :: rest).foldlM f other = .ok last
        rw [List.foldlM_cons, hmiddle]
        exact h
  | trans _ _ ih ih' => exact ih' (ih h)

end Sorting
