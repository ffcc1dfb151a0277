import Pliego.Lib.Fields
import Pliego.Lib.SortedMap

/-!
Steps that may fail and whose order does not matter: two steps commute when, after both have succeeded in
one order, they succeed in the other with the same result.
-/

namespace Except

variable {ε β : Type} {α : Type*}

def Commutes (f g : β → Except ε β) : Prop :=
  ∀ a b c, f a = .ok b → g b = .ok c → ∃ b', g a = .ok b' ∧ f b' = .ok c

theorem foldlM_perm {step : β → α → Except ε β}
    (hcomm : ∀ x y, Commutes (fun b => step b x) (fun b => step b y)) {xs ys : List α}
    (hperm : xs.Perm ys) {b c : β} (h : xs.foldlM step b = .ok c)
    : ys.foldlM step b = .ok c := by
  induction hperm generalizing b with
  | nil => exact h
  | cons x _ ih =>
    rw [List.foldlM_cons, Except.bind_eq_ok] at h ⊢
    obtain ⟨next, hnext, h⟩ := h
    exact ⟨next, hnext, ih h⟩
  | swap x y rest =>
    rw [List.foldlM_cons, Except.bind_eq_ok] at h
    obtain ⟨first, hfirst, h⟩ := h
    rw [List.foldlM_cons, Except.bind_eq_ok] at h
    obtain ⟨second, hsecond, h⟩ := h
    obtain ⟨first', hfirst', hsecond'⟩ := hcomm y x b first second hfirst hsecond
    rw [List.foldlM_cons, Except.bind_eq_ok]
    refine ⟨first', hfirst', ?_⟩
    rw [List.foldlM_cons, Except.bind_eq_ok]
    exact ⟨second, hsecond', h⟩
  | trans _ _ ih ih' => exact ih' (ih h)

theorem foldlM_commutes {step : β → α → Except ε β}
    (hcomm : ∀ x y, Commutes (fun b => step b x) (fun b => step b y)) (xs ys : List α)
    : Commutes (fun b => xs.foldlM step b) (fun b => ys.foldlM step b) := by
  intro a b c hb hc
  have hxs : (xs ++ ys).foldlM step a = .ok c := by
    rw [List.foldlM_append, Except.bind_eq_ok]
    exact ⟨b, hb, hc⟩
  have hys := foldlM_perm hcomm List.perm_append_comm hxs
  rw [List.foldlM_append, Except.bind_eq_ok] at hys
  exact hys

end Except

namespace SortedMap

variable {κ α : Type} [LinearOrder κ] {map : SortedMap κ α} {k k' : κ} {v v' : α}

theorem insert_comm (hne : k ≠ k') : (map.insert k v).insert k' v' = (map.insert k' v').insert k v := by
  apply ext
  intro key
  rw [get?_insert, get?_insert, get?_insert, get?_insert]
  split
  . next hkey =>
    rw [if_neg (hkey ▸ Ne.symm hne)]
  . rfl

theorem insert_insert : (map.insert k v).insert k v' = map.insert k v' := by
  apply ext
  intro key
  rw [get?_insert, get?_insert, get?_insert]
  split <;> rfl

theorem len_insert_of_none (h : map.get? k = none) : (map.insert k v).len = map.len + 1 := by
  have hkeys : (map.insert k v).keys.Perm (k :: map.keys) := by
    have hfresh : k ∉ map.keys := by
      rw [mem_keys, h]
      exact Bool.false_ne_true
    apply (List.perm_ext_iff_of_nodup ((keys_sorted _).imp (fun hlt => ne_of_lt hlt))
      (List.nodup_cons.mpr ⟨hfresh, (keys_sorted _).imp (fun hlt => ne_of_lt hlt)⟩)).mpr
    intro key
    rw [mem_keys, get?_insert, List.mem_cons, mem_keys]
    split
    . next hkey => simp [hkey]
    . next hkey => simp [hkey]
  have hlength := hkeys.length_eq
  unfold keys at hlength
  rw [List.length_map, List.length_cons, List.length_map] at hlength
  exact hlength

theorem insert_self (h : map.get? k = some v) : map.insert k v = map := by
  apply ext
  intro key
  rw [get?_insert]
  split
  . next hkey => rw [hkey, h]
  . rfl

theorem forall₂_get? {α β : Type} {map : SortedMap κ α} {map' : SortedMap κ β} {R : α → β → Prop}
    (h : List.Forall₂ (fun a b => a.1 = b.1 ∧ R a.2 b.2) map.entries map'.entries) (k : κ)
    : Option.Rel R (map.get? k) (map'.get? k) := by
  unfold get?
  generalize map.entries = entries at h ⊢
  generalize map'.entries = entries' at h ⊢
  induction h with
  | nil => exact .none
  | cons hfirst _ ih =>
    rw [List.find?_cons, List.find?_cons, hfirst.1]
    split
    . exact .some hfirst.2
    . exact ih

theorem len_insert_of_some (h : map.get? k = some v') : (map.insert k v).len = map.len := by
  have hkeys : (map.insert k v).keys.Perm map.keys := by
    apply (List.perm_ext_iff_of_nodup ((keys_sorted _).imp (fun hlt => ne_of_lt hlt))
      ((keys_sorted _).imp (fun hlt => ne_of_lt hlt))).mpr
    intro key
    rw [mem_keys, get?_insert, mem_keys]
    split
    . next hkey => simp [hkey, h]
    . rfl
  have hlength := hkeys.length_eq
  unfold keys at hlength
  rw [List.length_map, List.length_map] at hlength
  exact hlength

end SortedMap
