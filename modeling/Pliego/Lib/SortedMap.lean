import Mathlib

/-!
Finite maps as lists in strictly increasing key order.
-/

structure SortedMap (κ α : Type) [LinearOrder κ] where
  entries : List (κ × α)
  sorted : entries.Pairwise (fun a b => a.1 < b.1)

namespace SortedMap

variable {κ α : Type} [LinearOrder κ]

instance [DecidableEq α] : DecidableEq (SortedMap κ α) := fun a b =>
  decidable_of_iff (a.entries = b.entries) (by cases a; cases b; simp)

def insertEntry (k : κ) (v : α) (entries : List (κ × α)) : List (κ × α) :=
  match entries with
  | [] => [(k, v)]
  | entry :: rest =>
    if k < entry.1 then
      (k, v) :: entry :: rest
    else if k = entry.1 then
      (k, v) :: rest
    else
      entry :: insertEntry k v rest

theorem mem_insertEntry {k : κ} {v : α} {entries : List (κ × α)} {entry : κ × α}
    (h : entry ∈ insertEntry k v entries)
    : entry = (k, v) ∨ entry ∈ entries := by
  induction entries with
  | nil => exact .inl (List.mem_singleton.mp h)
  | cons first rest ih =>
    unfold insertEntry at h
    split at h
    . exact List.mem_cons.mp h
    . split at h
      . cases List.mem_cons.mp h with
        | inl h => exact .inl h
        | inr h => exact .inr (List.mem_cons_of_mem _ h)
      . cases List.mem_cons.mp h with
        | inl h => exact .inr (h ▸ List.mem_cons_self)
        | inr h => exact (ih h).imp_right (List.mem_cons_of_mem _)

theorem insertEntry_sorted {k : κ} {v : α} {entries : List (κ × α)} (h : entries.Pairwise (fun a b => a.1 < b.1))
    : (insertEntry k v entries).Pairwise (fun a b => a.1 < b.1) := by
  induction entries with
  | nil => exact List.pairwise_singleton _ _
  | cons first rest ih =>
    obtain ⟨hfirst, hrest⟩ := List.pairwise_cons.mp h
    unfold insertEntry
    split
    . next hlt =>
      refine List.pairwise_cons.mpr ⟨?_, h⟩
      intro entry hentry
      cases List.mem_cons.mp hentry with
      | inl hsame => exact hsame ▸ hlt
      | inr hmem => exact hlt.trans (hfirst entry hmem)
    . next hge =>
      split
      . next hsame => exact List.pairwise_cons.mpr ⟨hsame ▸ hfirst, hrest⟩
      . next hne =>
        refine List.pairwise_cons.mpr ⟨?_, ih hrest⟩
        intro entry hentry
        cases mem_insertEntry hentry with
        | inl hsame =>
          rw [hsame]
          exact lt_of_le_of_ne (not_lt.mp hge) (Ne.symm hne)
        | inr hmem => exact hfirst entry hmem

def insert (map : SortedMap κ α) (k : κ) (v : α) : SortedMap κ α :=
  ⟨insertEntry k v map.entries, insertEntry_sorted map.sorted⟩

def singleton (k : κ) (v : α) : SortedMap κ α :=
  ⟨[(k, v)], List.pairwise_singleton _ _⟩

def get? (map : SortedMap κ α) (k : κ) : Option α :=
  (map.entries.find? (fun entry => entry.1 = k)).map Prod.snd

def firstKey (map : SortedMap κ α) : Option κ :=
  map.entries.head?.map Prod.fst

def remove (map : SortedMap κ α) (k : κ) : SortedMap κ α :=
  ⟨map.entries.filter (fun entry => entry.1 ≠ k), map.sorted.filter _⟩

def keys (map : SortedMap κ α) : List κ :=
  map.entries.map Prod.fst

def values (map : SortedMap κ α) : List α :=
  map.entries.map Prod.snd

def len (map : SortedMap κ α) : Nat :=
  map.entries.length

variable {map : SortedMap κ α}

theorem get?_eq_some {k : κ} {v : α} : map.get? k = some v ↔ (k, v) ∈ map.entries := by
  obtain ⟨entries, hsorted⟩ := map
  unfold get?
  dsimp only
  induction entries with
  | nil => simp
  | cons first rest ih =>
    obtain ⟨hfirst, hrest⟩ := List.pairwise_cons.mp hsorted
    rw [List.find?_cons, List.mem_cons]
    by_cases hsame : first.1 = k
    . rw [decide_eq_true hsame]
      constructor
      . intro h
        cases h
        exact .inl (Prod.ext hsame.symm rfl)
      . rintro (h | h)
        . rw [← h]
          rfl
        . exact absurd (hfirst _ h) (not_lt.mpr (le_of_eq hsame.symm))
    . rw [decide_eq_false hsame, ih hrest]
      constructor
      . exact .inr
      . rintro (h | h)
        . exact absurd (h ▸ rfl) hsame
        . exact h

def empty : SortedMap κ α := ⟨[], List.Pairwise.nil⟩

@[simp]
theorem get?_empty (k : κ) : (empty : SortedMap κ α).get? k = none := rfl

@[simp]
theorem get?_insert (k : κ) (v : α) (k' : κ)
    : (map.insert k v).get? k' = if k' = k then some v else map.get? k' := by
  obtain ⟨entries, hsorted⟩ := map
  unfold get? insert
  dsimp only
  clear hsorted
  induction entries with
  | nil =>
    unfold insertEntry
    by_cases hk : k' = k
    . simp [hk]
    . simp [hk, Ne.symm hk]
  | cons first rest ih =>
    unfold insertEntry
    by_cases hlt : k < first.1
    . rw [if_pos hlt, List.find?_cons]
      by_cases hk : k' = k
      . simp [hk]
      . simp [hk, Ne.symm hk]
    . rw [if_neg hlt]
      by_cases hsame : k = first.1
      . rw [if_pos hsame, List.find?_cons, List.find?_cons]
        by_cases hk : k' = k
        . simp [hk]
        . have hfirst : first.1 ≠ k' := fun h => hk (h ▸ hsame.symm)
          simp [hk, Ne.symm hk, hfirst]
      . rw [if_neg hsame, List.find?_cons, List.find?_cons]
        by_cases hfirst : first.1 = k'
        . have hk : k' ≠ k := fun h => hsame (h ▸ hfirst.symm)
          simp [hfirst, hk]
        . simp only [hfirst, decide_false]
          exact ih

@[ext]
theorem ext {a b : SortedMap κ α} (h : ∀ k, a.get? k = b.get? k) : a = b := by
  have hmem : ∀ entry, entry ∈ a.entries ↔ entry ∈ b.entries := by
    rintro ⟨k, v⟩
    rw [← get?_eq_some, ← get?_eq_some, h]
  have hperm : a.entries.Perm b.entries := by
    apply (List.perm_ext_iff_of_nodup _ _).mpr hmem
    . exact a.sorted.imp (fun hlt heq => absurd (heq ▸ hlt) (lt_irrefl _))
    . exact b.sorted.imp (fun hlt heq => absurd (heq ▸ hlt) (lt_irrefl _))
  have hentries : a.entries = b.entries := by
    apply hperm.eq_of_pairwise _ a.sorted b.sorted
    intro x y _ _ hxy hyx
    exact absurd hxy hyx.asymm
  cases a
  cases b
  simpa using hentries

theorem mem_keys {k : κ} : k ∈ map.keys ↔ (map.get? k).isSome = true := by
  unfold keys
  rw [List.mem_map, Option.isSome_iff_exists]
  constructor
  . rintro ⟨⟨_, v⟩, hmem, rfl⟩
    exact ⟨v, get?_eq_some.mpr hmem⟩
  . rintro ⟨v, hv⟩
    exact ⟨(k, v), get?_eq_some.mp hv, rfl⟩

theorem keys_sorted (map : SortedMap κ α) : map.keys.Pairwise (· < ·) :=
  List.pairwise_map.mpr map.sorted

theorem insert_of_last {k : κ} {v : α} (h : ∀ entry ∈ map.entries, entry.1 < k)
    : (map.insert k v).entries = map.entries ++ [(k, v)] := by
  obtain ⟨entries, hsorted⟩ := map
  unfold insert
  dsimp only at h ⊢
  clear hsorted
  induction entries with
  | nil => rfl
  | cons first rest ih =>
    have hfirst := h first List.mem_cons_self
    unfold insertEntry
    rw [if_neg hfirst.asymm, if_neg hfirst.ne', ih]
    . rfl
    . exact fun entry hentry => h entry (List.mem_cons_of_mem _ hentry)

theorem remove_first {k : κ} {v : α} {rest : List (κ × α)} (h : map.entries = (k, v) :: rest)
    : (map.remove k).entries = rest := by
  have hsorted := map.sorted
  rw [h, List.pairwise_cons] at hsorted
  change map.entries.filter (fun entry => entry.1 ≠ k) = rest
  rw [h, List.filter_cons_of_neg (by simp), List.filter_eq_self]
  exact fun entry hentry => decide_eq_true (hsorted.1 entry hentry).ne'

end SortedMap

abbrev SortedSet (κ : Type) [LinearOrder κ] := SortedMap κ Unit

namespace SortedSet

variable {κ : Type} [LinearOrder κ]

def contains (set : SortedSet κ) (k : κ) : Bool :=
  (set.get? k).isSome

def extend (set : SortedSet κ) (ks : List κ) : SortedSet κ :=
  ks.foldl (fun set k => set.insert k ()) set

def ofList (ks : List κ) : SortedSet κ :=
  extend .empty ks

@[simp]
theorem contains_empty (k : κ) : contains (.empty : SortedSet κ) k = false := rfl

@[simp]
theorem contains_extend (set : SortedSet κ) (ks : List κ) (k : κ)
    : (set.extend ks).contains k = true ↔ set.contains k = true ∨ k ∈ ks := by
  unfold extend
  induction ks generalizing set with
  | nil => simp
  | cons first ks ih =>
    rw [List.foldl_cons, ih, List.mem_cons]
    unfold contains
    rw [SortedMap.get?_insert]
    split <;> simp_all

@[simp]
theorem contains_remove (set : SortedSet κ) (k k' : κ)
    : contains (set.remove k) k' = true ↔ set.contains k' = true ∧ k' ≠ k := by
  unfold contains
  rw [Option.isSome_iff_exists, Option.isSome_iff_exists]
  simp only [SortedMap.get?_eq_some, SortedMap.remove, List.mem_filter, decide_eq_true_eq, exists_and_right]

theorem ext_contains {a b : SortedSet κ} (h : ∀ k, a.contains k = true ↔ b.contains k = true)
    : a = b := by
  apply SortedMap.ext
  intro k
  have hk := h k
  unfold contains at hk
  cases ha : a.get? k with
  | none =>
    cases hb : b.get? k with
    | none => rfl
    | some _ => simp [ha, hb] at hk
  | some _ =>
    cases hb : b.get? k with
    | none => simp [ha, hb] at hk
    | some _ => rfl

@[simp]
theorem contains_ofList (ks : List κ) (k : κ) : (ofList ks).contains k = true ↔ k ∈ ks := by
  unfold ofList
  rw [contains_extend]
  simp

theorem ofList_eq_of_mem_iff {as bs : List κ} (h : ∀ k, k ∈ as ↔ k ∈ bs) : ofList as = ofList bs := by
  apply ext_contains
  intro k
  rw [contains_ofList, contains_ofList, h]

theorem mem_keys_iff {set : SortedSet κ} {k : κ} : k ∈ set.keys ↔ set.contains k = true :=
  SortedMap.mem_keys

theorem keys_inj {a b : SortedSet κ} (h : a.keys = b.keys) : a = b := by
  apply ext_contains
  intro k
  rw [← mem_keys_iff, h, mem_keys_iff]

end SortedSet
