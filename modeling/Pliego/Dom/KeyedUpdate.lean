import Pliego.Dom.KeyedPlacement

/-!
The plan of an update: the marks are a longest increasing subsequence of the old indices, and every row is dropped or a
target, every target an old row or a fresh one.
-/

namespace Pliego.Keyed

open Siblings

variable {K N : Type}

/-
Planning
-/

section Planning

variable {rows : List (KeyedRow K N)} {row row' : KeyedRow K N} {i j : Nat}

def KeyedRow.nodes (row : KeyedRow K N) : List N := row.scope.nodes

def targetRow [DecidableEq K] (rows : List (KeyedRow K N)) (pending : PendingKeyedRow K N) : KeyedRow K N :=
  (rows.find? (fun row => decide (row.key = pending.key))).getD ⟨pending.key, pending.staged⟩

theorem row_unique (hdistinct : (rows.map KeyedRow.key).Nodup) (hrow : rows[i]? = some row) (hrow' : rows[j]? = some row')
    (hkey : row.key = row'.key)
    : i = j ∧ row = row' := by
  have hlt := (List.getElem?_eq_some_iff.mp hrow).1
  have hsame : i = j := by
    apply (List.getElem?_inj (by rw [List.length_map]; exact hlt) hdistinct).mp
    rw [List.getElem?_map, List.getElem?_map, hrow, hrow', Option.map_some, Option.map_some, hkey]
  rw [hsame, hrow', Option.some.injEq] at hrow
  exact ⟨hsame, hrow.symm⟩

theorem planRow_cases [DecidableEq K] (hdistinct : (rows.map KeyedRow.key).Nodup) (pending : PendingKeyedRow K N)
    : (∃ i row, planRow rows pending = .retained i row.scope ∧ rows[i]? = some row ∧ row.key = pending.key
        ∧ targetRow rows pending = row)
      ∨ (planRow rows pending = .fresh pending.key pending.staged ∧ pending.key ∉ rows.map KeyedRow.key
        ∧ targetRow rows pending = ⟨pending.key, pending.staged⟩) := by
  unfold planRow targetRow oldRow?
  cases hold : (rows.zipIdx.filter (fun row => decide (row.1.key = pending.key))).getLast? with
  | some found =>
    have hmem := List.mem_filter.mp (List.mem_of_getLast? hold)
    rw [decide_eq_true_eq, List.mem_zipIdx_iff_getElem?] at hmem
    obtain ⟨hget, hkey⟩ := hmem
    refine .inl ⟨found.2, found.1, rfl, hget, hkey, ?_⟩
    cases hfind : rows.find? (fun row => decide (row.key = pending.key)) with
    | none =>
      have hnone := List.find?_eq_none.mp hfind found.1 (List.mem_of_getElem? hget)
      exact absurd (decide_eq_true hkey) hnone
    | some other =>
      obtain ⟨j, hj⟩ := List.mem_iff_getElem?.mp (List.mem_of_find?_eq_some hfind)
      have hsame : other.key = pending.key := by simpa only [decide_eq_true_eq] using List.find?_some hfind
      exact (row_unique hdistinct hj hget (hsame.trans hkey.symm)).2
  | none =>
    rw [List.getLast?_eq_none_iff, List.filter_eq_nil_iff] at hold
    have hfresh : ∀ row ∈ rows, ¬ row.key = pending.key := by
      intro row hrow hkey
      obtain ⟨j, hj⟩ := List.mem_iff_getElem?.mp hrow
      exact hold (row, j) (List.mem_zipIdx_iff_getElem?.mpr hj) (decide_eq_true hkey)
    refine .inr ⟨rfl, ?_, ?_⟩
    . intro hkey
      obtain ⟨row, hrow, hsame⟩ := List.mem_map.mp hkey
      exact hfresh row hrow hsame
    . rw [List.find?_eq_none.mpr (fun row hrow => by rw [decide_eq_true_eq]; exact hfresh row hrow)]
      rfl

end Planning

/-
Marks
-/

def keptIndices (rows : List (MarkedRow K N)) : List Nat :=
  rows.filterMap (fun row => if row.2 then row.1.oldIndex else none)

-- The marks stand at retained rows, and their old indices are a longest increasing subsequence.
structure LongestMarks (planned : List (PlannedKeyedRow K N)) (keep : List Bool) : Prop where
  length : keep.length = planned.length
  retained : ∀ row ∈ planned.zip keep, row.2 = true → row.1.oldIndex.isSome = true
  increasing : (keptIndices (planned.zip keep)).Pairwise (· < ·)
  longest : ∀ other : List Nat, other.Sublist (planned.filterMap PlannedKeyedRow.oldIndex) → other.Pairwise (· < ·)
    → other.length ≤ (keptIndices (planned.zip keep)).length

section Marks

variable {planned : List (PlannedKeyedRow K N)} {keep : List Bool}

theorem retainedPositions_sorted : (retainedPositions planned).Pairwise (fun a b => a.1 < b.1) := by
  unfold retainedPositions
  have hpositions : (planned.zipIdx.map Prod.snd).Pairwise (· < ·) := by
    rw [List.zipIdx_map_snd]
    exact List.pairwise_lt_range'
  apply (List.pairwise_map.mp hpositions).filterMap
  intro a b hlt entry hentry entry' hentry'
  rw [Option.map_eq_some_iff] at hentry hentry'
  obtain ⟨index, -, rfl⟩ := hentry
  obtain ⟨index', -, rfl⟩ := hentry'
  exact hlt

theorem retainedPositions_bound : ∀ entry ∈ retainedPositions planned, entry.1 < planned.length := by
  intro entry hentry
  unfold retainedPositions at hentry
  obtain ⟨row, hrow, hentry⟩ := List.mem_filterMap.mp hentry
  rw [Option.map_eq_some_iff] at hentry
  obtain ⟨index, -, rfl⟩ := hentry
  exact (List.getElem?_eq_some_iff.mp (List.mem_zipIdx_iff_getElem?.mp hrow)).1

theorem retainedPositions_snd : (retainedPositions planned).map Prod.snd = planned.filterMap PlannedKeyedRow.oldIndex := by
  unfold retainedPositions
  rw [List.map_filterMap]
  have hfst : planned.filterMap PlannedKeyedRow.oldIndex = planned.zipIdx.filterMap (fun row => row.1.oldIndex) := by
    conv_lhs => rw [← @List.zipIdx_map_fst _ 0 planned]
    rw [List.filterMap_map]
    rfl
  rw [hfst]
  congr 1
  funext row
  rw [Option.map_map]
  exact Option.map_id'

theorem marked_snd {n : Nat} (h : (keep.drop n).length = planned.length)
    : ((planned.zipIdx n).filterMap (fun row => row.1.oldIndex.map (fun index => (row.2, index)))
        |>.filter (fun entry => decide (keep[entry.1]? = some true))).map Prod.snd
      = keptIndices (planned.zip (keep.drop n)) := by
  induction planned generalizing n with
  | nil => rfl
  | cons row planned ih =>
    cases hdrop : keep.drop n with
    | nil =>
      rw [hdrop] at h
      cases h
    | cons mark rest =>
      have hmark : keep[n]? = some mark := by
        rw [← Nat.add_zero n, ← List.getElem?_drop, hdrop]
        rfl
      have hrest : keep.drop (n + 1) = rest := by
        rw [← List.drop_drop, hdrop]
        rfl
      have ih := @ih (n + 1) (by rw [hrest]; rw [hdrop] at h; exact Nat.succ.inj h)
      rw [hrest] at ih
      unfold keptIndices at ih ⊢
      rw [List.zip_cons_cons, List.filterMap_cons, List.zipIdx_cons, List.filterMap_cons]
      cases hrow : row.oldIndex with
      | none =>
        dsimp only [Option.map_none]
        rw [ih, ite_self]
      | some index =>
        dsimp only [Option.map_some]
        rw [List.filter_cons]
        dsimp only
        rw [hmark]
        cases mark with
        | true => exact congrArg (List.cons index) ih
        | false => exact ih

theorem keyedLis_longest : ∃ keep, keyedLis planned = some keep ∧ LongestMarks planned keep := by
  obtain ⟨keep, hkeep, hlength, hretained, hincreasing, hlongest⟩ :=
    Patience.marks_longest (@retainedPositions_sorted K N planned) retainedPositions_bound
  have hmarked : (Patience.marked keep (retainedPositions planned)).map Prod.snd = keptIndices (planned.zip keep) :=
    @marked_snd K N planned keep 0 hlength
  refine ⟨keep, hkeep, hlength, ?_, ?_, ?_⟩
  . intro row hrow hmark
    obtain ⟨position, hposition⟩ := List.mem_iff_getElem?.mp hrow
    rw [List.getElem?_zip_eq_some] at hposition
    rw [hmark] at hposition
    obtain ⟨entry, hentry, hsame⟩ := hretained position hposition.2
    unfold retainedPositions at hentry
    obtain ⟨found, hfound, hentry⟩ := List.mem_filterMap.mp hentry
    rw [Option.map_eq_some_iff] at hentry
    obtain ⟨index, hindex, rfl⟩ := hentry
    have hget := List.mem_zipIdx_iff_getElem?.mp hfound
    dsimp only at hsame
    rw [hsame, hposition.1, Option.some.injEq] at hget
    rw [hget, hindex]
    rfl
  . rw [← hmarked]
    exact hincreasing
  . rw [← hmarked, List.length_map, ← retainedPositions_snd]
    exact hlongest

end Marks

/-
Rows
-/

section Rows

variable [DecidableEq K] {rows : List (KeyedRow K N)} {pendings : List (PendingKeyedRow K N)}

def targetRows (rows : List (KeyedRow K N)) (pendings : List (PendingKeyedRow K N)) : List (KeyedRow K N) :=
  pendings.map (targetRow rows)

def droppedRows (rows : List (KeyedRow K N)) (pendings : List (PendingKeyedRow K N)) : List (KeyedRow K N) :=
  rows.filter (fun row => decide (row.key ∉ pendings.map PendingKeyedRow.key))

def freshRows (rows : List (KeyedRow K N)) (pendings : List (PendingKeyedRow K N)) : List (KeyedRow K N) :=
  (pendings.filter (fun pending => decide (pending.key ∉ rows.map KeyedRow.key))).map
    (fun pending => ⟨pending.key, pending.staged⟩)

theorem targetRow_key (hdistinct : (rows.map KeyedRow.key).Nodup) (pending : PendingKeyedRow K N)
    : (targetRow rows pending).key = pending.key := by
  cases planRow_cases hdistinct pending with
  | inl hretained =>
    obtain ⟨i, row, -, -, hkey, htarget⟩ := hretained
    rw [htarget, hkey]
  | inr hfresh => rw [hfresh.2.2]

theorem planRow_snapshot (hdistinct : (rows.map KeyedRow.key).Nodup) (pending : PendingKeyedRow K N)
    : (planRow rows pending).snapshot = (targetRow rows pending).scope := by
  cases planRow_cases hdistinct pending with
  | inl hretained =>
    obtain ⟨i, row, hplan, -, -, htarget⟩ := hretained
    rw [hplan, htarget]
    rfl
  | inr hfresh =>
    rw [hfresh.1, hfresh.2.2]
    rfl

theorem targetRows_key (hdistinct : (rows.map KeyedRow.key).Nodup)
    : (targetRows rows pendings).map KeyedRow.key = pendings.map PendingKeyedRow.key := by
  unfold targetRows
  rw [List.map_map]
  exact List.map_congr_left (fun pending _ => targetRow_key hdistinct pending)

theorem target_perm (hdistinct : (rows.map KeyedRow.key).Nodup) (hpending : (pendings.map PendingKeyedRow.key).Nodup)
    : (droppedRows rows pendings ++ targetRows rows pendings).Perm (rows ++ freshRows rows pendings) := by
  have hleft : (droppedRows rows pendings ++ targetRows rows pendings).Nodup := by
    apply List.Nodup.of_map KeyedRow.key
    rw [List.map_append, targetRows_key hdistinct]
    refine List.nodup_append.mpr ⟨hdistinct.sublist (List.filter_sublist.map _), hpending, ?_⟩
    intro key hkey key' hkey' hsame
    obtain ⟨row, hrow, rfl⟩ := List.mem_map.mp hkey
    rw [← hsame] at hkey'
    exact of_decide_eq_true (List.mem_filter.mp hrow).2 hkey'
  have hright : (rows ++ freshRows rows pendings).Nodup := by
    apply List.Nodup.of_map KeyedRow.key
    unfold freshRows
    rw [List.map_append, List.map_map]
    refine List.nodup_append.mpr ⟨hdistinct, hpending.sublist (List.filter_sublist.map PendingKeyedRow.key), ?_⟩
    intro key hkey key' hkey' hsame
    obtain ⟨pending, hmem, rfl⟩ := List.mem_map.mp hkey'
    rw [hsame] at hkey
    exact of_decide_eq_true (List.mem_filter.mp hmem).2 hkey
  apply (List.perm_ext_iff_of_nodup hleft hright).mpr
  intro row
  rw [List.mem_append, List.mem_append]
  constructor
  . intro h
    cases h with
    | inl hdropped => exact .inl (List.mem_of_mem_filter hdropped)
    | inr htarget =>
      obtain ⟨pending, hmem, rfl⟩ := List.mem_map.mp htarget
      cases planRow_cases hdistinct pending with
      | inl hretained =>
        obtain ⟨i, row, -, hget, -, hrow⟩ := hretained
        rw [hrow]
        exact .inl (List.mem_of_getElem? hget)
      | inr hfresh =>
        rw [hfresh.2.2]
        exact .inr (List.mem_map.mpr ⟨pending, List.mem_filter.mpr ⟨hmem, decide_eq_true hfresh.2.1⟩, rfl⟩)
  . intro h
    cases h with
    | inl hrow =>
      by_cases hkey : row.key ∈ pendings.map PendingKeyedRow.key
      . obtain ⟨pending, hmem, hsame⟩ := List.mem_map.mp hkey
        refine .inr (List.mem_map.mpr ⟨pending, hmem, ?_⟩)
        cases planRow_cases hdistinct pending with
        | inl hretained =>
          obtain ⟨i, found, -, hget, hfound, htarget⟩ := hretained
          obtain ⟨j, hj⟩ := List.mem_iff_getElem?.mp hrow
          rw [htarget]
          exact (row_unique hdistinct hget hj (hfound.trans hsame)).2
        | inr hfresh => exact absurd (List.mem_map.mpr ⟨row, hrow, hsame.symm⟩) hfresh.2.1
      . exact .inl (List.mem_filter.mpr ⟨hrow, decide_eq_true hkey⟩)
    | inr hfresh =>
      obtain ⟨pending, hmem, rfl⟩ := List.mem_map.mp hfresh
      obtain ⟨hmem, hkey⟩ := List.mem_filter.mp hmem
      refine .inr (List.mem_map.mpr ⟨pending, hmem, ?_⟩)
      cases planRow_cases hdistinct pending with
      | inl hretained =>
        obtain ⟨i, found, -, hget, hfound, -⟩ := hretained
        exact absurd (List.mem_map.mpr ⟨found, List.mem_of_getElem? hget, hfound⟩) (of_decide_eq_true hkey)
      | inr hfresh => exact hfresh.2.2

theorem mem_oldIndices (hdistinct : (rows.map KeyedRow.key).Nodup) {i : Nat} {row : KeyedRow K N} (hrow : rows[i]? = some row)
    : i ∈ (pendings.map (planRow rows)).filterMap PlannedKeyedRow.oldIndex ↔ row.key ∈ pendings.map PendingKeyedRow.key := by
  rw [List.filterMap_map, List.mem_filterMap, List.mem_map]
  constructor
  . intro h
    obtain ⟨pending, hmem, hindex⟩ := h
    refine ⟨pending, hmem, ?_⟩
    cases planRow_cases hdistinct pending with
    | inl hretained =>
      obtain ⟨j, found, hplan, hget, hkey, -⟩ := hretained
      rw [Function.comp_apply, hplan] at hindex
      cases hindex
      rw [hrow, Option.some.injEq] at hget
      rw [hget, hkey]
    | inr hfresh =>
      rw [Function.comp_apply, hfresh.1] at hindex
      cases hindex
  . intro h
    obtain ⟨pending, hmem, hkey⟩ := h
    refine ⟨pending, hmem, ?_⟩
    cases planRow_cases hdistinct pending with
    | inl hretained =>
      obtain ⟨j, found, hplan, hget, hfound, -⟩ := hretained
      rw [Function.comp_apply, hplan, (row_unique hdistinct hrow hget (hkey.symm.trans hfound.symm)).1]
      rfl
    | inr hfresh => exact absurd (List.mem_map.mpr ⟨row, List.mem_of_getElem? hrow, hkey.symm⟩) hfresh.2.1

theorem foldl_set_map {α β : Type} {values : List β} {f : β → α} {value : α} {select : β → Bool} {indices : List Nat}
    (h : ∀ i row, values[i]? = some row → (i ∈ indices ↔ select row = true))
    : indices.foldl (fun list i => list.set i value) (values.map f)
      = values.map (fun row => if select row then value else f row) := by
  have hget : ∀ (list : List α) (j : Nat), (indices.foldl (fun list i => list.set i value) list)[j]?
      = if j ∈ indices then list[j]?.map (fun _ => value) else list[j]? := by
    clear h
    induction indices with
    | nil => exact fun list j => (if_neg List.not_mem_nil).symm
    | cons i indices ih =>
      intro list j
      rw [List.foldl_cons, ih, List.getElem?_set']
      by_cases hhere : i = j
      . rw [if_pos hhere, if_pos (List.mem_cons.mpr (.inl hhere.symm))]
        cases list[j]? with
        | none => exact ite_self _
        | some old => exact ite_self _
      . rw [if_neg hhere]
        by_cases hmem : j ∈ indices
        . rw [if_pos hmem, if_pos (List.mem_cons_of_mem _ hmem)]
        . rw [if_neg hmem, if_neg (fun h => (List.mem_cons.mp h).elim (fun h => hhere h.symm) hmem)]
  apply List.ext_getElem?
  intro j
  rw [hget, List.getElem?_map, List.getElem?_map]
  cases hrow : values[j]? with
  | none =>
    rw [Option.map_none, Option.map_none, Option.map_none, ite_self]
  | some row =>
    rw [Option.map_some, Option.map_some, Option.map_some]
    by_cases hselect : select row = true
    . rw [if_pos ((h j row hrow).mpr hselect), if_pos hselect]
    . rw [if_neg (fun hmem => hselect ((h j row hrow).mp hmem)), if_neg hselect]

end Rows

end Pliego.Keyed
