import Pliego.Dom.KeyedUpdate

/-!
A keyed view reaches its new rows, and only retained rows that are not marked are moved.
-/

namespace Pliego.Keyed

open Siblings

variable {K N : Type}

/-
Retirement and ownership
-/

section Retirement

variable [DecidableEq K] {rows : List (KeyedRow K N)} {pendings : List (PendingKeyedRow K N)} {state : Placing N}

theorem retainedFlags_eq (hdistinct : (rows.map KeyedRow.key).Nodup)
    : retainedFlags rows.length (pendings.map (planRow rows))
      = rows.map (fun row => decide (row.key ∈ pendings.map PendingKeyedRow.key)) := by
  unfold retainedFlags
  rw [← List.map_const', @foldl_set_map Bool (KeyedRow K N) rows (fun _ => false) true
    (fun row => decide (row.key ∈ pendings.map PendingKeyedRow.key)) _
    (fun i row hrow => by rw [mem_oldIndices hdistinct hrow, decide_eq_true_eq])]
  apply List.map_congr_left
  intro row hrow
  cases decide (row.key ∈ pendings.map PendingKeyedRow.key) with
  | true => rfl
  | false => rfl

omit [DecidableEq K] in
theorem retireRows_eq [DecidableEq N] {select : KeyedRow K N → Bool}
    : retireRows rows (rows.map select) state
      = retireNodes state ((rows.filter (fun row => !select row)).flatMap KeyedRow.nodes) := by
  unfold retireRows
  induction rows generalizing state with
  | nil =>
    unfold retireNodes
    rw [List.map_nil, List.zip_nil_right, List.foldl_nil, List.filter_nil, List.flatMap_nil, List.map_nil, List.append_nil]
    rfl
  | cons row rows ih =>
    rw [List.map_cons, List.zip_cons_cons, List.foldl_cons, ih]
    cases hselect : select row with
    | true => rw [List.filter_cons_of_neg (by rw [hselect]; exact Bool.false_ne_true), if_pos rfl]
    | false =>
      rw [List.filter_cons_of_pos (by rw [hselect]; rfl), if_neg Bool.false_ne_true, List.flatMap_cons]
      unfold retireNodes KeyedRow.nodes
      rw [List.foldl_append, List.map_append, List.append_assoc]

section

variable (hdistinct : (rows.map KeyedRow.key).Nodup)

include hdistinct

theorem retireRows_dropped [DecidableEq N]
    : retireRows rows (retainedFlags rows.length (pendings.map (planRow rows))) state
      = retireNodes state ((droppedRows rows pendings).flatMap KeyedRow.nodes) := by
  rw [retainedFlags_eq hdistinct, retireRows_eq]
  unfold droppedRows
  congr 2
  apply List.filter_congr
  intro row hrow
  rw [decide_not]

theorem handOver_plan (hpending : (pendings.map PendingKeyedRow.key).Nodup) {slots : List (Option (KeyedRow K N))}
    (hslots : ∀ (i : Nat) (row : KeyedRow K N), rows[i]? = some row → row.key ∈ pendings.map PendingKeyedRow.key → slots[i]? = some (some row))
    : handOver slots (pendings.map (planRow rows))
      = some (targetRows rows pendings, ((pendings.map (planRow rows)).filterMap PlannedKeyedRow.oldIndex).foldl
          (fun slots i => slots.set i none) slots) := by
  induction pendings generalizing slots with
  | nil => rfl
  | cons pending rest ih =>
    obtain ⟨hother, hrest⟩ := List.nodup_cons.mp hpending
    unfold targetRows
    rw [List.map_cons, List.map_cons, List.filterMap_cons]
    cases planRow_cases hdistinct pending with
    | inl hretained =>
      obtain ⟨i, row, hplan, hget, hkey, htarget⟩ := hretained
      have hslot := hslots i row hget (List.mem_map.mpr ⟨pending, List.mem_cons_self, hkey.symm⟩)
      rw [hplan, htarget]
      unfold handOver
      dsimp only [PlannedKeyedRow.oldIndex]
      rw [hslot]
      dsimp only
      rw [ih hrest, Option.map_some, List.foldl_cons]
      . rfl
      -- The slot that is taken belongs to no row that is still to come.
      . intro j other hj hmem
        have hne : i ≠ j := by
          intro hsame
          rw [hsame, hj, Option.some.injEq] at hget
          rw [hget, hkey] at hmem
          exact hother hmem
        rw [List.getElem?_set_ne hne]
        exact hslots j other hj (List.mem_cons_of_mem _ hmem)
    | inr hfresh =>
      rw [hfresh.1, hfresh.2.2]
      unfold handOver
      dsimp only [PlannedKeyedRow.oldIndex]
      rw [ih hrest (fun j other hj hmem => hslots j other hj (List.mem_cons_of_mem _ hmem))]
      rfl

theorem handOver_rows (hpending : (pendings.map PendingKeyedRow.key).Nodup)
    : ∃ left, handOver (rows.map some) (pendings.map (planRow rows)) = some (targetRows rows pendings, left)
        ∧ left.filterMap id = droppedRows rows pendings := by
  refine ⟨_, handOver_plan hdistinct hpending ?_, ?_⟩
  . intro i row hrow hkey
    rw [List.getElem?_map, hrow]
    rfl
  . have hset := @foldl_set_map (Option (KeyedRow K N)) (KeyedRow K N) rows some none
      (fun row => decide (row.key ∈ pendings.map PendingKeyedRow.key)) _
      (fun i row hrow => by rw [mem_oldIndices hdistinct hrow, decide_eq_true_eq])
    rw [hset, List.filterMap_map]
    unfold droppedRows
    rw [← List.filterMap_eq_filter]
    congr 1
    funext row
    by_cases hkey : row.key ∈ pendings.map PendingKeyedRow.key
    . rw [Function.comp_apply, if_pos (decide_eq_true hkey)]
      exact (if_neg (by rw [decide_eq_true_eq, not_not]; exact hkey)).symm
    . rw [Function.comp_apply, if_neg (by rw [decide_eq_true_eq]; exact hkey)]
      exact (if_pos (decide_eq_true hkey)).symm

end

end Retirement

/-
The siblings before the placement
-/

section Generic

variable {α β : Type}

theorem filter_flatMap_rows {l : List α} {f : α → List β} {p : β → Bool} {q : α → Bool} (h : ∀ a ∈ l, ∀ b ∈ f a, p b = q a)
    : (l.flatMap f).filter p = (l.filter q).flatMap f := by
  induction l with
  | nil => rfl
  | cons a l ih =>
    rw [List.flatMap_cons, List.filter_append, ih (fun a ha => h a (List.mem_cons_of_mem _ ha))]
    have hhead := h a List.mem_cons_self
    cases hq : q a with
    | true =>
      rw [List.filter_cons_of_pos hq, List.flatMap_cons, List.filter_eq_self.mpr (fun b hb => (hhead b hb).trans hq)]
    | false =>
      rw [List.filter_cons_of_neg (Bool.eq_false_iff.mp hq),
        List.filter_eq_nil_iff.mpr (fun b hb => by rw [hhead b hb, hq]; exact Bool.false_ne_true), List.nil_append]

theorem eq_of_mem_flatMap {l : List α} {f : α → List β} (hnodup : (l.flatMap f).Nodup) {a a' : α} {b : β} (ha : a ∈ l)
    (ha' : a' ∈ l) (hb : b ∈ f a) (hb' : b ∈ f a')
    : a = a' := by
  induction l with
  | nil => cases ha
  | cons first l ih =>
    rw [List.flatMap_cons, List.nodup_append] at hnodup
    have hapart : ∀ other ∈ l, b ∈ f first → b ∉ f other :=
      fun other hother hfirst hmem => hnodup.2.2 b hfirst b (List.mem_flatMap.mpr ⟨other, hother, hmem⟩) rfl
    cases List.mem_cons.mp ha with
    | inl hsame =>
      cases List.mem_cons.mp ha' with
      | inl hsame' => rw [hsame, hsame']
      | inr hrest' => exact absurd hb' (hapart a' hrest' (hsame ▸ hb))
    | inr hrest =>
      cases List.mem_cons.mp ha' with
      | inl hsame' => exact absurd hb (hapart a hrest (hsame' ▸ hb'))
      | inr hrest' => exact ih hnodup.2.1 hrest hrest'

end Generic

section Marked

variable {todo : List (MarkedRow K N)}

def keptEntries (todo : List (MarkedRow K N)) : List (Nat × OwnedRangeSnapshot N) :=
  (todo.filter MarkedRow.kept).filterMap (fun row => row.1.oldIndex.map (fun index => (index, row.1.snapshot)))

theorem keptEntries_fst : (keptEntries todo).map Prod.fst = keptIndices todo := by
  unfold keptEntries keptIndices
  induction todo with
  | nil => rfl
  | cons row todo ih =>
    match row with
    | (.retained index snapshot, true) => exact congrArg (List.cons index) ih
    | (.retained index snapshot, false) => exact ih
    | (.fresh key staged, true) => exact ih
    | (.fresh key staged, false) => exact ih

theorem keptEntries_nodes
    : (keptEntries todo).flatMap (fun entry => entry.2.nodes) = (todo.filter MarkedRow.kept).flatMap MarkedRow.nodes := by
  unfold keptEntries
  induction todo with
  | nil => rfl
  | cons row todo ih =>
    match row with
    | (.retained index snapshot, true) => exact congrArg (snapshot.nodes ++ ·) ih
    | (.retained index snapshot, false) => exact ih
    | (.fresh key staged, true) => exact ih
    | (.fresh key staged, false) => exact ih

theorem mem_keptIndices {i : Nat} : i ∈ keptIndices todo ↔ ∃ row ∈ todo, row.2 = true ∧ row.1.oldIndex = some i := by
  unfold keptIndices
  rw [List.mem_filterMap]
  constructor
  . intro h
    obtain ⟨row, hrow, hindex⟩ := h
    cases hmark : row.2 with
    | true =>
      rw [hmark, if_pos rfl] at hindex
      exact ⟨row, hrow, hmark, hindex⟩
    | false =>
      rw [hmark, if_neg Bool.false_ne_true] at hindex
      cases hindex
  . intro h
    obtain ⟨row, hrow, hmark, hindex⟩ := h
    exact ⟨row, hrow, by rw [if_pos hmark]; exact hindex⟩

end Marked

section Siblings

variable [DecidableEq K] {rows : List (KeyedRow K N)} {pendings : List (PendingKeyedRow K N)}
  {keep : List Bool}

section

variable (hdistinct : (rows.map KeyedRow.key).Nodup)

include hdistinct

theorem planned_retained {row : PlannedKeyedRow K N} {i : Nat}
    (hmem : row ∈ pendings.map (planRow rows)) (hindex : row.oldIndex = some i)
    : ∃ old, rows[i]? = some old ∧ row.snapshot = old.scope := by
  obtain ⟨pending, -, rfl⟩ := List.mem_map.mp hmem
  cases planRow_cases hdistinct pending with
  | inl hretained =>
    obtain ⟨j, old, hplan, hget, -, -⟩ := hretained
    rw [hplan] at hindex ⊢
    cases hindex
    exact ⟨old, hget, rfl⟩
  | inr hfresh =>
    rw [hfresh.1] at hindex
    cases hindex

theorem marked_nodes (hlength : keep.length = (pendings.map (planRow rows)).length)
    : ((pendings.map (planRow rows)).zip keep).flatMap MarkedRow.nodes = (targetRows rows pendings).flatMap KeyedRow.nodes := by
  have hfst := @List.map_fst_zip _ _ (pendings.map (planRow rows)) keep hlength.ge
  have hleft : ((pendings.map (planRow rows)).zip keep).flatMap MarkedRow.nodes
      = (((pendings.map (planRow rows)).zip keep).map Prod.fst).flatMap (fun row => row.snapshot.nodes) := by
    rw [List.flatMap_map]
    rfl
  unfold targetRows
  rw [hleft, hfst, List.flatMap_map, List.flatMap_map]
  congr 1
  funext pending
  exact congrArg OwnedRangeSnapshot.nodes (planRow_snapshot hdistinct pending)

theorem stale_iff [DecidableEq N] (hlength : keep.length = (pendings.map (planRow rows)).length)
    (hnodes : ((droppedRows rows pendings).flatMap KeyedRow.nodes
      ++ ((pendings.map (planRow rows)).zip keep).flatMap MarkedRow.nodes).Nodup)
    {i : Nat} {old : KeyedRow K N} (hold : rows[i]? = some old) {node : N} (hnode : node ∈ old.nodes)
    : node ∉ staleNodes ((droppedRows rows pendings).flatMap KeyedRow.nodes) ((pendings.map (planRow rows)).zip keep)
      ↔ i ∈ keptIndices ((pendings.map (planRow rows)).zip keep) := by
  rw [mem_keptIndices]
  unfold staleNodes
  rw [List.mem_append, not_or]
  constructor
  . intro h
    obtain ⟨hdropped, hunmarked⟩ := h
    have hkey : old.key ∈ pendings.map PendingKeyedRow.key := by
      by_contra hkey
      exact hdropped (List.mem_flatMap.mpr
        ⟨old, List.mem_filter.mpr ⟨List.mem_of_getElem? hold, decide_eq_true hkey⟩, hnode⟩)
    obtain ⟨row, hrow, hindex⟩ := List.mem_filterMap.mp ((mem_oldIndices hdistinct hold).mpr hkey)
    obtain ⟨found, hfound, hsnapshot⟩ := planned_retained hdistinct hrow hindex
    rw [hold, Option.some.injEq] at hfound
    obtain ⟨position, hposition⟩ := List.mem_iff_getElem?.mp hrow
    have hlt : position < keep.length := by
      rw [hlength]
      exact (List.getElem?_eq_some_iff.mp hposition).1
    have hmem : (row, keep[position]) ∈ (pendings.map (planRow rows)).zip keep :=
      List.mem_iff_getElem?.mpr ⟨position, List.getElem?_zip_eq_some.mpr ⟨hposition, List.getElem?_eq_getElem hlt⟩⟩
    refine ⟨_, hmem, ?_, hindex⟩
    by_contra hmark
    rw [Bool.not_eq_true] at hmark
    apply hunmarked
    refine List.mem_flatMap.mpr ⟨_, List.mem_filter.mpr ⟨hmem, ?_⟩, ?_⟩
    . unfold MarkedRow.unmarked
      rw [hindex, hmark]
      rfl
    . unfold MarkedRow.nodes
      rw [hsnapshot, ← hfound]
      exact hnode
  . intro h
    obtain ⟨row, hrow, hmark, hindex⟩ := h
    obtain ⟨found, hfound, hsnapshot⟩ := planned_retained hdistinct (List.of_mem_zip hrow).1 hindex
    rw [hold, Option.some.injEq] at hfound
    have hmem : node ∈ row.nodes := by
      unfold MarkedRow.nodes
      rw [hsnapshot, ← hfound]
      exact hnode
    obtain ⟨-, hflat, hapart⟩ := List.nodup_append.mp hnodes
    refine ⟨fun hdropped => hapart node hdropped node (List.mem_flatMap.mpr ⟨row, hrow, hmem⟩) rfl, fun hunmarked => ?_⟩
    obtain ⟨other, hother, hnode'⟩ := List.mem_flatMap.mp hunmarked
    obtain ⟨hother, hselected⟩ := List.mem_filter.mp hother
    have hsame := eq_of_mem_flatMap hflat hrow hother hmem hnode'
    unfold MarkedRow.unmarked at hselected
    rw [← hsame, hmark, Bool.not_true, Bool.and_false] at hselected
    cases hselected

theorem kept_nodes [DecidableEq N] (hmarks : LongestMarks (pendings.map (planRow rows)) keep)
    (hnodes : ((droppedRows rows pendings).flatMap KeyedRow.nodes
      ++ ((pendings.map (planRow rows)).zip keep).flatMap MarkedRow.nodes).Nodup)
    : (rows.flatMap KeyedRow.nodes).filter (fun child => decide (child ∉ staleNodes
          ((droppedRows rows pendings).flatMap KeyedRow.nodes) ((pendings.map (planRow rows)).zip keep)))
      = (((pendings.map (planRow rows)).zip keep).filter MarkedRow.kept).flatMap MarkedRow.nodes := by
  have hindexed : rows.flatMap KeyedRow.nodes
      = (rows.zipIdx.map (fun row => (row.2, row.1.scope))).flatMap (fun entry => entry.2.nodes) := by
    conv_lhs => rw [← @List.zipIdx_map_fst _ 0 rows]
    rw [List.flatMap_map, List.flatMap_map]
    rfl
  have hselect : ∀ entry ∈ rows.zipIdx.map (fun row => (row.2, row.1.scope)), ∀ node ∈ entry.2.nodes,
      decide (node ∉ staleNodes ((droppedRows rows pendings).flatMap KeyedRow.nodes) ((pendings.map (planRow rows)).zip keep))
        = decide (entry.1 ∈ keptIndices ((pendings.map (planRow rows)).zip keep)) := by
    intro entry hentry node hnode
    obtain ⟨row, hrow, rfl⟩ := List.mem_map.mp hentry
    rw [decide_eq_decide]
    exact stale_iff hdistinct hmarks.length hnodes (List.mem_zipIdx_iff_getElem?.mp hrow) hnode
  rw [hindexed, filter_flatMap_rows hselect, ← keptEntries_nodes]
  congr 1
  apply Patience.filter_eq_of_subset
  . rw [List.pairwise_map]
    have hpositions : (rows.zipIdx.map Prod.snd).Pairwise (· < ·) := by
      rw [List.zipIdx_map_snd]
      exact List.pairwise_lt_range'
    exact List.pairwise_map.mp hpositions
  . rw [← List.pairwise_map, keptEntries_fst]
    exact hmarks.increasing
  . intro entry hentry
    unfold keptEntries at hentry
    obtain ⟨row, hrow, hentry⟩ := List.mem_filterMap.mp hentry
    obtain ⟨index, hindex, rfl⟩ := Option.map_eq_some_iff.mp hentry
    obtain ⟨old, hold, hsnapshot⟩ := planned_retained hdistinct (List.of_mem_zip (List.mem_of_mem_filter hrow)).1 hindex
    rw [hsnapshot]
    exact List.mem_map.mpr ⟨(old, index), List.mem_zipIdx_iff_getElem?.mpr hold, rfl⟩
  . intro entry hentry
    rw [decide_eq_true_eq, ← keptEntries_fst, List.mem_map]

end

end Siblings

/-
The update
-/

section Update

variable [DecidableEq K] [DecidableEq N] {slot : KeyedSlot K N} {pendings : List (PendingKeyedRow K N)}

structure Staged (slot : KeyedSlot K N) (pendings : List (PendingKeyedRow K N)) : Prop where
  distinct : (pendings.map PendingKeyedRow.key).Nodup
  bounded : ∀ row ∈ freshRows slot.rows pendings, row.scope.Bounded
  apart : (slot.children ++ (freshRows slot.rows pendings).flatMap KeyedRow.nodes).Nodup

omit [DecidableEq K] [DecidableEq N] in
theorem scopes_nodes {rows : List (KeyedRow K N)}
    : (rows.map KeyedRow.scope).flatMap OwnedRangeSnapshot.nodes = rows.flatMap KeyedRow.nodes := by
  rw [List.flatMap_map]
  rfl

theorem slot_layout (slot : KeyedSlot K N)
    : (∀ row ∈ slot.rows, row.scope.Bounded)
      ∧ ∃ front back, slot.children = front ++ slot.start :: (slot.rows.flatMap KeyedRow.nodes ++ slot.endNode :: back) := by
  obtain ⟨hbounded, front, back, hlayout⟩ := (validateKeyedLayout_iff slot.nodup).mp slot.layout
  rw [scopes_nodes] at hlayout
  exact ⟨fun row hrow => hbounded _ (List.mem_map_of_mem hrow), front, back, hlayout⟩

section

variable (h : Staged slot pendings)

include h

theorem target_bounded : ∀ row ∈ targetRows slot.rows pendings, row.scope.Bounded := by
  intro row hrow
  have hmem := (target_perm slot.distinct h.distinct).mem_iff.mp (List.mem_append_right _ hrow)
  cases List.mem_append.mp hmem with
  | inl hold => exact (slot_layout slot).1 row hold
  | inr hfresh => exact h.bounded row hfresh

theorem target_nodup
    : ((droppedRows slot.rows pendings).flatMap KeyedRow.nodes
        ++ (targetRows slot.rows pendings).flatMap KeyedRow.nodes).Nodup := by
  obtain ⟨-, front, back, hlayout⟩ := slot_layout slot
  have hperm := (target_perm slot.distinct h.distinct).flatMap_right KeyedRow.nodes
  rw [List.flatMap_append, List.flatMap_append] at hperm
  rw [hperm.nodup_iff]
  refine List.Nodup.sublist (List.Sublist.append_right ?_ _) h.apart
  rw [hlayout]
  exact ((List.sublist_append_left _ _).trans (List.sublist_cons_self _ _)).trans (List.sublist_append_right _ _)

theorem unlisted_fresh {keep : List Bool} {row : MarkedRow K N}
    (hrow : row ∈ (slot.plan pendings).zip keep) (hfresh : row.fresh = true)
    : ∀ node ∈ row.nodes, node ∉ slot.children := by
  intro node hnode hchild
  obtain ⟨pending, hmem, hplan⟩ := List.mem_map.mp (List.of_mem_zip hrow).1
  apply (List.nodup_append.mp h.apart).2.2 node hchild node _ rfl
  cases planRow_cases slot.distinct pending with
  | inl hretained =>
    obtain ⟨i, old, hretained, -⟩ := hretained
    unfold MarkedRow.fresh at hfresh
    rw [← hplan, hretained] at hfresh
    cases hfresh
  | inr hnew =>
    refine List.mem_flatMap.mpr ⟨⟨pending.key, pending.staged⟩, ?_, ?_⟩
    . exact List.mem_map.mpr ⟨pending, List.mem_filter.mpr ⟨hmem, decide_eq_true hnew.2.1⟩, rfl⟩
    . unfold MarkedRow.nodes at hnode
      rw [← hplan, hnew.1] at hnode
      exact hnode

theorem placed_start {keep : List Bool} (hmarks : LongestMarks (slot.plan pendings) keep) {front back : List N}
    (hlayout : slot.children = front ++ slot.start :: (slot.rows.flatMap KeyedRow.nodes ++ slot.endNode :: back))
    : Placed (front ++ [slot.start]) ((droppedRows slot.rows pendings).flatMap KeyedRow.nodes)
        ((slot.plan pendings).zip keep) (slot.endNode :: back) ⟨slot.endNode, slot.children, []⟩ := by
  have hnodes := target_nodup h
  have hmarked := marked_nodes slot.distinct hmarks.length
  rw [← hmarked] at hnodes
  refine ⟨slot.nodup, rfl, ?_, fun row hrow hfresh => unlisted_fresh h hrow hfresh⟩
  have hkept := kept_nodes slot.distinct hmarks hnodes
  -- No node outside the rows is stale.
  have hstale : ∀ node ∈ staleNodes ((droppedRows slot.rows pendings).flatMap KeyedRow.nodes)
      ((slot.plan pendings).zip keep), node ∈ slot.rows.flatMap KeyedRow.nodes := by
    intro node hnode
    cases List.mem_append.mp hnode with
    | inl hdropped =>
      obtain ⟨row, hrow, hmem⟩ := List.mem_flatMap.mp hdropped
      exact List.mem_flatMap.mpr ⟨row, List.mem_of_mem_filter hrow, hmem⟩
    | inr hunmarked =>
      obtain ⟨row, hrow, hmem⟩ := List.mem_flatMap.mp hunmarked
      obtain ⟨hrow, hselected⟩ := List.mem_filter.mp hrow
      unfold MarkedRow.unmarked at hselected
      rw [Bool.and_eq_true] at hselected
      obtain ⟨index, hindex⟩ := Option.isSome_iff_exists.mp hselected.1
      obtain ⟨old, hold, hsnapshot⟩ := planned_retained slot.distinct (List.of_mem_zip hrow).1 hindex
      refine List.mem_flatMap.mpr ⟨old, List.mem_of_getElem? hold, ?_⟩
      unfold MarkedRow.nodes at hmem
      rw [hsnapshot] at hmem
      exact hmem
  have hnodup := slot.nodup
  have hsplit : front ++ slot.start :: (slot.rows.flatMap KeyedRow.nodes ++ slot.endNode :: back)
      = (front ++ [slot.start]) ++ (slot.rows.flatMap KeyedRow.nodes ++ slot.endNode :: back) := by
    rw [List.append_assoc, List.singleton_append]
  rw [hlayout, hsplit] at hnodup
  obtain ⟨-, hinner, houter⟩ := List.nodup_append.mp hnodup
  have hfront : (front ++ [slot.start]).filter (fun child => decide (child ∉ staleNodes
      ((droppedRows slot.rows pendings).flatMap KeyedRow.nodes) ((slot.plan pendings).zip keep))) = front ++ [slot.start] := by
    apply List.filter_eq_self.mpr
    intro node hnode
    apply decide_eq_true
    exact fun hmem => houter node hnode node (List.mem_append_left _ (hstale node hmem)) rfl
  have hback : (slot.endNode :: back).filter (fun child => decide (child ∉ staleNodes
      ((droppedRows slot.rows pendings).flatMap KeyedRow.nodes) ((slot.plan pendings).zip keep))) = slot.endNode :: back := by
    apply List.filter_eq_self.mpr
    intro node hnode
    apply decide_eq_true
    exact fun hmem => (List.nodup_append.mp hinner).2.2 node (hstale node hmem) node hnode rfl
  dsimp only
  rw [hlayout, hsplit, List.filter_append (front ++ [slot.start]), hfront, List.filter_append, hback]
  unfold KeyedSlot.plan
  rw [hkept]

end

-- What the update has done: the result in terms of the old rows and the new keys.
structure Reaches (slot : KeyedSlot K N) (pendings : List (PendingKeyedRow K N)) (result : Reconciled K N) : Prop where
  marks : keyedLis (slot.plan pendings) = some result.keep
  longest : LongestMarks (slot.plan pendings) result.keep
  siblings : ∃ front back,
    slot.children = front ++ slot.start :: (slot.rows.flatMap KeyedRow.nodes ++ slot.endNode :: back)
      ∧ result.children = front ++ slot.start :: ((targetRows slot.rows pendings).flatMap KeyedRow.nodes ++ slot.endNode :: back)
  moved : result.calls.filterMap DomCall.moved?
    = (((slot.plan pendings).zip result.keep).filter MarkedRow.unmarked).reverse.flatMap MarkedRow.nodes
  inserted : result.calls.filterMap DomCall.inserted? = (freshRows slot.rows pendings).reverse.map KeyedRow.nodes
  retired : result.calls.filterMap DomCall.retired? = (droppedRows slot.rows pendings).flatMap KeyedRow.nodes
  rows : result.rows = targetRows slot.rows pendings
  released : result.retired = droppedRows slot.rows pendings
  movedRows : result.counts.movedRows = (((slot.plan pendings).zip result.keep).filter MarkedRow.unmarked).length
  insertedRows : result.counts.insertedRows = (freshRows slot.rows pendings).length
  removedRows : result.counts.removedRows = (droppedRows slot.rows pendings).length
  previous : result.counts.previousRows = slot.rows.length
    ∧ result.counts.previousRows = result.counts.retainedRows + result.counts.removedRows
  next : result.counts.nextRows = pendings.length
    ∧ result.counts.nextRows = result.counts.retainedRows + result.counts.insertedRows

theorem plan_fresh (hdistinct : (slot.rows.map KeyedRow.key).Nodup) {keep : List Bool}
    (hlength : keep.length = (slot.plan pendings).length)
    : (((slot.plan pendings).zip keep).filter MarkedRow.fresh).map MarkedRow.nodes
      = (freshRows slot.rows pendings).map KeyedRow.nodes := by
  unfold KeyedSlot.plan freshRows at *
  induction pendings generalizing keep with
  | nil => rfl
  | cons pending rest ih =>
    cases keep with
    | nil => cases hlength
    | cons mark keep =>
      have ih := ih (Nat.succ.inj hlength)
      rw [List.map_cons, List.zip_cons_cons]
      cases planRow_cases hdistinct pending with
      | inl hretained =>
        obtain ⟨i, old, hplan, hget, hkey, -⟩ := hretained
        rw [hplan, List.filter_cons_of_neg (by exact Bool.false_ne_true), List.filter_cons_of_neg, ih]
        rw [decide_eq_true_eq, not_not]
        exact List.mem_map.mpr ⟨old, List.mem_of_getElem? hget, hkey⟩
      | inr hfresh =>
        rw [hfresh.1, List.filter_cons_of_pos (by rfl), List.filter_cons_of_pos, List.map_cons, List.map_cons,
          List.map_cons, ih]
        . rfl
        . exact decide_eq_true hfresh.2.1

theorem plan_counts (hdistinct : (slot.rows.map KeyedRow.key).Nodup)
    : ((slot.plan pendings).filter (fun row => row.oldIndex.isSome)).length + (freshRows slot.rows pendings).length
      = pendings.length := by
  unfold KeyedSlot.plan freshRows
  rw [List.length_map, List.filter_map, List.length_map]
  have hselect : ∀ pending ∈ pendings, ((fun row : PlannedKeyedRow K N => row.oldIndex.isSome) ∘ planRow slot.rows) pending
      = decide (pending.key ∈ slot.rows.map KeyedRow.key) := by
    intro pending hmem
    rw [Function.comp_apply]
    cases planRow_cases hdistinct pending with
    | inl hretained =>
      obtain ⟨i, old, hplan, hget, hkey, -⟩ := hretained
      rw [hplan]
      exact (decide_eq_true (List.mem_map.mpr ⟨old, List.mem_of_getElem? hget, hkey⟩)).symm
    | inr hfresh =>
      rw [hfresh.1]
      exact (decide_eq_false hfresh.2.1).symm
  rw [List.filter_congr hselect, ← List.countP_eq_length_filter, ← List.countP_eq_length_filter,
    List.length_eq_countP_add_countP (fun pending => decide (pending.key ∈ slot.rows.map KeyedRow.key))]
  congr 1
  apply List.countP_congr
  intro pending hmem
  rw [decide_eq_true_eq, decide_eq_true_eq, decide_eq_true_eq]

theorem retireNodes_calls {state : Placing N} {nodes : List N}
    : (retireNodes state nodes).calls.filterMap DomCall.moved? = state.calls.filterMap DomCall.moved?
      ∧ (retireNodes state nodes).calls.filterMap DomCall.inserted? = state.calls.filterMap DomCall.inserted?
      ∧ (retireNodes state nodes).calls.filterMap DomCall.retired? = state.calls.filterMap DomCall.retired? ++ nodes := by
  unfold retireNodes
  dsimp only
  rw [List.filterMap_append, List.filterMap_append, List.filterMap_append, List.filterMap_map, List.filterMap_map,
    List.filterMap_map]
  refine ⟨?_, ?_, ?_⟩
  . exact (congrArg _ (List.filterMap_none _)).trans (List.append_nil _)
  . exact (congrArg _ (List.filterMap_none _)).trans (List.append_nil _)
  . exact congrArg _ List.filterMap_some

theorem retireNodes_children {state : Placing N} (hnodup : state.children.Nodup) {nodes : List N}
    : (retireNodes state nodes).children = state.children.filter (fun child => decide (child ∉ nodes)) := by
  unfold retireNodes
  dsimp only
  rw [← List.diff_eq_foldl, hnodup.sdiff_eq_filter]

theorem reconcile_reaches (slot : KeyedSlot K N) (pendings : List (PendingKeyedRow K N)) (h : Staged slot pendings)
    : ∃ result, reconcile slot pendings = some result ∧ Reaches slot pendings result
        ∧ ∃ next : KeyedSlot K N, next.start = slot.start ∧ next.endNode = slot.endNode ∧ next.rows = result.rows
          ∧ next.children = result.children := by
  obtain ⟨-, front, back, hlayout⟩ := slot_layout slot
  obtain ⟨keep, hkeep, hmarks⟩ := @keyedLis_longest K N (slot.plan pendings)
  have hnodes := target_nodup h
  have hmarked : ((slot.plan pendings).zip keep).flatMap MarkedRow.nodes
      = (targetRows slot.rows pendings).flatMap KeyedRow.nodes := marked_nodes slot.distinct hmarks.length
  have hbounded : ∀ row ∈ (slot.plan pendings).zip keep, row.1.snapshot.Bounded := by
    intro row hrow
    obtain ⟨pending, hmem, hplan⟩ := List.mem_map.mp (List.of_mem_zip hrow).1
    rw [← hplan, planRow_snapshot slot.distinct]
    exact target_bounded h _ (List.mem_map_of_mem hmem)
  rw [← hmarked] at hnodes
  obtain ⟨placed, calls, hplaced, hdone, hcalls, hof⟩ :=
    placeRows_placed (placed_start h hmarks hlayout) hbounded hnodes
  rw [hmarked] at hdone
  -- The children once the dropped rows are gone.
  have hchildren : (retireNodes placed ((droppedRows slot.rows pendings).flatMap KeyedRow.nodes)).children
      = front ++ slot.start :: ((targetRows slot.rows pendings).flatMap KeyedRow.nodes ++ slot.endNode :: back) := by
    have hlive := hdone.live
    unfold staleNodes at hlive
    rw [List.filter_nil, List.flatMap_nil, List.append_nil, List.filter_nil, List.flatMap_nil, List.nil_append,
      List.append_assoc, List.singleton_append] at hlive
    rw [retireNodes_children hdone.nodup, hlive]
  have hnodup : (retireNodes placed ((droppedRows slot.rows pendings).flatMap KeyedRow.nodes)).children.Nodup := by
    rw [retireNodes_children hdone.nodup]
    exact hdone.nodup.filter _
  have htargets : (slot.plan pendings).map PlannedKeyedRow.snapshot
      = (targetRows slot.rows pendings).map KeyedRow.scope := by
    unfold KeyedSlot.plan targetRows
    rw [List.map_map, List.map_map]
    exact List.map_congr_left (fun pending _ => planRow_snapshot slot.distinct pending)
  have hvalid : validateKeyedLayout (retireNodes placed ((droppedRows slot.rows pendings).flatMap KeyedRow.nodes)).children
      slot.start slot.endNode ((targetRows slot.rows pendings).map KeyedRow.scope) = true := by
    apply (validateKeyedLayout_iff hnodup).mpr
    rw [scopes_nodes]
    refine ⟨?_, front, back, hchildren⟩
    intro row hrow
    obtain ⟨target, htarget, rfl⟩ := List.mem_map.mp hrow
    exact target_bounded h target htarget
  obtain ⟨left, hleft, hreleased⟩ := handOver_rows slot.distinct h.distinct
  have hrun : reconcile slot pendings = some ⟨keep, reconcileCounts slot.rows.length (slot.plan pendings) keep,
      (retireNodes placed ((droppedRows slot.rows pendings).flatMap KeyedRow.nodes)).children,
      (retireNodes placed ((droppedRows slot.rows pendings).flatMap KeyedRow.nodes)).calls,
      targetRows slot.rows pendings, left.filterMap id⟩ := by
    have hretire : retireRows slot.rows (retainedFlags slot.rows.length (slot.plan pendings)) placed
        = retireNodes placed ((droppedRows slot.rows pendings).flatMap KeyedRow.nodes) := retireRows_dropped slot.distinct
    have hhand : handOver (slot.rows.map some) (slot.plan pendings) = some (targetRows slot.rows pendings, left) := hleft
    unfold reconcile placeRows
    simp only [Option.bind_eq_bind]
    rw [hkeep, Option.bind_some, hplaced, Option.bind_some, hretire, htargets, if_pos hvalid, hhand]
    rfl
  have hsplits := @retireNodes_calls N _ placed ((droppedRows slot.rows pendings).flatMap KeyedRow.nodes)
  have hcounts := @plan_counts K N _ _ slot pendings slot.distinct
  have hlengths := (target_perm slot.distinct h.distinct).length_eq
  rw [List.length_append, List.length_append] at hlengths
  unfold targetRows at hlengths
  rw [List.length_map] at hlengths
  have hplan : (slot.plan pendings).length = pendings.length := List.length_map _
  refine ⟨_, hrun, ⟨hkeep, hmarks, ⟨front, back, hlayout, hchildren⟩, ?_, ?_, ?_, rfl, hreleased, rfl, ?_, ?_, ⟨rfl, ?_⟩,
    ⟨hplan, ?_⟩⟩, ⟨slot.start, slot.endNode, targetRows slot.rows pendings, _, hnodup, ?_, hvalid⟩, rfl, rfl, rfl, rfl⟩
  . dsimp only
    rw [hsplits.1, hcalls]
    exact hof.moved
  . dsimp only
    rw [hsplits.2.1, hcalls]
    refine hof.inserted.trans ?_
    rw [List.map_reverse, List.map_reverse, plan_fresh slot.distinct hmarks.length]
  . dsimp only
    rw [hsplits.2.2, hcalls, List.nil_append, hof.retired, List.nil_append]
  . unfold reconcileCounts
    dsimp only
    omega
  . unfold reconcileCounts
    dsimp only
    omega
  . unfold reconcileCounts
    dsimp only
    omega
  . unfold reconcileCounts
    dsimp only
    omega
  . rw [targetRows_key slot.distinct]
    exact h.distinct

def sampleSlot : KeyedSlot Nat Nat where
  start := 1
  endNode := 2
  rows := [⟨7, ⟨10, 11, [10, 11]⟩⟩, ⟨8, ⟨20, 21, [20, 21]⟩⟩, ⟨9, ⟨30, 31, [30, 31]⟩⟩]
  children := [0, 1, 10, 11, 20, 21, 30, 31, 2, 3]
  nodup := by decide
  distinct := by decide
  layout := by decide

def samplePendings : List (PendingKeyedRow Nat Nat) :=
  [⟨9, ⟨0, 0, []⟩⟩, ⟨5, ⟨40, 41, [40, 41]⟩⟩, ⟨7, ⟨0, 0, []⟩⟩]

example : (reconcile sampleSlot samplePendings).map (fun result => (result.keep, result.children, result.counts))
    = some ([false, false, true], [0, 1, 30, 31, 40, 41, 10, 11, 2, 3], ⟨3, 3, 2, 1, 1, 1⟩) := by
  decide

theorem reconcile_reaches_sample
    : ∃ result, reconcile sampleSlot samplePendings = some result ∧ Reaches sampleSlot samplePendings result
        ∧ ∃ next : KeyedSlot Nat Nat, next.start = sampleSlot.start ∧ next.endNode = sampleSlot.endNode ∧ next.rows = result.rows
          ∧ next.children = result.children := by
  apply reconcile_reaches
  refine ⟨by decide, ?_, by decide⟩
  intro row hrow
  rw [List.mem_singleton.mp (show row ∈ [⟨5, ⟨40, 41, [40, 41]⟩⟩] from hrow)]
  exact ⟨rfl, rfl⟩

end Update

end Pliego.Keyed
