import Mathlib.Data.List.Nodup
import Mathlib.Data.List.Perm.Subperm

/-!
A generational arena: slots are reused after a removal, and the generation of a slot keeps a handle
to a former occupant from resolving to the next one.
-/

structure Arena.Handle where
  slot : Nat
  generation : Nat
  deriving DecidableEq, Repr

structure Arena.Slot (α : Type) where
  generation : Nat
  node : Option α

structure Arena (α : Type) where
  slots : List (Arena.Slot α)
  free : List Nat

namespace Arena

variable {α : Type} {limit : Nat}

def empty : Arena α := { slots := [], free := [] }

def get (a : Arena α) (id : Handle) : Option α :=
  match a.slots[id.slot]? with
  | none => none
  | some slot => if slot.generation = id.generation then slot.node else none

def modify (a : Arena α) (id : Handle) (f : α → α) : Arena α :=
  match a.slots[id.slot]? with
  | none => a
  | some slot =>
    if slot.generation = id.generation then
      { a with slots := a.slots.set id.slot { slot with node := slot.node.map f } }
    else
      a

def insert (limit : Nat) (a : Arena α) (x : α) : Option (Handle × Arena α) :=
  match a.free with
  | index :: free =>
    match a.slots[index]? with
    | none => none
    | some slot =>
      some (⟨index, slot.generation⟩,
        { slots := a.slots.set index { slot with node := some x }, free := free })
  | [] =>
    if a.slots.length < limit then
      some (⟨a.slots.length, 0⟩, { a with slots := a.slots ++ [⟨0, some x⟩] })
    else
      none

def remove (limit : Nat) (a : Arena α) (id : Handle) : Option (α × Arena α) :=
  match a.slots[id.slot]? with
  | none => none
  | some slot =>
    if slot.generation = id.generation then
      match slot.node with
      | none => none
      | some x =>
        if slot.generation + 1 < limit then
          some (x, { slots := a.slots.set id.slot ⟨slot.generation + 1, none⟩,
                     free := id.slot :: a.free })
        else
          some (x, { a with slots := a.slots.set id.slot { slot with node := none } })
    else
      none

def liveCount (a : Arena α) : Nat :=
  a.slots.countP (·.node.isSome)

structure WellFormed (a : Arena α) : Prop where
  nodup : a.free.Nodup
  empty : ∀ index ∈ a.free, ∃ slot, a.slots[index]? = some slot ∧ slot.node = none

def Spent (a : Arena α) (id : Handle) : Prop :=
  ∃ slot, a.slots[id.slot]? = some slot ∧
    (id.generation < slot.generation ∨
      id.generation = slot.generation ∧ slot.node = none ∧ id.slot ∉ a.free)

variable {a : Arena α} {id : Handle} {x : α}

theorem get_eq_some_iff
    : a.get id = some x
        ↔
      ∃ slot, a.slots[id.slot]? = some slot ∧ slot.generation = id.generation ∧
        slot.node = some x := by
  unfold get
  split
  . next h => simp [h]
  . next slot h =>
    rw [h]
    split
    . next hgen => simp [hgen]
    . next hgen => simp [hgen]

theorem get_of_slot (id : Handle) {slot : Slot α} (h : a.slots[id.slot]? = some slot)
    : a.get id = if slot.generation = id.generation then slot.node else none := by
  unfold get
  rw [h]

theorem wellFormed_empty : (empty : Arena α).WellFormed := by
  constructor
  . exact List.nodup_nil
  . intro index h
    simp [empty] at h

theorem get_set {index : Nat} {slot : Slot α} {free : List Nat} (hindex : index < a.slots.length) (j : Handle)
    : (Arena.mk (a.slots.set index slot) free).get j
        =
      if j.slot = index then
        (if slot.generation = j.generation then slot.node else none)
      else
        a.get j := by
  unfold get
  by_cases hj : j.slot = index
  . subst hj
    simp [hindex]
  . have hne : index ≠ j.slot := fun h => hj h.symm
    simp [hj, hne]

theorem get_modify (a : Arena α) (id j : Handle) (f : α → α)
    : (a.modify id f).get j = if j = id then (a.get j).map f else a.get j := by
  unfold modify
  split
  . next h =>
    split
    . next hj =>
      subst hj
      simp [get, h]
    . rfl
  . next slot h =>
    obtain ⟨hlt, -⟩ := List.getElem?_eq_some_iff.mp h
    split
    . next hgen =>
      rw [get_set hlt]
      by_cases hslot : j.slot = id.slot
      . have hget := get_of_slot j (hslot ▸ h)
        by_cases hj : slot.generation = j.generation
        . have hid : j = id := by
            cases j
            cases id
            simp_all
          rw [hget]
          simp [hid, hgen]
        . have hid : j ≠ id := by
            rintro rfl
            exact hj hgen
          rw [hget]
          simp [hslot, hj, hid]
      . have hid : j ≠ id := by
          rintro rfl
          exact hslot rfl
        simp [hslot, hid]
    . next hgen =>
      split
      . next hj =>
        subst hj
        rw [get_of_slot j h]
        simp [hgen]
      . rfl

theorem WellFormed.modify (h : a.WellFormed) (id : Handle) (f : α → α)
    : (a.modify id f).WellFormed := by
  unfold Arena.modify
  split
  . exact h
  . next slot hslot =>
    split
    . constructor
      . exact h.nodup
      . intro index hmem
        obtain ⟨s, hs, hnone⟩ := h.empty index hmem
        obtain ⟨hlt, -⟩ := List.getElem?_eq_some_iff.mp hs
        by_cases heq : id.slot = index
        . subst heq
          rw [hslot] at hs
          cases hs
          refine ⟨{ slot with node := slot.node.map f }, ?_, ?_⟩
          . simp [hlt]
          . simp [hnone]
        . refine ⟨s, ?_, hnone⟩
          simp [heq, hs]
    . exact h

theorem insert_spec {a b : Arena α} (hwf : a.WellFormed) (h : a.insert limit x = some (id, b))
    : a.get id = none ∧ (∀ j, b.get j = if j = id then some x else a.get j) ∧ b.WellFormed := by
  unfold insert at h
  split at h
  . next index free hfree =>
    obtain ⟨slot, hslot, hnone⟩ := hwf.empty index (by simp [hfree])
    obtain ⟨hlt, -⟩ := List.getElem?_eq_some_iff.mp hslot
    rw [hslot] at h
    simp only [Option.some.injEq, Prod.mk.injEq] at h
    obtain ⟨rfl, rfl⟩ := h
    have hnodup := hwf.nodup
    rw [hfree, List.nodup_cons] at hnodup
    refine ⟨?_, ?_, ?_, ?_⟩
    . rw [get_of_slot ⟨index, slot.generation⟩ hslot]
      simp [hnone]
    . intro j
      rw [get_set hlt]
      cases j with
      | mk s g =>
        by_cases hs : s = index
        . subst hs
          rw [get_of_slot ⟨s, g⟩ hslot]
          by_cases hg : slot.generation = g
          . simp [hg]
          . have hg' : ¬ g = slot.generation := fun h => hg h.symm
            simp [hg, hg']
        . simp [hs]
    . exact hnodup.2
    . intro other hother
      obtain ⟨s, hs, hsnone⟩ := hwf.empty other (by simp [hfree, hother])
      have hne : index ≠ other := by
        rintro rfl
        exact hnodup.1 hother
      exact ⟨s, by simp [hne, hs], hsnone⟩
  . next hfree =>
    split at h
    . simp only [Option.some.injEq, Prod.mk.injEq] at h
      obtain ⟨rfl, rfl⟩ := h
      refine ⟨?_, ?_, ?_, ?_⟩
      . simp [get]
      . intro j
        cases j with
        | mk s g =>
          unfold get
          by_cases hlt : s < a.slots.length
          . have hne : s ≠ a.slots.length := by omega
            simp [List.getElem?_append_left hlt, hne]
          . by_cases heq : s = a.slots.length
            . subst heq
              by_cases hg : g = 0
              . simp [hg]
              . have hg' : ¬ 0 = g := fun h => hg h.symm
                simp [hg, hg']
            . have h1 : a.slots[s]? = none := by
                rw [List.getElem?_eq_none_iff]
                omega
              have h2 : (a.slots ++ [⟨0, some x⟩])[s]? = none := by
                rw [List.getElem?_eq_none_iff]
                simp
                omega
              simp [h1, h2, heq]
      . exact hwf.nodup
      . intro index hindex
        simp [hfree] at hindex
    . cases h

theorem remove_eq_none_iff
    : a.remove limit id = none ↔ a.get id = none := by
  unfold remove get
  split
  . simp
  . split
    . split
      . next h => simp [h]
      . next h => split <;> simp [h]
    . simp

theorem remove_spec {a b : Arena α} (hwf : a.WellFormed) (h : a.remove limit id = some (x, b))
    : a.get id = some x ∧ (∀ j, b.get j = if j = id then none else a.get j) ∧ b.WellFormed ∧
      b.Spent id := by
  unfold remove at h
  split at h
  . cases h
  . next slot hslot =>
    obtain ⟨hlt, -⟩ := List.getElem?_eq_some_iff.mp hslot
    split at h
    . next hgen =>
      split at h
      . cases h
      . next y hy =>
        have hget : a.get id = some y := by
          rw [get_of_slot id hslot]
          simp [hgen, hy]
        have hfresh : id.slot ∉ a.free := by
          intro hmem
          obtain ⟨s, hs, hnone⟩ := hwf.empty _ hmem
          rw [hslot] at hs
          cases hs
          simp [hy] at hnone
        have hkeep : ∀ index, index ∈ a.free → ∃ s, a.slots[index]? = some s ∧ s.node = none ∧
            index ≠ id.slot := by
          intro index hmem
          obtain ⟨s, hs, hnone⟩ := hwf.empty _ hmem
          refine ⟨s, hs, hnone, ?_⟩
          rintro rfl
          exact hfresh hmem
        have hother : ∀ (s : Slot α) (free : List Nat) (j : Handle), s.node = none →
            (Arena.mk (a.slots.set id.slot s) free).get j = if j = id then none else a.get j := by
          intro s free j hs
          rw [get_set hlt]
          by_cases hj : j.slot = id.slot
          . by_cases hid : j = id
            . simp [hid, hs]
            . have hg : ¬ slot.generation = j.generation := by
                intro hg
                apply hid
                cases j
                cases id
                simp_all
              have := get_of_slot j (hj ▸ hslot)
              simp [hj, hs, hid, this, hg]
          . have hid : j ≠ id := by
              rintro rfl
              exact hj rfl
            simp [hj, hid]
        split at h
        . simp only [Option.some.injEq, Prod.mk.injEq] at h
          obtain ⟨rfl, rfl⟩ := h
          refine ⟨hget, fun j => hother _ _ j rfl, ⟨?_, ?_⟩, ?_⟩
          . exact List.nodup_cons.mpr ⟨hfresh, hwf.nodup⟩
          . intro index hmem
            rw [List.mem_cons] at hmem
            cases hmem with
            | inl heq =>
              subst heq
              exact ⟨⟨slot.generation + 1, none⟩, by simp [hlt], rfl⟩
            | inr hmem =>
              obtain ⟨s, hs, hnone, hne⟩ := hkeep index hmem
              exact ⟨s, by simp [hne.symm, hs], hnone⟩
          . refine ⟨⟨slot.generation + 1, none⟩, by simp [hlt], .inl ?_⟩
            simp [hgen]
        . simp only [Option.some.injEq, Prod.mk.injEq] at h
          obtain ⟨rfl, rfl⟩ := h
          refine ⟨hget, fun j => hother _ _ j rfl, ⟨?_, ?_⟩, ?_⟩
          . exact hwf.nodup
          . intro index hmem
            obtain ⟨s, hs, hnone, hne⟩ := hkeep index hmem
            exact ⟨s, by simp [hne.symm, hs], hnone⟩
          . refine ⟨{ slot with node := none }, by simp [hlt], .inr ⟨?_, rfl, hfresh⟩⟩
            simp [hgen]
    . cases h

theorem liveCount_set {index : Nat} {old : Slot α} (slot : Slot α) (free : List Nat)
    (h : a.slots[index]? = some old)
    : (Arena.mk (a.slots.set index slot) free).liveCount + (if old.node.isSome then 1 else 0)
        =
      a.liveCount + (if slot.node.isSome then 1 else 0) := by
  unfold liveCount
  obtain ⟨hlt, hget⟩ := List.getElem?_eq_some_iff.mp h
  have hpos : old.node.isSome = true → 0 < a.slots.countP (·.node.isSome) := by
    intro hold
    rw [List.countP_pos_iff]
    exact ⟨old, List.mem_of_getElem? h, hold⟩
  rw [List.countP_set hlt, hget]
  split
  . next hold =>
    have := hpos hold
    omega
  . omega

theorem liveCount_modify (a : Arena α) (id : Handle) (f : α → α)
    : (a.modify id f).liveCount = a.liveCount := by
  unfold modify
  split
  . rfl
  . next slot hslot =>
    split
    . have h := liveCount_set { slot with node := slot.node.map f } a.free hslot
      simp only [Option.isSome_map] at h
      omega
    . rfl

theorem liveCount_remove {a b : Arena α} (h : a.remove limit id = some (x, b))
    : b.liveCount + 1 = a.liveCount := by
  unfold remove at h
  split at h
  . cases h
  . next slot hslot =>
    split at h
    . split at h
      . cases h
      . next y hy =>
        have hset : ∀ (s : Slot α) (free : List Nat), s.node = none →
            (Arena.mk (a.slots.set id.slot s) free).liveCount + 1 = a.liveCount := by
          intro s free hs
          have := liveCount_set s free hslot
          simpa [hy, hs] using this
        split at h
        . cases h
          exact hset _ _ rfl
        . cases h
          exact hset _ _ rfl
    . cases h

theorem Spent.modify {id j : Handle} {f : α → α} (h : a.Spent j)
    : (a.modify id f).Spent j := by
  unfold Arena.modify
  split
  . exact h
  . next slot hslot =>
    split
    . next hgen =>
      obtain ⟨s, hs, hspent⟩ := h
      obtain ⟨hlt, -⟩ := List.getElem?_eq_some_iff.mp hs
      by_cases heq : id.slot = j.slot
      . rw [heq, hs] at hslot
        cases hslot
        refine ⟨{ slot with node := slot.node.map f }, by simp [heq, hlt], ?_⟩
        cases hspent with
        | inl hlt => exact .inl hlt
        | inr hspent => exact .inr ⟨hspent.1, by simp [hspent.2.1], hspent.2.2⟩
      . exact ⟨s, by simp [heq, hs], hspent⟩
    . exact h

theorem Spent.remove {a b : Arena α} {id j : Handle} (h : a.Spent j) (hremove : a.remove limit id = some (x, b))
    : b.Spent j := by
  unfold Arena.remove at hremove
  split at hremove
  . cases hremove
  . next slot hslot =>
    split at hremove
    . split at hremove
      . cases hremove
      . next y hy =>
        obtain ⟨s, hs, hspent⟩ := h
        obtain ⟨hlt, -⟩ := List.getElem?_eq_some_iff.mp hs
        by_cases heq : id.slot = j.slot
        . rw [heq, hs] at hslot
          cases hslot
          have hold : j.generation < slot.generation := by
            cases hspent with
            | inl hlt => exact hlt
            | inr hspent => simp [hspent.2.1] at hy
          split at hremove
          . cases hremove
            exact ⟨⟨slot.generation + 1, none⟩, by simp [heq, hlt], .inl (by simp; omega)⟩
          . cases hremove
            exact ⟨{ slot with node := none }, by simp [heq, hlt], .inl hold⟩
        . split at hremove
          . cases hremove
            refine ⟨s, by simp [heq, hs], ?_⟩
            cases hspent with
            | inl hlt => exact .inl hlt
            | inr hspent =>
              refine .inr ⟨hspent.1, hspent.2.1, ?_⟩
              simp [Ne.symm heq, hspent.2.2]
          . cases hremove
            exact ⟨s, by simp [heq, hs], hspent⟩
    . cases hremove

theorem Spent.insert {a b : Arena α} {id j : Handle} (h : a.Spent j) (hinsert : a.insert limit x = some (id, b))
    : b.Spent j ∧ j ≠ id := by
  obtain ⟨s, hs, hspent⟩ := h
  obtain ⟨hlt, -⟩ := List.getElem?_eq_some_iff.mp hs
  unfold Arena.insert at hinsert
  split at hinsert
  . next index free hfree =>
    split at hinsert
    . cases hinsert
    . next slot hslot =>
      cases hinsert
      by_cases heq : index = j.slot
      . subst heq
        rw [hs] at hslot
        cases hslot
        have hold : j.generation < s.generation := by
          cases hspent with
          | inl hlt => exact hlt
          | inr hspent => simp [hfree] at hspent
        refine ⟨⟨{ s with node := some x }, by simp [hlt], .inl hold⟩, ?_⟩
        intro h
        rw [h] at hold
        simp at hold
      . refine ⟨⟨s, by simp [heq, hs], ?_⟩, ?_⟩
        . cases hspent with
          | inl hlt => exact .inl hlt
          | inr hspent =>
            refine .inr ⟨hspent.1, hspent.2.1, ?_⟩
            intro hmem
            exact hspent.2.2 (by simp [hfree, hmem])
        . rintro rfl
          exact heq rfl
  . split at hinsert
    . cases hinsert
      refine ⟨⟨s, by simp [List.getElem?_append_left hlt, hs], hspent⟩, ?_⟩
      rintro rfl
      simp at hlt
    . cases hinsert

theorem length_le_of_live {ids : List Handle} (hnodup : ids.Nodup) (hlive : ∀ id ∈ ids, (a.get id).isSome)
    : ids.length ≤ a.slots.length := by
  have hslot : ∀ id ∈ ids, ∃ slot, a.slots[id.slot]? = some slot ∧
      slot.generation = id.generation := by
    intro id hid
    obtain ⟨x, hx⟩ := Option.isSome_iff_exists.mp (hlive id hid)
    obtain ⟨slot, hslot, hgen, -⟩ := get_eq_some_iff.mp hx
    exact ⟨slot, hslot, hgen⟩
  have hmap : (ids.map (·.slot)).Nodup := by
    apply List.Nodup.map_on _ hnodup
    intro x hx y hy hxy
    obtain ⟨s, hs, hsx⟩ := hslot x hx
    obtain ⟨t, ht, hty⟩ := hslot y hy
    rw [hxy, ht] at hs
    cases hs
    cases x
    cases y
    simp_all
  have hsub : ids.map (·.slot) ⊆ List.range a.slots.length := by
    intro index hindex
    obtain ⟨id, hid, rfl⟩ := List.mem_map.mp hindex
    obtain ⟨s, hs, -⟩ := hslot id hid
    rw [List.mem_range]
    exact (List.getElem?_eq_some_iff.mp hs).1
  have := (hmap.subperm hsub).length_le
  simpa using this

end Arena
