import Mathlib

/-!
Patience sorting with predecessor links: the positions of a longest strictly increasing subsequence, marked by following
the links back from the top of the last pile.
-/

structure Patience (α : Type) where
  tails : List α
  tailPositions : List Nat
  predecessor : List (Option Nat)

namespace Patience

variable {α : Type} [LinearOrder α]

def start (length : Nat) : Patience α := ⟨[], [], List.replicate length none⟩

-- How many tails are below the value. The tails increase, so these come first.
def slot (tails : List α) (value : α) : Nat :=
  (tails.takeWhile (fun tail => decide (tail < value))).length

def step (state : Patience α) (entry : Nat × α) : Patience α :=
  let slot := slot state.tails entry.2
  let predecessor :=
    if 0 < slot then
      state.predecessor.set entry.1 state.tailPositions[slot - 1]?
    else
      state.predecessor
  if slot = state.tails.length then
    ⟨state.tails ++ [entry.2], state.tailPositions ++ [entry.1], predecessor⟩
  else
    ⟨state.tails.set slot entry.2, state.tailPositions.set slot entry.1, predecessor⟩

-- The marks along the links. There are none without fuel, or from a position that is out of bounds.
def follow (predecessor : List (Option Nat)) (fuel : Nat) (position : Nat) (keep : List Bool) : Option (List Bool) :=
  match fuel with
  | 0 => none
  | fuel + 1 =>
    match predecessor[position]? with
    | none => none
    | some none => some (keep.set position true)
    | some (some previous) => follow predecessor fuel previous (keep.set position true)

def marks (length : Nat) (entries : List (Nat × α)) : Option (List Bool) :=
  let state := entries.foldl step (start length)
  match state.tailPositions.getLast? with
  | none => some (List.replicate length false)
  | some position => follow state.predecessor length position (List.replicate length false)

/-
Chains of links
-/

-- The entries that the links of the last one lead back to, in their order.
inductive Chain (predecessor : List (Option Nat)) (seen : List (Nat × α)) : Nat × α → List (Nat × α) → Prop where
  | first {entry : Nat × α} (hseen : entry ∈ seen) (hlink : predecessor[entry.1]? = some none)
    : Chain predecessor seen entry [entry]
  | next {previous entry : Nat × α} {chain : List (Nat × α)} (hchain : Chain predecessor seen previous chain)
    (hseen : entry ∈ seen) (hposition : previous.1 < entry.1) (hvalue : previous.2 < entry.2)
    (hlink : predecessor[entry.1]? = some (some previous.1)) : Chain predecessor seen entry (chain ++ [entry])

section Chains

variable {predecessor predecessor' : List (Option Nat)} {seen seen' chain : List (Nat × α)} {entry : Nat × α}

section

variable (h : Chain predecessor seen entry chain)

include h

theorem Chain.mono (hseen : seen ⊆ seen') (hkept : ∀ entry ∈ seen, predecessor'[entry.1]? = predecessor[entry.1]?)
    : Chain predecessor' seen' entry chain := by
  induction h with
  | first hmem hlink =>
    apply Chain.first (hseen hmem)
    rw [hkept _ hmem, hlink]
  | next hchain hmem hposition hvalue hlink ih =>
    apply Chain.next ih (hseen hmem) hposition hvalue
    rw [hkept _ hmem, hlink]

theorem Chain.subset : chain ⊆ seen := by
  induction h with
  | first hmem hlink => exact List.cons_subset.mpr ⟨hmem, List.nil_subset _⟩
  | next hchain hmem hposition hvalue hlink ih =>
    exact List.append_subset.mpr ⟨ih, List.cons_subset.mpr ⟨hmem, List.nil_subset _⟩⟩

theorem Chain.le
    : ∀ earlier ∈ chain, earlier = entry ∨ (earlier.1 < entry.1 ∧ earlier.2 < entry.2) := by
  induction h with
  | first hmem hlink => exact fun earlier hearlier => .inl (List.mem_singleton.mp hearlier)
  | next hchain hmem hposition hvalue hlink ih =>
    intro earlier hearlier
    rw [List.mem_append, List.mem_singleton] at hearlier
    cases hearlier with
    | inr hsame => exact .inl hsame
    | inl hbefore =>
      apply Or.inr
      cases ih earlier hbefore with
      | inl hlast =>
        rw [hlast]
        exact ⟨hposition, hvalue⟩
      | inr hlt => exact ⟨hlt.1.trans hposition, hlt.2.trans hvalue⟩

theorem Chain.sorted
    : chain.Pairwise (fun a b => a.1 < b.1 ∧ a.2 < b.2) := by
  induction h with
  | first hmem hlink => exact List.pairwise_singleton _ _
  | next hchain hmem hposition hvalue hlink ih =>
    refine List.pairwise_append.mpr ⟨ih, List.pairwise_singleton _ _, ?_⟩
    intro earlier hearlier last hlast
    rw [List.mem_singleton] at hlast
    rw [hlast]
    cases hchain.le earlier hearlier with
    | inl hsame =>
      rw [hsame]
      exact ⟨hposition, hvalue⟩
    | inr hlt => exact ⟨hlt.1.trans hposition, hlt.2.trans hvalue⟩

theorem Chain.length_le : chain.length ≤ entry.1 + 1 := by
  induction h with
  | first hmem hlink => exact Nat.succ_le_succ (Nat.zero_le _)
  | next hchain hmem hposition hvalue hlink ih =>
    rw [List.length_append, List.length_singleton]
    omega

theorem follow_chain {fuel : Nat} (hfuel : chain.length ≤ fuel) (keep : List Bool)
    : follow predecessor fuel entry.1 keep
      = some (chain.foldr (fun entry keep => keep.set entry.1 true) keep) := by
  induction h generalizing fuel keep with
  | first hmem hlink =>
    cases fuel with
    | zero => exact absurd hfuel (Nat.not_succ_le_zero _)
    | succ fuel =>
      unfold follow
      rw [hlink]
      rfl
  | next hchain hmem hposition hvalue hlink ih =>
    rw [List.length_append, List.length_singleton] at hfuel
    cases fuel with
    | zero => exact absurd hfuel (Nat.not_succ_le_zero _)
    | succ fuel =>
      unfold follow
      rw [hlink, List.foldr_append]
      exact ih (Nat.le_of_succ_le_succ hfuel) _

end

end Chains

/-
Piles
-/

-- What the piles of a run over `seen` hold, by their tops.
structure Piled (length : Nat) (seen : List (Nat × α)) (state : Patience α) (piles : List (Nat × α)) : Prop where
  tails : state.tails = piles.map Prod.snd
  positions : state.tailPositions = piles.map Prod.fst
  increasing : piles.Pairwise (fun a b => a.2 < b.2)
  size : state.predecessor.length = length
  unlinked : ∀ position < length, (∀ entry ∈ seen, entry.1 ≠ position) → state.predecessor[position]? = some none
  chains : ∀ i entry, piles[i]? = some entry → ∃ chain, chain.length = i + 1 ∧ Chain state.predecessor seen entry chain
  longest : ∀ front value, (front ++ [value]).Sublist (seen.map Prod.snd) → (front ++ [value]).Pairwise (· < ·)
    → ∃ entry, piles[front.length]? = some entry ∧ entry.2 ≤ value

theorem Piled.start (length : Nat) : Piled length ([] : List (Nat × α)) (start length) [] := by
  refine ⟨rfl, rfl, List.Pairwise.nil, List.length_replicate, ?_, nofun, ?_⟩
  . intro position hposition hfresh
    exact List.getElem?_replicate_of_lt hposition
  . intro front value hsublist
    rw [List.map_nil, List.sublist_nil] at hsublist
    exact absurd hsublist (List.append_ne_nil_of_right_ne_nil _ (List.cons_ne_nil _ _))

theorem exists_split (piles : List (Nat × α)) (value : α)
    : ∃ below above, piles = below ++ above ∧ slot (piles.map Prod.snd) value = below.length
        ∧ (∀ entry ∈ below, entry.2 < value) ∧ ∀ top rest, above = top :: rest → value ≤ top.2 := by
  refine ⟨piles.takeWhile (fun entry => decide (entry.2 < value)), piles.dropWhile (fun entry => decide (entry.2 < value)),
    (List.takeWhile_append_dropWhile).symm, ?_, ?_, ?_⟩
  . unfold slot
    rw [List.takeWhile_map, List.length_map]
    rfl
  . intro entry hentry
    have hlt := @List.mem_takeWhile_imp _ (fun entry : Nat × α => decide (entry.2 < value)) piles entry hentry
    exact of_decide_eq_true hlt
  . intro top rest habove
    have hhead := List.head?_dropWhile_not (fun entry : Nat × α => decide (entry.2 < value)) piles
    rw [habove] at hhead
    exact not_lt.mp (of_decide_eq_false hhead)

section Step

variable {length : Nat} {seen piles below above : List (Nat × α)} {state : Patience α} {entry : Nat × α}

-- The links of a step: an entry is linked to the top of the pile before its own.
def linked (predecessor : List (Option Nat)) (below : List (Nat × α)) (position : Nat) : List (Option Nat) :=
  match below.getLast? with
  | none => predecessor
  | some previous => predecessor.set position (some previous.1)

theorem step_split (htails : state.tails = piles.map Prod.snd) (hpositions : state.tailPositions = piles.map Prod.fst)
    (hpiles : piles = below ++ above) (hslot : slot (piles.map Prod.snd) entry.2 = below.length)
    : state.step entry = ⟨(below ++ entry :: above.tail).map Prod.snd, (below ++ entry :: above.tail).map Prod.fst,
        linked state.predecessor below entry.1⟩ := by
  have hlinked : (if 0 < below.length then state.predecessor.set entry.1 state.tailPositions[below.length - 1]?
      else state.predecessor) = linked state.predecessor below entry.1 := by
    unfold linked
    cases hlast : below.getLast? with
    | none =>
      rw [List.getLast?_eq_none_iff] at hlast
      rw [hlast]
      rfl
    | some previous =>
      have hpos : 0 < below.length := by
        rw [List.length_pos_iff]
        intro hnil
        rw [hnil] at hlast
        cases hlast
      rw [if_pos hpos, hpositions, hpiles, List.getElem?_map, List.getElem?_append_left (by omega),
        ← List.getLast?_eq_getElem?, hlast]
      rfl
  unfold step
  dsimp only
  rw [htails, hslot, hlinked, hpositions, hpiles, List.length_map, List.length_append]
  cases above with
  | nil =>
    rw [List.length_nil, Nat.add_zero, if_pos rfl, List.append_nil, List.tail_nil, List.map_append, List.map_append]
    rfl
  | cons top rest =>
    rw [if_neg (by rw [List.length_cons]; omega), List.map_append, List.map_append, List.map_append, List.map_append,
      List.set_append_right _ _ (by rw [List.length_map]), List.set_append_right _ _ (by rw [List.length_map]),
      List.length_map, List.length_map, Nat.sub_self]
    rfl

omit [LinearOrder α] in
theorem linked_length {predecessor : List (Option Nat)} {position : Nat}
    : (linked predecessor below position).length = predecessor.length := by
  unfold linked
  split
  . rfl
  . exact List.length_set

omit [LinearOrder α] in
theorem linked_other {predecessor : List (Option Nat)} {position other : Nat} (h : other ≠ position)
    : (linked predecessor below position)[other]? = predecessor[other]? := by
  unfold linked
  split
  . rfl
  . exact List.getElem?_set_ne (Ne.symm h)

omit [LinearOrder α] in
theorem getElem?_split {i : Nat} {top : Nat × α} (h : (below ++ entry :: above.tail)[i]? = some top)
    : (i = below.length ∧ top = entry) ∨ (i ≠ below.length ∧ (below ++ above)[i]? = some top) := by
  rcases lt_trichotomy i below.length with hlt | heq | hgt
  . rw [List.getElem?_append_left hlt] at h
    rw [List.getElem?_append_left hlt]
    exact .inr ⟨hlt.ne, h⟩
  . rw [heq, List.getElem?_append_right le_rfl, Nat.sub_self, List.getElem?_cons_zero, Option.some.injEq] at h
    exact .inl ⟨heq, h.symm⟩
  . obtain ⟨k, rfl⟩ : ∃ k, i = below.length + (k + 1) := ⟨i - below.length - 1, by omega⟩
    rw [List.getElem?_append_right (by omega), Nat.add_sub_cancel_left, List.getElem?_cons_succ, List.getElem?_tail] at h
    rw [List.getElem?_append_right (by omega), Nat.add_sub_cancel_left]
    exact .inr ⟨hgt.ne', h⟩

theorem getElem?_lower {i : Nat} {top : Nat × α} (habove : ∀ top ∈ above, entry.2 ≤ top.2)
    (h : (below ++ above)[i]? = some top)
    : ∃ top', (below ++ entry :: above.tail)[i]? = some top' ∧ top'.2 ≤ top.2 := by
  rcases lt_trichotomy i below.length with hlt | heq | hgt
  . rw [List.getElem?_append_left hlt] at h
    rw [List.getElem?_append_left hlt]
    exact ⟨top, h, le_rfl⟩
  . rw [heq, List.getElem?_append_right le_rfl, Nat.sub_self] at h
    rw [heq, List.getElem?_append_right le_rfl, Nat.sub_self, List.getElem?_cons_zero]
    exact ⟨entry, rfl, habove top (List.mem_of_getElem? h)⟩
  . obtain ⟨k, rfl⟩ : ∃ k, i = below.length + (k + 1) := ⟨i - below.length - 1, by omega⟩
    rw [List.getElem?_append_right (by omega), Nat.add_sub_cancel_left] at h
    rw [List.getElem?_append_right (by omega), Nat.add_sub_cancel_left, List.getElem?_cons_succ, List.getElem?_tail]
    exact ⟨top, h, le_rfl⟩

theorem Piled.step (h : Piled length seen state piles) (hentry : entry.1 < length)
    (hlater : ∀ earlier ∈ seen, earlier.1 < entry.1)
    : ∃ piles, Piled length (seen ++ [entry]) (state.step entry) piles := by
  obtain ⟨below, above, hpiles, hslot, hbelow, habove⟩ := exists_split piles entry.2
  refine ⟨below ++ entry :: above.tail, ?_⟩
  rw [step_split h.tails h.positions hpiles hslot]
  have hincreasing := h.increasing
  rw [hpiles, List.pairwise_append] at hincreasing
  have hseen : seen ⊆ seen ++ [entry] := List.subset_append_left _ _
  have hkept : ∀ earlier ∈ seen, (linked state.predecessor below entry.1)[earlier.1]? = state.predecessor[earlier.1]? :=
    fun earlier hearlier => linked_other (hlater earlier hearlier).ne
  refine ⟨rfl, rfl, ?_, ?_, ?_, ?_, ?_⟩
  -- The tops still increase: the entry replaces the first one that is not below it.
  . refine List.pairwise_append.mpr ⟨hincreasing.1, ?_, ?_⟩
    . cases above with
      | nil => exact List.pairwise_singleton _ _
      | cons top rest =>
        have hrest := List.pairwise_cons.mp hincreasing.2.1
        exact List.pairwise_cons.mpr
          ⟨fun other hother => (habove top rest rfl).trans_lt (hrest.1 other hother), hrest.2⟩
    . intro lower hlower other hother
      cases List.mem_cons.mp hother with
      | inl hsame =>
        rw [hsame]
        exact hbelow lower hlower
      | inr hrest => exact hincreasing.2.2 lower hlower other (List.mem_of_mem_tail hrest)
  . rw [linked_length]
    exact h.size
  . intro position hposition hfresh
    have hne : position ≠ entry.1 :=
      fun hsame => hfresh entry (List.mem_append_right _ (List.mem_singleton_self _)) hsame.symm
    rw [linked_other hne]
    exact h.unlinked position hposition (fun earlier hearlier => hfresh earlier (hseen hearlier))
  -- The chain of the entry is the one of the pile before it and the entry.
  . intro i top htop
    cases getElem?_split htop with
    | inr hold =>
      obtain ⟨-, hold⟩ := hold
      rw [← hpiles] at hold
      obtain ⟨chain, hlength, hchain⟩ := h.chains i top hold
      exact ⟨chain, hlength, hchain.mono hseen hkept⟩
    | inl hnew =>
      obtain ⟨rfl, rfl⟩ := hnew
      have hmem : top ∈ seen ++ [top] := List.mem_append_right _ (List.mem_singleton_self _)
      cases hlast : below.getLast? with
      | none =>
        have hnil := List.getLast?_eq_none_iff.mp hlast
        refine ⟨[top], ?_, .first hmem ?_⟩
        . rw [hnil]
          rfl
        . unfold linked
          rw [hlast]
          exact h.unlinked top.1 hentry (fun earlier hearlier => (hlater earlier hearlier).ne)
      | some previous =>
        have hprevious := List.mem_of_getLast? hlast
        have hpos := List.length_pos_of_mem hprevious
        have hget : piles[below.length - 1]? = some previous := by
          rw [hpiles, List.getElem?_append_left (by omega), ← List.getLast?_eq_getElem?, hlast]
        obtain ⟨chain, hlength, hchain⟩ := h.chains _ previous hget
        refine ⟨chain ++ [top], ?_, .next (hchain.mono hseen hkept) hmem ?_ (hbelow previous hprevious) ?_⟩
        . rw [List.length_append, List.length_singleton]
          omega
        . exact hlater previous (hchain.subset (by
            cases hchain with
            | first => exact List.mem_singleton_self _
            | next => exact List.mem_append_right _ (List.mem_singleton_self _)))
        . unfold linked
          rw [hlast]
          dsimp only
          rw [List.getElem?_set_self (by rw [h.size]; exact hentry)]
  -- An increasing subsequence that ends with the entry is one longer than one that ends below it.
  . have hover : ∀ top ∈ above, entry.2 ≤ top.2 := by
      cases above with
      | nil => exact nofun
      | cons first rest =>
        have hfirst := habove first rest rfl
        refine List.forall_mem_cons.mpr ⟨hfirst, fun other hother => ?_⟩
        exact hfirst.trans ((List.pairwise_cons.mp hincreasing.2.1).1 other hother).le
    intro front value hsublist hsorted
    rw [List.map_append, List.map_singleton] at hsublist
    obtain ⟨before, last, happend, hbefore, hlast⟩ := List.sublist_append_iff.mp hsublist
    cases List.sublist_singleton.mp hlast with
    | inl hnil =>
      rw [hnil, List.append_nil] at happend
      rw [← happend] at hbefore
      obtain ⟨top, htop, hle⟩ := h.longest front value hbefore hsorted
      rw [hpiles] at htop
      obtain ⟨top', htop', hle'⟩ := getElem?_lower hover htop
      exact ⟨top', htop', hle'.trans hle⟩
    | inr hentry =>
      rw [hentry] at happend
      obtain ⟨rfl, hvalue⟩ := List.append_inj' happend rfl
      cases hvalue
      have hlength : front.length ≤ below.length := by
        rcases List.eq_nil_or_concat' front with rfl | ⟨shorter, lower, rfl⟩
        . exact Nat.zero_le _
        . obtain ⟨hfront, -, hlt⟩ := List.pairwise_append.mp hsorted
          have hlower : lower < entry.2 :=
            hlt lower (List.mem_append_right _ (List.mem_singleton_self _)) _ (List.mem_singleton_self _)
          obtain ⟨top, htop, hle⟩ := h.longest shorter lower hbefore hfront
          rw [List.length_append, List.length_singleton, Nat.succ_le_iff]
          by_contra hge
          rw [hpiles, List.getElem?_append_right (not_lt.mp hge)] at htop
          exact absurd ((hover top (List.mem_of_getElem? htop)).trans hle) (not_le.mpr hlower)
      cases hlength.lt_or_eq with
      | inl hlt =>
        rw [List.getElem?_append_left hlt, List.getElem?_eq_getElem hlt]
        exact ⟨_, rfl, (hbelow _ (List.getElem_mem hlt)).le⟩
      | inr heq =>
        rw [heq, List.getElem?_append_right le_rfl, Nat.sub_self, List.getElem?_cons_zero]
        exact ⟨entry, rfl, le_rfl⟩

theorem Piled.run (h : Piled length seen state piles) {rest : List (Nat × α)}
    (hsorted : (seen ++ rest).Pairwise (fun a b => a.1 < b.1)) (hbound : ∀ entry ∈ rest, entry.1 < length)
    : ∃ piles, Piled length (seen ++ rest) (rest.foldl Patience.step state) piles := by
  induction rest generalizing seen state piles with
  | nil =>
    rw [List.append_nil]
    exact ⟨piles, h⟩
  | cons entry rest ih =>
    have hlater := (List.pairwise_append.mp hsorted).2.2
    obtain ⟨piles', h'⟩ := h.step (hbound entry List.mem_cons_self)
      (fun earlier hearlier => hlater earlier hearlier entry List.mem_cons_self)
    rw [← List.singleton_append, ← List.append_assoc] at hsorted ⊢
    exact ih h' hsorted (fun other hother => hbound other (List.mem_cons_of_mem _ hother))

end Step

/-
Marks
-/

section Marks

variable {length : Nat} {entries chain : List (Nat × α)}

def marked (keep : List Bool) (entries : List (Nat × α)) : List (Nat × α) :=
  entries.filter (fun entry => decide (keep[entry.1]? = some true))

omit [LinearOrder α] in
theorem foldr_set_length {keep : List Bool}
    : (chain.foldr (fun entry keep => keep.set entry.1 true) keep).length = keep.length := by
  induction chain with
  | nil => rfl
  | cons entry chain ih =>
    rw [List.foldr_cons, List.length_set]
    exact ih

omit [LinearOrder α] in
theorem foldr_set_true {position : Nat} (hposition : position < length)
    : (chain.foldr (fun entry keep => keep.set entry.1 true) (List.replicate length false))[position]? = some true
      ↔ ∃ entry ∈ chain, entry.1 = position := by
  induction chain with
  | nil =>
    rw [List.foldr_nil, List.getElem?_replicate_of_lt hposition]
    exact iff_of_false nofun (fun h => nomatch h.choose_spec.1)
  | cons entry chain ih =>
    rw [List.foldr_cons, List.exists_mem_cons_iff]
    by_cases hsame : entry.1 = position
    . rw [hsame, List.getElem?_set_self (by rw [foldr_set_length, List.length_replicate]; exact hposition)]
      exact iff_of_true rfl (.inl rfl)
    . rw [List.getElem?_set_ne hsame, ih]
      exact ⟨.inr, fun h => h.resolve_left hsame⟩

omit [LinearOrder α] in
theorem filter_eq_of_subset (hentries : entries.Pairwise (fun a b => a.1 < b.1))
    (hchain : chain.Pairwise (fun a b => a.1 < b.1)) (hsubset : chain ⊆ entries) {selected : Nat × α → Bool}
    (hselected : ∀ entry ∈ entries, selected entry = true ↔ ∃ other ∈ chain, other.1 = entry.1)
    : entries.filter selected = chain := by
  have hpositions : (entries.map Prod.fst).Nodup :=
    List.pairwise_map.mpr (hentries.imp (fun hlt => ne_of_lt hlt))
  have hnodup : ∀ {some : List (Nat × α)}, some.Pairwise (fun a b => a.1 < b.1) → some.Nodup := by
    intro some hsome
    apply hsome.imp
    intro a b hlt hsame
    rw [hsame] at hlt
    exact lt_irrefl _ hlt
  have hperm : (entries.filter selected).Perm chain := by
    apply (List.perm_ext_iff_of_nodup ((hnodup hentries).filter _) (hnodup hchain)).mpr
    intro entry
    rw [List.mem_filter]
    constructor
    . intro h
      obtain ⟨other, hother, hsame⟩ := (hselected entry h.1).mp h.2
      rw [← List.inj_on_of_nodup_map hpositions (hsubset hother) h.1 hsame]
      exact hother
    . exact fun h => ⟨hsubset h, (hselected entry (hsubset h)).mpr ⟨entry, h, rfl⟩⟩
  exact hperm.eq_of_pairwise (fun _ _ _ _ hab hba => absurd hba (lt_asymm hab)) (hentries.filter _) hchain

theorem marks_longest (hentries : entries.Pairwise (fun a b => a.1 < b.1)) (hbound : ∀ entry ∈ entries, entry.1 < length)
    : ∃ keep, marks length entries = some keep ∧ keep.length = length
        ∧ (∀ position, keep[position]? = some true → ∃ entry ∈ entries, entry.1 = position)
        ∧ ((marked keep entries).map Prod.snd).Pairwise (· < ·)
        ∧ ∀ other : List α, other.Sublist (entries.map Prod.snd) → other.Pairwise (· < ·)
          → other.length ≤ (marked keep entries).length := by
  obtain ⟨piles, hpiled⟩ := (Piled.start length).run hentries hbound
  rw [List.nil_append] at hpiled
  have hlongest : ∀ other : List α, other.Sublist (entries.map Prod.snd) → other.Pairwise (· < ·) → other.length ≤ piles.length := by
    intro other hother hsorted
    rcases List.eq_nil_or_concat' other with rfl | ⟨front, value, rfl⟩
    . exact Nat.zero_le _
    . obtain ⟨entry, hentry, -⟩ := hpiled.longest front value hother hsorted
      rw [List.length_append, List.length_singleton]
      exact (List.getElem?_eq_some_iff.mp hentry).1
  unfold marks
  dsimp only
  rw [hpiled.positions, List.getLast?_map]
  cases hlast : piles.getLast? with
  | none =>
    rw [List.getLast?_eq_none_iff] at hlast
    rw [hlast] at hlongest
    have hnone : ∀ position : Nat, (List.replicate length false)[position]? ≠ some true := by
      intro position hmarked
      exact absurd (List.eq_of_mem_replicate (List.mem_of_getElem? hmarked)).symm Bool.false_ne_true
    have hmarked : marked (List.replicate length false) entries = [] := by
      apply List.filter_eq_nil_iff.mpr
      intro entry hentry
      rw [decide_eq_true_eq]
      exact hnone entry.1
    refine ⟨List.replicate length false, rfl, List.length_replicate, fun position h => absurd h (hnone position), ?_, ?_⟩
    . rw [hmarked]
      exact List.Pairwise.nil
    . rw [hmarked]
      exact hlongest
  | some top =>
    have hget : piles[piles.length - 1]? = some top := by
      rw [← List.getLast?_eq_getElem?, hlast]
    have hpos : 0 < piles.length := List.length_pos_of_mem (List.mem_of_getLast? hlast)
    obtain ⟨chain, hlength, hchain⟩ := hpiled.chains _ top hget
    have htop : top ∈ entries := by
      apply hchain.subset
      cases hchain with
      | first => exact List.mem_singleton_self _
      | next => exact List.mem_append_right _ (List.mem_singleton_self _)
    have hfuel : chain.length ≤ length := hchain.length_le.trans (hbound top htop)
    have hmarked : marked (chain.foldr (fun entry keep => keep.set entry.1 true) (List.replicate length false)) entries
        = chain := by
      apply filter_eq_of_subset hentries (hchain.sorted.imp (fun h => h.1)) hchain.subset
      intro entry hentry
      rw [decide_eq_true_eq]
      exact foldr_set_true (hbound entry hentry)
    refine ⟨_, follow_chain hchain hfuel _, ?_, ?_, ?_, ?_⟩
    . rw [foldr_set_length, List.length_replicate]
    . intro position hposition
      have hlt : position < length := by
        have hlt := (List.getElem?_eq_some_iff.mp hposition).1
        rw [foldr_set_length, List.length_replicate] at hlt
        exact hlt
      obtain ⟨entry, hentry, hsame⟩ := (foldr_set_true hlt).mp hposition
      exact ⟨entry, hchain.subset hentry, hsame⟩
    . rw [hmarked, List.pairwise_map]
      exact hchain.sorted.imp (fun h => h.2)
    . rw [hmarked, hlength, Nat.sub_add_cancel hpos]
      exact hlongest

end Marks

end Patience
