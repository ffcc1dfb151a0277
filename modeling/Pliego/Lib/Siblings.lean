import Mathlib

/-!
The children of a node as a list without repetitions, and what inserting before one of them does to the others.
-/

namespace Siblings

variable {N : Type} [DecidableEq N]

def place (anchor : N) (nodes children : List N) : List N :=
  children.takeWhile (fun child => decide (child ≠ anchor)) ++ nodes
    ++ children.dropWhile (fun child => decide (child ≠ anchor))

-- `insertBefore` of a node, which leaves the place it had. It fails when the anchor is no child.
def insertBefore (node anchor : N) (children : List N) : Option (List N) :=
  if anchor ∈ children then
    if node = anchor then
      some children
    else
      some (place anchor [node] (children.erase node))
  else
    none

-- `insertBefore` of a fragment, whose nodes are no children yet.
def insertFragment (nodes : List N) (anchor : N) (children : List N) : Option (List N) :=
  if anchor ∈ children then
    some (place anchor nodes children)
  else
    none

def nextSibling (children : List N) (node : N) : Option N :=
  (children.dropWhile (fun child => decide (child ≠ node))).tail.head?

section Splits

variable {anchor node : N} {front back front' back' nodes children : List N}

theorem takeWhile_split (h : anchor ∉ front)
    : (front ++ anchor :: back).takeWhile (fun child => decide (child ≠ anchor)) = front := by
  rw [List.takeWhile_append_of_pos]
  . rw [List.takeWhile_cons_of_neg (by simp), List.append_nil]
  . intro child hchild
    rw [decide_eq_true_eq]
    exact fun hsame => h (hsame ▸ hchild)

theorem dropWhile_split (h : anchor ∉ front)
    : (front ++ anchor :: back).dropWhile (fun child => decide (child ≠ anchor)) = anchor :: back := by
  rw [List.dropWhile_append_of_pos]
  . rw [List.dropWhile_cons_of_neg (by simp)]
  . intro child hchild
    rw [decide_eq_true_eq]
    exact fun hsame => h (hsame ▸ hchild)

theorem place_split (h : anchor ∉ front) : place anchor nodes (front ++ anchor :: back) = front ++ nodes ++ anchor :: back := by
  unfold place
  rw [takeWhile_split h, dropWhile_split h]

theorem nextSibling_split (h : anchor ∉ front) : nextSibling (front ++ anchor :: back) anchor = back.head? := by
  unfold nextSibling
  rw [dropWhile_split h]
  rfl

theorem split_inj (hnodup : (front ++ anchor :: back).Nodup) (h : front ++ anchor :: back = front' ++ anchor :: back')
    : front = front' ∧ back = back' := by
  have hfront : anchor ∉ front := fun hmem => (List.nodup_append.mp hnodup).2.2 anchor hmem anchor List.mem_cons_self rfl
  rw [h] at hnodup
  have hfront' : anchor ∉ front' :=
    fun hmem => (List.nodup_append.mp hnodup).2.2 anchor hmem anchor List.mem_cons_self rfl
  have htake := @takeWhile_split N _ anchor front back hfront
  have hdrop := @dropWhile_split N _ anchor front back hfront
  rw [h, takeWhile_split hfront'] at htake
  rw [h, dropWhile_split hfront', List.cons.injEq] at hdrop
  exact ⟨htake.symm, hdrop.2.symm⟩

end Splits

section Insertions

variable {live : N → Bool} {anchor node : N} {front back nodes children : List N}

-- What an insertion leaves: the nodes stand before the anchor among the live children.
structure Inserted (live : N → Bool) (nodes children front back after : List N) : Prop where
  nodup : after.Nodup
  mem : ∀ child, child ∈ after ↔ child ∈ nodes ∨ child ∈ children
  filter : after.filter live = front ++ (nodes ++ back)

theorem place_inserted {rest : List N} (hnodup : children.Nodup) (hnodes : nodes.Nodup) (hfresh : ∀ node ∈ nodes, node ∉ children)
    (hlive : ∀ node ∈ nodes, live node = true) (hfilter : children.filter live = front ++ anchor :: rest)
    : Inserted live nodes children front (anchor :: rest) (place anchor nodes children) := by
  have hanchor : anchor ∈ children.filter live := by
    rw [hfilter]
    exact List.mem_append_right _ List.mem_cons_self
  obtain ⟨before, after, hchildren, hbefore⟩ := List.eq_append_cons_of_mem (List.mem_filter.mp hanchor).1
  have hparts : before.filter live ++ anchor :: after.filter live = front ++ anchor :: rest := by
    rw [← hfilter, hchildren, List.filter_append, List.filter_cons_of_pos (List.mem_filter.mp hanchor).2]
  have hsplit : before.filter live = front ∧ after.filter live = rest := by
    apply split_inj _ hparts
    rw [hparts, ← hfilter]
    exact hnodup.filter live
  have hperm : (before ++ nodes ++ anchor :: after).Perm (nodes ++ children) := by
    rw [hchildren, List.append_assoc, ← List.append_assoc nodes before]
    exact (List.perm_append_comm_assoc before nodes (anchor :: after)).trans (by rw [List.append_assoc])
  rw [hchildren] at hnodup hfresh ⊢
  rw [place_split hbefore]
  refine ⟨?_, ?_, ?_⟩
  . rw [hperm.nodup_iff, hchildren]
    exact List.nodup_append.mpr ⟨hnodes, hnodup, fun a ha b hb hsame => hfresh a ha (hsame ▸ hb)⟩
  . intro child
    rw [hperm.mem_iff, List.mem_append, hchildren]
  . rw [List.filter_append, List.filter_append, List.filter_cons_of_pos (List.mem_filter.mp hanchor).2, hsplit.1, hsplit.2,
      List.filter_eq_self.mpr hlive, List.append_assoc]

theorem insertFragment_inserted {rest : List N} (hnodup : children.Nodup) (hnodes : nodes.Nodup)
    (hfresh : ∀ node ∈ nodes, node ∉ children) (hlive : ∀ node ∈ nodes, live node = true)
    (hfilter : children.filter live = front ++ anchor :: rest)
    : ∃ after, insertFragment nodes anchor children = some after
        ∧ Inserted live nodes children front (anchor :: rest) after := by
  have hanchor : anchor ∈ children.filter live := by
    rw [hfilter]
    exact List.mem_append_right _ List.mem_cons_self
  unfold insertFragment
  rw [if_pos (List.mem_filter.mp hanchor).1]
  exact ⟨_, rfl, place_inserted hnodup hnodes hfresh hlive hfilter⟩

theorem insertBefore_inserted {rest : List N} (hnodup : children.Nodup) (hne : node ≠ anchor) (hlive : live node = true)
    (hfilter : children.filter (fun child => live child && decide (child ≠ node)) = front ++ anchor :: rest)
    : ∃ after, insertBefore node anchor children = some after
        ∧ Inserted live [node] children front (anchor :: rest) after := by
  have hanchor : anchor ∈ children.filter (fun child => live child && decide (child ≠ node)) := by
    rw [hfilter]
    exact List.mem_append_right _ List.mem_cons_self
  have herase : (children.erase node).filter live = front ++ anchor :: rest := by
    rw [hnodup.erase_eq_filter, List.filter_filter, ← hfilter]
    apply List.filter_congr
    intro child hchild
    rw [Bool.eq_iff_iff]
    simp
  have hplaced := @place_inserted N _ live anchor front [node] (children.erase node) rest (hnodup.erase node) (List.nodup_singleton _)
    (fun other hother => by rw [List.mem_singleton.mp hother]; exact hnodup.not_mem_erase)
    (fun other hother => by rw [List.mem_singleton.mp hother]; exact hlive) herase
  unfold insertBefore
  rw [if_pos (List.mem_filter.mp hanchor).1, if_neg hne]
  refine ⟨_, rfl, hplaced.nodup, ?_, hplaced.filter⟩
  intro child
  rw [hplaced.mem, hnodup.mem_erase_iff, List.mem_singleton]
  constructor
  . exact fun h => h.imp_right (fun h => h.2)
  . intro h
    by_cases hsame : child = node
    . exact .inl hsame
    . exact .inr ⟨hsame, h.resolve_left hsame⟩

theorem insertEach_inserted {rest : List N} (hnodup : children.Nodup) (hnodes : nodes.Nodup) (hne : anchor ∉ nodes)
    (hlive : ∀ node ∈ nodes, live node = true)
    (hfilter : children.filter (fun child => live child && decide (child ∉ nodes)) = front ++ anchor :: rest)
    : ∃ after, nodes.foldlM (fun children node => insertBefore node anchor children) children = some after
        ∧ Inserted live nodes children front (anchor :: rest) after := by
  induction nodes generalizing children front with
  | nil =>
    refine ⟨children, rfl, hnodup, fun child => by simp, ?_⟩
    rw [List.nil_append, ← hfilter]
    apply List.filter_congr
    intro child hchild
    simp
  | cons node nodes ih =>
    rw [List.mem_cons, not_or] at hne
    obtain ⟨hnode, hnodes⟩ := List.nodup_cons.mp hnodes
    -- The live children at this point: without the nodes that are still to come.
    have hfirst : children.filter (fun child => (live child && decide (child ∉ nodes)) && decide (child ≠ node))
        = front ++ anchor :: rest := by
      rw [← hfilter]
      apply List.filter_congr
      intro child hchild
      simp only [List.mem_cons, not_or, Bool.decide_and, Bool.and_assoc]
      rw [Bool.and_comm (decide (child ∉ nodes))]
    obtain ⟨after, hafter, hinserted⟩ := @insertBefore_inserted N _ (fun child => live child && decide (child ∉ nodes))
      anchor node front children rest hnodup (Ne.symm hne.1) (by simp [hlive node List.mem_cons_self, hnode]) hfirst
    have hnext : after.filter (fun child => live child && decide (child ∉ nodes)) = (front ++ [node]) ++ anchor :: rest := by
      rw [hinserted.filter, List.append_assoc]
    obtain ⟨last, hlast, hdone⟩ := ih hinserted.nodup hnodes hne.2
      (fun other hother => hlive other (List.mem_cons_of_mem _ hother)) hnext
    rw [List.foldlM_cons, hafter]
    refine ⟨last, hlast, hdone.nodup, ?_, ?_⟩
    . intro child
      rw [hdone.mem, hinserted.mem, List.mem_singleton, List.mem_cons]
      tauto
    . rw [hdone.filter, List.append_assoc]
      rfl

end Insertions

end Siblings
