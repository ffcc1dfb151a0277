import Mathlib.Data.List.Chain
import Mathlib.Logic.Relation
import Pliego.Reactive.Nodes

/-!
Source and subscriber edges, the forest of owners, and what retiring a part of the forest leaves.
-/

namespace Pliego

namespace Reactive

variable {V : Type}

structure Edges (rt : Runtime V) : Prop where
  sources_nodup : ∀ {id n}, rt.node id = some n → n.sources.Nodup
  subscribers_nodup : ∀ {id n}, rt.node id = some n → n.subscribers.Nodup
  source : ∀ {id n s}, rt.node id = some n → s ∈ n.sources →
    ∃ m, rt.node s = some m ∧ id ∈ m.subscribers
  subscriber : ∀ {id n u}, rt.node id = some n → u ∈ n.subscribers →
    ∃ m, rt.node u = some m ∧ id ∈ m.sources
  irrefl : ∀ {id n}, rt.node id = some n → id ∉ n.sources

def Parent (rt : Runtime V) (id owner : NodeId) : Prop :=
  ∃ n, rt.node id = some n ∧ n.owner = some owner

def Descends (rt : Runtime V) : NodeId → NodeId → Prop :=
  Relation.ReflTransGen (Parent rt)

def OwnedInverse (rt : Runtime V) : Prop :=
  ∀ {id n c}, rt.node id = some n → c ∈ n.owned → ∃ m, rt.node c = some m ∧ m.owner = some id

/--
The owner of a node has it among the nodes of its last run or of the run that is going on. The nodes in
`orphans` are the exception: their owner has let go of them and they are about to be retired.
-/
structure Ownership (rt : Runtime V) (orphans : List NodeId) : Prop where
  owned_nodup : ∀ {id n}, rt.node id = some n → n.owned.Nodup
  owned : OwnedInverse rt
  frame_nodup : ∀ {f}, f ∈ rt.frames → f.owned.Nodup
  frame : ∀ {f c}, f ∈ rt.frames → c ∈ f.owned →
    ∃ m, rt.node c = some m ∧ m.owner = some f.observer ∧ m.kind ≠ .owner
  owner_live : ∀ {id p}, Parent rt id p → ∃ n, rt.node p = some n
  owner : ∀ {id p}, Parent rt id p → id ∉ orphans →
    (∃ n, rt.node p = some n ∧ id ∈ n.owned) ∨ (∃ f ∈ rt.frames, f.observer = p ∧ id ∈ f.owned)
  disjoint : ∀ {p n f c}, rt.node p = some n → f ∈ rt.frames → f.observer = p → c ∈ n.owned →
    c ∉ f.owned
  owner_kind : ∀ {id n p}, rt.node id = some n → n.kind = .owner → n.owner = some p →
    ∃ m, rt.node p = some m ∧ m.kind = .owner
  acyclic : ∀ id, ¬ Relation.TransGen (Parent rt) id id

def Node.links (n : Node V) : List NodeId × List NodeId :=
  (n.sources, n.subscribers)

def Node.place (n : Node V) : Kind × Option NodeId × List NodeId :=
  (n.kind, n.owner, n.owned)

theorem Edges.congr {rt rt' : Runtime V} (h : Edges rt)
    (hlinks : ∀ id, (rt'.node id).map Node.links = (rt.node id).map Node.links)
    : Edges rt' := by
  have hback : ∀ {id n'}, rt'.node id = some n' → ∃ n, rt.node id = some n ∧
      n.sources = n'.sources ∧ n.subscribers = n'.subscribers := by
    intro id n' hn'
    obtain ⟨n, hn, heq⟩ := node_of_map_eq hlinks hn'
    exact ⟨n, hn, congrArg Prod.fst heq, congrArg Prod.snd heq⟩
  have hforth : ∀ {id n}, rt.node id = some n → ∃ n', rt'.node id = some n' ∧
      n'.sources = n.sources ∧ n'.subscribers = n.subscribers := by
    intro id n hn
    obtain ⟨n', hn', heq⟩ := node_of_map_eq (fun id => (hlinks id).symm) hn
    exact ⟨n', hn', congrArg Prod.fst heq, congrArg Prod.snd heq⟩
  constructor
  . intro id n' hn'
    obtain ⟨n, hn, hsources, -⟩ := hback hn'
    rw [← hsources]
    exact h.sources_nodup hn
  . intro id n' hn'
    obtain ⟨n, hn, -, hsubscribers⟩ := hback hn'
    rw [← hsubscribers]
    exact h.subscribers_nodup hn
  . intro id n' s hn' hs
    obtain ⟨n, hn, hsources, -⟩ := hback hn'
    obtain ⟨m, hm, hmem⟩ := h.source hn (hsources ▸ hs)
    obtain ⟨m', hm', -, hsubscribers⟩ := hforth hm
    exact ⟨m', hm', hsubscribers ▸ hmem⟩
  . intro id n' u hn' hu
    obtain ⟨n, hn, -, hsubscribers⟩ := hback hn'
    obtain ⟨m, hm, hmem⟩ := h.subscriber hn (hsubscribers ▸ hu)
    obtain ⟨m', hm', hsources, -⟩ := hforth hm
    exact ⟨m', hm', hsources ▸ hmem⟩
  . intro id n' hn'
    obtain ⟨n, hn, hsources, -⟩ := hback hn'
    rw [← hsources]
    exact h.irrefl hn

theorem parent_congr {α : Type} {f : Node V → α} {rt rt' : Runtime V}
    (h : ∀ id, (rt'.node id).map f = (rt.node id).map f) (hf : ∀ {n m : Node V}, f n = f m → n.owner = m.owner)
    : Parent rt' = Parent rt := by
  funext id p
  apply propext
  constructor
  . rintro ⟨n', hn', howner⟩
    obtain ⟨n, hn, heq⟩ := node_of_map_eq h hn'
    exact ⟨n, hn, (hf heq).trans howner⟩
  . rintro ⟨n, hn, howner⟩
    obtain ⟨n', hn', heq⟩ := node_of_map_eq (fun id => (h id).symm) hn
    exact ⟨n', hn', (hf heq).trans howner⟩

theorem Ownership.congr {rt rt' : Runtime V} {orphans orphans' : List NodeId} (h : Ownership rt orphans)
    (hplace : ∀ id, (rt'.node id).map Node.place = (rt.node id).map Node.place)
    (hback : ∀ f' ∈ rt'.frames, f'.owned = [] ∨
      ∃ f ∈ rt.frames, f.observer = f'.observer ∧ f.owned = f'.owned)
    (hforth : ∀ f ∈ rt.frames, f.owned ⊆ orphans' ∨
      ∃ f' ∈ rt'.frames, f.observer = f'.observer ∧ f.owned = f'.owned)
    (horphans : orphans ⊆ orphans')
    : Ownership rt' orphans' := by
  have hnode : ∀ {id n'}, rt'.node id = some n' → ∃ n, rt.node id = some n ∧
      n.kind = n'.kind ∧ n.owner = n'.owner ∧ n.owned = n'.owned := by
    intro id n' hn'
    obtain ⟨n, hn, heq⟩ := node_of_map_eq hplace hn'
    exact ⟨n, hn, congrArg (·.1) heq, congrArg (·.2.1) heq, congrArg (·.2.2) heq⟩
  have hnode' : ∀ {id n}, rt.node id = some n → ∃ n', rt'.node id = some n' ∧
      n'.kind = n.kind ∧ n'.owner = n.owner ∧ n'.owned = n.owned := by
    intro id n hn
    obtain ⟨n', hn', heq⟩ := node_of_map_eq (fun id => (hplace id).symm) hn
    exact ⟨n', hn', congrArg (·.1) heq, congrArg (·.2.1) heq, congrArg (·.2.2) heq⟩
  have hframe : ∀ {f' c}, f' ∈ rt'.frames → c ∈ f'.owned →
      ∃ f ∈ rt.frames, f.observer = f'.observer ∧ f.owned = f'.owned := by
    intro f' c hf' hc
    cases hback f' hf' with
    | inl hnil => simp [hnil] at hc
    | inr h => exact h
  have hparent := parent_congr hplace (fun h => congrArg (·.2.1) h)
  constructor
  . intro id n' hn'
    obtain ⟨n, hn, -, -, howned⟩ := hnode hn'
    rw [← howned]
    exact h.owned_nodup hn
  . intro id n' c hn' hc
    obtain ⟨n, hn, -, -, howned⟩ := hnode hn'
    obtain ⟨m, hm, howner⟩ := h.owned hn (howned ▸ hc)
    obtain ⟨m', hm', -, howner', -⟩ := hnode' hm
    exact ⟨m', hm', howner'.trans howner⟩
  . intro f' hf'
    cases hback f' hf' with
    | inl hnil =>
      rw [hnil]
      exact List.nodup_nil
    | inr hf =>
      obtain ⟨f, hf, -, howned⟩ := hf
      rw [← howned]
      exact h.frame_nodup hf
  . intro f' c hf' hc
    obtain ⟨f, hf, hobserver, howned⟩ := hframe hf' hc
    obtain ⟨m, hm, howner, hkind⟩ := h.frame hf (howned ▸ hc)
    obtain ⟨m', hm', hkind', howner', -⟩ := hnode' hm
    exact ⟨m', hm', by rw [howner', howner, hobserver], by rw [hkind']; exact hkind⟩
  . intro id p hp
    rw [hparent] at hp
    obtain ⟨n, hn⟩ := h.owner_live hp
    obtain ⟨n', hn', -⟩ := hnode' hn
    exact ⟨n', hn'⟩
  . intro id p hp hid
    rw [hparent] at hp
    cases h.owner hp (fun hmem => hid (horphans hmem)) with
    | inl hmem =>
      obtain ⟨n, hn, hmem⟩ := hmem
      obtain ⟨n', hn', -, -, howned⟩ := hnode' hn
      exact .inl ⟨n', hn', howned ▸ hmem⟩
    | inr hmem =>
      obtain ⟨f, hf, hobserver, hmem⟩ := hmem
      cases hforth f hf with
      | inl hsub => exact absurd (hsub hmem) hid
      | inr hf' =>
        obtain ⟨f', hf', hobserver', howned⟩ := hf'
        exact .inr ⟨f', hf', hobserver'.symm.trans hobserver, howned ▸ hmem⟩
  . intro p n' f' c hn' hf' hobserver hc hcf
    obtain ⟨n, hn, -, -, howned⟩ := hnode hn'
    obtain ⟨f, hf, hobserver', howned'⟩ := hframe hf' hcf
    exact h.disjoint hn hf (hobserver'.trans hobserver) (howned ▸ hc) (howned' ▸ hcf)
  . intro id n' p hn' hkind howner
    obtain ⟨n, hn, hkind', howner', -⟩ := hnode hn'
    obtain ⟨m, hm, hmkind⟩ := h.owner_kind hn (hkind'.trans hkind) (howner'.trans howner)
    obtain ⟨m', hm', hkind'', -⟩ := hnode' hm
    exact ⟨m', hm', hkind''.trans hmkind⟩
  . rw [hparent]
    exact h.acyclic

def Node.without (gone : List NodeId) (n : Node V) : Node V :=
  { n with
    sources := n.sources.filter (· ∉ gone)
    subscribers := n.subscribers.filter (· ∉ gone)
    owned := n.owned.filter (· ∉ gone) }

def ComputationFrame.without (gone : List NodeId) (f : ComputationFrame V) : ComputationFrame V :=
  { f with owned := f.owned.filter (· ∉ gone) }

structure Without (gone : List NodeId) (rt rt' : Runtime V) : Prop where
  wellFormed : rt'.toArena.WellFormed
  spent : ∀ id, rt.Spent id → rt'.Spent id
  gone_spent : ∀ id ∈ gone, rt'.Spent id
  node : ∀ j, rt'.node j = if j ∈ gone then none else (rt.node j).map (Node.without gone)
  frames : rt'.frames = rt.frames.map (ComputationFrame.without gone)
  pending : rt'.pending = rt.pending.filter (· ∉ gone)
  liveCount : rt'.liveCount ≤ rt.liveCount
  observer : rt'.observer = rt.observer
  owner : rt'.owner = rt.owner
  flushing : rt'.flushing = rt.flushing
  batchDepth : rt'.batchDepth = rt.batchDepth
  deferred : rt'.deferredDisposals = rt.deferredDisposals

theorem filter_ne_of_not_mem {l : List NodeId} {id : NodeId} (h : id ∉ l)
    : l.filter (· ≠ id) = l := by
  rw [List.filter_eq_self]
  intro a ha
  rw [decide_eq_true_eq]
  rintro rfl
  exact h ha

theorem Node.without_nil (n : Node V) : n.without [] = n := by
  simp [Node.without]

theorem Node.without_without (a b : List NodeId) (n : Node V)
    : (n.without a).without b = n.without (b ++ a) := by
  simp only [Node.without, List.filter_filter, List.mem_append, not_or, Bool.decide_and]

theorem ComputationFrame.without_without (a b : List NodeId) (f : ComputationFrame V)
    : (f.without a).without b = f.without (b ++ a) := by
  simp only [ComputationFrame.without, List.filter_filter, List.mem_append, not_or, Bool.decide_and]

namespace Without

variable {rt rt' rt'' : Runtime V} {gone gone' : List NodeId}

theorem refl (hwf : rt.toArena.WellFormed) : Without [] rt rt where
  wellFormed := hwf
  spent := fun _ h => h
  gone_spent := by simp
  node := by
    intro j
    cases h : rt.node j with
    | none => simp
    | some n => simp [Node.without_nil]
  frames := by
    have : (ComputationFrame.without [] : ComputationFrame V → _) = id := by
      funext f
      simp [ComputationFrame.without]
    simp [this]
  pending := by simp
  liveCount := Nat.le_refl _
  observer := rfl
  owner := rfl
  flushing := rfl
  batchDepth := rfl
  deferred := rfl

section

variable (h : Without gone rt rt')

include h

theorem trans (h' : Without gone' rt' rt'')
    : Without (gone' ++ gone) rt rt'' where
  wellFormed := h'.wellFormed
  spent := fun id hs => h'.spent id (h.spent id hs)
  gone_spent := by
    intro id hid
    rw [List.mem_append] at hid
    cases hid with
    | inl hid => exact h'.gone_spent id hid
    | inr hid => exact h'.spent id (h.gone_spent id hid)
  node := by
    intro j
    rw [h'.node, h.node]
    by_cases hj : j ∈ gone
    . simp [hj]
    . by_cases hj' : j ∈ gone'
      . simp [hj']
      . simp only [hj, hj', ↓reduceIte, Option.map_map, List.mem_append, or_self]
        congr 1
        funext n
        exact Node.without_without gone gone' n
  frames := by
    rw [h'.frames, h.frames, List.map_map]
    congr 1
    funext f
    exact ComputationFrame.without_without gone gone' f
  pending := by
    rw [h'.pending, h.pending]
    simp only [List.filter_filter, List.mem_append, not_or, Bool.decide_and]
  liveCount := Nat.le_trans h'.liveCount h.liveCount
  observer := h'.observer.trans h.observer
  owner := h'.owner.trans h.owner
  flushing := h'.flushing.trans h.flushing
  batchDepth := h'.batchDepth.trans h.batchDepth
  deferred := h'.deferred.trans h.deferred

theorem back {id : NodeId} {n' : Node V} (hn : rt'.node id = some n')
    : id ∉ gone ∧ ∃ n, rt.node id = some n ∧ n' = n.without gone := by
  rw [h.node] at hn
  split at hn
  . cases hn
  . next hid =>
    refine ⟨hid, ?_⟩
    cases hnode : rt.node id with
    | none => simp [hnode] at hn
    | some n =>
      rw [hnode] at hn
      simp only [Option.map_some, Option.some.injEq] at hn
      exact ⟨n, rfl, hn.symm⟩

theorem forth {id : NodeId} {n : Node V} (hn : rt.node id = some n) (hid : id ∉ gone)
    : rt'.node id = some (n.without gone) := by
  rw [h.node, hn]
  simp [hid]

theorem edges (he : Edges rt) : Edges rt' where
  sources_nodup := by
    intro id n' hn'
    obtain ⟨-, n, hn, rfl⟩ := h.back hn'
    exact (he.sources_nodup hn).filter _
  subscribers_nodup := by
    intro id n' hn'
    obtain ⟨-, n, hn, rfl⟩ := h.back hn'
    exact (he.subscribers_nodup hn).filter _
  source := by
    intro id n' s hn' hs
    obtain ⟨hid, n, hn, rfl⟩ := h.back hn'
    simp only [Node.without, List.mem_filter, decide_eq_true_eq] at hs
    obtain ⟨m, hm, hmem⟩ := he.source hn hs.1
    refine ⟨_, h.forth hm hs.2, ?_⟩
    simp [Node.without, hmem, hid]
  subscriber := by
    intro id n' s hn' hs
    obtain ⟨hid, n, hn, rfl⟩ := h.back hn'
    simp only [Node.without, List.mem_filter, decide_eq_true_eq] at hs
    obtain ⟨m, hm, hmem⟩ := he.subscriber hn hs.1
    refine ⟨_, h.forth hm hs.2, ?_⟩
    simp [Node.without, hmem, hid]
  irrefl := by
    intro id n' hn'
    obtain ⟨-, n, hn, rfl⟩ := h.back hn'
    simp [Node.without, he.irrefl hn]

theorem ownedInverse (ho : OwnedInverse rt) : OwnedInverse rt' := by
  intro id n' c hn' hc
  obtain ⟨hid, n, hn, rfl⟩ := h.back hn'
  simp only [Node.without, List.mem_filter, decide_eq_true_eq] at hc
  obtain ⟨m, hm, hmem⟩ := ho hn hc.1
  exact ⟨_, h.forth hm hc.2, hmem⟩

theorem parent {id p : NodeId} (hp : Parent rt' id p)
    : Parent rt id p := by
  obtain ⟨n', hn', howner⟩ := hp
  obtain ⟨-, n, hn, rfl⟩ := h.back hn'
  exact ⟨n, hn, howner⟩

theorem descends {id p : NodeId} (hp : Descends rt' id p)
    : Descends rt id p :=
  Relation.ReflTransGen.mono (fun _ _ => h.parent) _ _ hp

end

end Without

namespace Runtime

theorem node_detach (rt : Runtime V) (id : NodeId) (node : Node V) (j : NodeId)
    : (rt.detach id node).node j
        =
      (rt.node j).map (fun n =>
        { n with
          owned := if node.owner = some j then n.owned.filter (· ≠ id) else n.owned
          subscribers :=
            if j ∈ node.sources then n.subscribers.filter (· ≠ id) else n.subscribers
          sources := if j ∈ node.subscribers then n.sources.filter (· ≠ id) else n.sources }) := by
  unfold detach
  dsimp only
  rw [node_foldl_modifyNode _ _ (by intro n; simp), node_foldl_modifyNode _ _ (by intro n; simp)]
  cases howner : node.owner with
  | none =>
    change (if j ∈ node.subscribers then
      Option.map _ (if j ∈ node.sources then Option.map _ (rt.node j) else rt.node j)
      else if j ∈ node.sources then Option.map _ (rt.node j) else rt.node j) = _
    cases rt.node j with
    | none => simp
    | some n =>
      by_cases h1 : j ∈ node.subscribers
      all_goals by_cases h2 : j ∈ node.sources
      all_goals simp [h1, h2]
  | some owner =>
    simp only [node_modifyNode]
    change (if j ∈ node.subscribers then
      Option.map _ (if j ∈ node.sources then
        Option.map _ (if j = owner then Option.map _ (rt.node j) else rt.node j)
        else (if j = owner then Option.map _ (rt.node j) else rt.node j))
      else if j ∈ node.sources then
        Option.map _ (if j = owner then Option.map _ (rt.node j) else rt.node j)
        else (if j = owner then Option.map _ (rt.node j) else rt.node j)) = _
    cases rt.node j with
    | none => simp
    | some n =>
      by_cases h1 : j ∈ node.subscribers
      all_goals by_cases h2 : j ∈ node.sources
      all_goals by_cases h3 : owner = j
      all_goals first
        | subst h3; simp [h1, h2]
        | (have h3' : j ≠ owner := fun h => h3 h.symm
           simp [h1, h2, h3, h3'])

theorem rest_detach (rt : Runtime V) (id : NodeId) (node : Node V)
    : (rt.detach id node).rest
        =
      rest { rt with
        pending := rt.pending.filter (· ≠ id)
        frames := rt.frames.map (fun f => { f with owned := f.owned.filter (· ≠ id) }) } := by
  unfold detach
  dsimp only
  rw [rest_foldl_modifyNode, rest_foldl_modifyNode]
  cases node.owner <;> rfl

theorem keeps_detach (rt : Runtime V) (id : NodeId) (node : Node V)
    : (rt.toArena.WellFormed → (rt.detach id node).toArena.WellFormed) ∧
      (∀ j, rt.Spent j → (rt.detach id node).Spent j) ∧
      (rt.detach id node).liveCount = rt.liveCount := by
  have hfold := @arena_foldl_modifyNode V
  unfold detach
  dsimp only
  cases node.owner with
  | none =>
    dsimp only
    refine ⟨fun hwf => ?_, fun j hj => ?_, ?_⟩
    . exact (hfold _ _ _).1 ((hfold _ _ _).1 hwf)
    . exact (hfold _ _ _).2.1 j ((hfold _ _ _).2.1 j hj)
    . rw [(hfold _ _ _).2.2, (hfold _ _ _).2.2]
  | some owner =>
    dsimp only
    refine ⟨fun hwf => ?_, fun j hj => ?_, ?_⟩
    . exact (hfold _ _ _).1 ((hfold _ _ _).1 (hwf.modify _ _))
    . exact (hfold _ _ _).2.1 j ((hfold _ _ _).2.1 j hj.modify)
    . rw [(hfold _ _ _).2.2, (hfold _ _ _).2.2]
      exact Arena.liveCount_modify _ _ _

theorem takeNode_eq_none_iff {rt : Runtime V} {id : NodeId}
    : rt.takeNode id = none ↔ rt.node id = none := by
  unfold takeNode node
  rw [← @Arena.remove_eq_none_iff _ arenaLimit]
  split
  . next h => simp [h]
  . next h => simp [h]

theorem without_of_takeNode {rt rt' : Runtime V} {id : NodeId} {node : Node V}
    (hwf : rt.toArena.WellFormed) (hedges : Edges rt) (howned : OwnedInverse rt)
    (h : rt.takeNode id = some (node, rt'))
    : rt.node id = some node ∧ Without [id] rt (rt'.detach id node) ∧
      (rt'.detach id node).liveCount < rt.liveCount := by
  unfold takeNode at h
  split at h
  . cases h
  . next taken arena hremove =>
    cases h
    obtain ⟨hget, hother, hwf', hspent⟩ := Arena.remove_spec hwf hremove
    have hcount := Arena.liveCount_remove hremove
    obtain ⟨h1, h2, h3⟩ := keeps_detach { rt with toArena := arena } id node
    have hrest := rest_detach { rt with toArena := arena } id node
    refine ⟨hget, ?_, by rw [h3]; dsimp only; omega⟩
    constructor
    . exact h1 hwf'
    . intro j hj
      exact h2 j (hj.remove hremove)
    . intro j hj
      rw [List.mem_singleton] at hj
      subst hj
      exact h2 j hspent
    . intro j
      rw [node_detach]
      have hj : Runtime.node { rt with toArena := arena } j = if j = id then none else rt.node j :=
        hother j
      rw [hj]
      by_cases hid : j = id
      . simp [hid]
      . simp only [hid, ↓reduceIte, List.mem_singleton]
        cases hn : rt.node j with
        | none => rfl
        | some n =>
          simp only [Option.map_some, Option.some.injEq, Node.without, List.mem_singleton]
          congr 1
          . split
            . rfl
            . next hmem =>
              refine (filter_ne_of_not_mem fun hc => hmem ?_).symm
              obtain ⟨m, hm, hsub⟩ := hedges.source hn hc
              rw [show rt.node id = some node from hget] at hm
              cases hm
              exact hsub
          . split
            . rfl
            . next hmem =>
              refine (filter_ne_of_not_mem fun hc => hmem ?_).symm
              obtain ⟨m, hm, hsub⟩ := hedges.subscriber hn hc
              rw [show rt.node id = some node from hget] at hm
              cases hm
              exact hsub
          . split
            . rfl
            . next hmem =>
              refine (filter_ne_of_not_mem fun hc => hmem ?_).symm
              obtain ⟨m, hm, hown⟩ := howned hn hc
              rw [show rt.node id = some node from hget] at hm
              cases hm
              exact hown
    . have h := congrArg Runtime.frames hrest
      have hframe : (ComputationFrame.without [id] : ComputationFrame V → ComputationFrame V)
          = fun f => { f with owned := f.owned.filter (· ≠ id) } := by
        funext f
        simp [ComputationFrame.without]
      rw [hframe]
      exact h
    . have h := congrArg Runtime.pending hrest
      simp only [List.mem_singleton]
      exact h
    . rw [h3]
      dsimp only
      omega
    . have h := congrArg Runtime.observer hrest
      exact h
    . have h := congrArg Runtime.owner hrest
      exact h
    . have h := congrArg Runtime.flushing hrest
      exact h
    . have h := congrArg Runtime.batchDepth hrest
      exact h
    . have h := congrArg Runtime.deferredDisposals hrest
      exact h

end Runtime

/--
What collecting `roots` has done: the retired nodes are the roots and everything their owned lists lead
to.
-/
structure Collects (rt : Runtime V) (roots gone : List NodeId) (rt' : Runtime V) : Prop where
  without : Without gone rt rt'
  below : ∀ j ∈ gone, (∃ n, rt.node j = some n) ∧ ∃ r ∈ roots, Descends rt j r
  roots : ∀ r ∈ roots, ∀ n, rt.node r = some n → r ∈ gone
  closed : ∀ j ∈ gone, ∀ n, rt.node j = some n → ∀ c ∈ n.owned, c ∈ gone

namespace Collects

variable {rt rt' rt'' : Runtime V} {roots roots' gone gone' : List NodeId}

theorem nil (hwf : rt.toArena.WellFormed) : Collects rt [] [] rt where
  without := .refl hwf
  below := by simp
  roots := by simp
  closed := by simp

theorem closed_after (h : Collects rt roots gone rt') (h' : Collects rt' roots' gone' rt'')
    {j : NodeId} {n : Node V} (hj : j ∈ gone') (hn : rt.node j = some n)
    : ∀ c ∈ n.owned, c ∈ gone' ++ gone := by
  intro c hc
  rw [List.mem_append]
  by_cases hcg : c ∈ gone
  . exact .inr hcg
  . left
    obtain ⟨n', hn'⟩ := (h'.below j hj).1
    obtain ⟨hjg, m, hm, rfl⟩ := h.without.back hn'
    rw [hn] at hm
    cases hm
    apply h'.closed j hj _ hn'
    simp [Node.without, hc, hcg]

theorem trans (h : Collects rt roots gone rt') (h' : Collects rt' roots' gone' rt'')
    : Collects rt (roots ++ roots') (gone' ++ gone) rt'' where
  without := h.without.trans h'.without
  below := by
    intro j hj
    rw [List.mem_append] at hj
    cases hj with
    | inl hj =>
      obtain ⟨⟨n', hn'⟩, r, hr, hdesc⟩ := h'.below j hj
      obtain ⟨-, n, hn, -⟩ := h.without.back hn'
      exact ⟨⟨n, hn⟩, r, by simp [hr], h.without.descends hdesc⟩
    | inr hj =>
      obtain ⟨hlive, r, hr, hdesc⟩ := h.below j hj
      exact ⟨hlive, r, by simp [hr], hdesc⟩
  roots := by
    intro r hr n hn
    rw [List.mem_append] at hr ⊢
    by_cases hrg : r ∈ gone
    . exact .inr hrg
    . cases hr with
      | inl hr => exact .inr (h.roots r hr n hn)
      | inr hr => exact .inl (h'.roots r hr _ (h.without.forth hn hrg))
  closed := by
    intro j hj n hn c hc
    rw [List.mem_append] at hj
    cases hj with
    | inl hj => exact h.closed_after h' hj hn c hc
    | inr hj =>
      rw [List.mem_append]
      exact .inr (h.closed j hj n hn c hc)

theorem foldl {g : Runtime V → NodeId → Runtime V × List (Prog V)} {fuel : Nat}
    (hg : ∀ rt id, rt.liveCount < fuel → rt.toArena.WellFormed → Edges rt → OwnedInverse rt →
      ∃ gone, Collects rt [id] gone (g rt id).1)
    (ids : List NodeId) (acc : List (Prog V)) (hfuel : rt.liveCount < fuel)
    (hwf : rt.toArena.WellFormed) (hedges : Edges rt) (howned : OwnedInverse rt)
    : ∃ gone, Collects rt ids gone
        (ids.foldl (fun acc id => ((g acc.1 id).1, acc.2 ++ (g acc.1 id).2)) (rt, acc)).1 := by
  induction ids generalizing rt acc with
  | nil => exact ⟨[], .nil hwf⟩
  | cons id ids ih =>
    rw [List.foldl_cons]
    obtain ⟨gone, h⟩ := hg rt id hfuel hwf hedges howned
    obtain ⟨gone', h'⟩ := ih (acc ++ (g rt id).2) (Nat.lt_of_le_of_lt h.without.liveCount hfuel)
      h.without.wellFormed (h.without.edges hedges) (h.without.ownedInverse howned)
    exact ⟨gone' ++ gone, h.trans h'⟩

theorem collectDisposal_go {fuel : Nat} {id : NodeId} (hfuel : rt.liveCount < fuel)
    (hwf : rt.toArena.WellFormed) (hedges : Edges rt) (howned : OwnedInverse rt)
    : ∃ gone, Collects rt [id] gone (Runtime.collectDisposal.go fuel rt id).1 := by
  induction fuel generalizing rt id with
  | zero => omega
  | succ fuel ih =>
    unfold Runtime.collectDisposal.go
    split
    . next hnone =>
      rw [Runtime.takeNode_eq_none_iff] at hnone
      refine ⟨[], .refl hwf, by simp, ?_, by simp⟩
      intro r hr n hn
      rw [List.mem_singleton] at hr
      subst hr
      rw [hnone] at hn
      cases hn
    . next node taken htake =>
      obtain ⟨hnode, hout, hcount⟩ := Runtime.without_of_takeNode hwf hedges howned htake
      obtain ⟨gone, h⟩ := foldl (fun rt id hfuel hwf he ho => ih hfuel hwf he ho)
        node.owned.reverse [] (by omega) hout.wellFormed (hout.edges hedges)
        (hout.ownedInverse howned)
      refine ⟨gone ++ [id], hout.trans h.without, ?_, ?_, ?_⟩
      . intro j hj
        rw [List.mem_append, List.mem_singleton] at hj
        cases hj with
        | inl hj =>
          obtain ⟨⟨n', hn'⟩, r, hr, hdesc⟩ := h.below j hj
          obtain ⟨-, n, hn, -⟩ := hout.back hn'
          obtain ⟨m, hm, hparent⟩ := howned hnode (List.mem_reverse.mp hr)
          exact ⟨⟨n, hn⟩, id, by simp, (hout.descends hdesc).tail ⟨m, hm, hparent⟩⟩
        | inr hj =>
          subst hj
          exact ⟨⟨node, hnode⟩, j, by simp, .refl⟩
      . intro r hr n hn
        rw [List.mem_singleton] at hr
        simp [hr]
      . intro j hj n hn c hc
        rw [List.mem_append, List.mem_singleton] at hj ⊢
        by_cases hcid : c = id
        . exact .inr hcid
        . left
          cases hj with
          | inl hj =>
            obtain ⟨n', hn'⟩ := (h.below j hj).1
            obtain ⟨-, m, hm, rfl⟩ := hout.back hn'
            rw [hn] at hm
            cases hm
            apply h.closed j hj _ hn'
            simp [Node.without, hc, hcid]
          | inr hj =>
            subst hj
            rw [hnode] at hn
            cases hn
            obtain ⟨m, hm, -⟩ := howned hnode hc
            exact h.roots c (List.mem_reverse.mpr hc) _ (hout.forth hm (by simp [hcid]))

theorem collectDisposal (id : NodeId) (hwf : rt.toArena.WellFormed) (hedges : Edges rt) (howned : OwnedInverse rt)
    : ∃ gone, Collects rt [id] gone (rt.collectDisposal id).1 :=
  collectDisposal_go (Nat.lt_succ_self _) hwf hedges howned

theorem collectAll (ids : List NodeId) (hwf : rt.toArena.WellFormed) (hedges : Edges rt)
    (howned : OwnedInverse rt)
    : ∃ gone, Collects rt ids gone (rt.collectAll ids).1 :=
  foldl (fun _ id _ hwf he ho => collectDisposal id hwf he ho) ids [] (Nat.lt_succ_self _) hwf hedges
    howned

variable {orphans : List NodeId}

theorem closed_parent (h : Collects rt roots gone rt') (ho : Ownership rt orphans)
    (horphans : orphans ⊆ roots) (hidle : ∀ f ∈ rt.frames, f.observer ∉ gone) {id p : NodeId}
    (hp : Parent rt id p) (hgone : p ∈ gone)
    : id ∈ gone := by
  obtain ⟨m, hm, howner⟩ := hp
  by_cases hid : id ∈ orphans
  . exact h.roots id (horphans hid) m hm
  . cases ho.owner ⟨m, hm, howner⟩ hid with
    | inl hmem =>
      obtain ⟨n, hn, hmem⟩ := hmem
      exact h.closed p hgone n hn id hmem
    | inr hmem =>
      obtain ⟨f, hf, hobserver, -⟩ := hmem
      exact absurd (hobserver ▸ hgone) (hidle f hf)

theorem ownership (h : Collects rt roots gone rt') (ho : Ownership rt orphans)
    (horphans : orphans ⊆ roots) (hidle : ∀ f ∈ rt.frames, f.observer ∉ gone)
    : Ownership rt' [] := by
  have hparent : ∀ {id p}, Parent rt' id p → Parent rt id p ∧ id ∉ gone ∧ p ∉ gone := by
    intro id p hp
    have hold := h.without.parent hp
    obtain ⟨n', hn', -⟩ := hp
    have hid := (h.without.back hn').1
    refine ⟨hold, hid, fun hgone => hid ?_⟩
    exact h.closed_parent ho horphans hidle hold hgone
  have hframe : ∀ {f'}, f' ∈ rt'.frames → ∃ f ∈ rt.frames, f' = f.without gone := by
    intro f' hf'
    rw [h.without.frames] at hf'
    obtain ⟨f, hf, rfl⟩ := List.mem_map.mp hf'
    exact ⟨f, hf, rfl⟩
  constructor
  . intro id n' hn'
    obtain ⟨-, n, hn, rfl⟩ := h.without.back hn'
    exact (ho.owned_nodup hn).filter _
  . exact h.without.ownedInverse ho.owned
  . intro f' hf'
    obtain ⟨f, hf, rfl⟩ := hframe hf'
    exact (ho.frame_nodup hf).filter _
  . intro f' c hf' hc
    obtain ⟨f, hf, rfl⟩ := hframe hf'
    simp only [ComputationFrame.without, List.mem_filter, decide_eq_true_eq] at hc
    obtain ⟨m, hm, hobserver, hkind⟩ := ho.frame hf hc.1
    exact ⟨_, h.without.forth hm hc.2, hobserver, hkind⟩
  . intro id p hp
    obtain ⟨hp, -, hpg⟩ := hparent hp
    obtain ⟨n, hn⟩ := ho.owner_live hp
    exact ⟨_, h.without.forth hn hpg⟩
  . intro id p hp _
    obtain ⟨hp, hid, hpg⟩ := hparent hp
    have hnot : id ∉ orphans := by
      intro horphan
      obtain ⟨m, hm, -⟩ := hp
      exact hid (h.roots id (horphans horphan) m hm)
    cases ho.owner hp hnot with
    | inl hmem =>
      obtain ⟨n, hn, hmem⟩ := hmem
      exact .inl ⟨_, h.without.forth hn hpg, by simp [Node.without, hmem, hid]⟩
    | inr hmem =>
      obtain ⟨f, hf, hobserver, hmem⟩ := hmem
      refine .inr ⟨f.without gone, ?_, hobserver, by simp [ComputationFrame.without, hmem, hid]⟩
      rw [h.without.frames]
      exact List.mem_map_of_mem hf
  . intro p n' f' c hn' hf' hobserver hc
    obtain ⟨-, n, hn, rfl⟩ := h.without.back hn'
    obtain ⟨f, hf, rfl⟩ := hframe hf'
    simp only [Node.without, List.mem_filter] at hc
    intro hcf
    simp only [ComputationFrame.without, List.mem_filter] at hcf
    exact ho.disjoint hn hf hobserver hc.1 hcf.1
  . intro id n' p hn' hkind howner
    obtain ⟨-, -, hpg⟩ := hparent ⟨n', hn', howner⟩
    obtain ⟨-, n, hn, rfl⟩ := h.without.back hn'
    obtain ⟨m, hm, hmkind⟩ := ho.owner_kind hn hkind howner
    exact ⟨_, h.without.forth hm hpg, hmkind⟩
  . intro id hcycle
    exact ho.acyclic id (Relation.TransGen.mono (fun _ _ hp => (hparent hp).1) _ _ hcycle)

end Collects

def Busy (rt : Runtime V) (id : NodeId) : Prop :=
  ∃ n, rt.node id = some n ∧ (n.updating = true ∨ n.running = true)

theorem idle_of_not_busy {rt : Runtime V} {id : NodeId} (ho : Ownership rt [])
    (hrunning : ∀ f ∈ rt.frames, ∃ n, rt.node f.observer = some n ∧ n.running = true)
    (h : rt.disposableTreeIsBusy id = false) {j : NodeId} (hj : Descends rt j id)
    : ¬ Busy rt j := by
  have hgo : ∀ (ids : List NodeId) (id : NodeId) (fuel : Nat), (id :: ids).length ≤ fuel →
      (id :: ids).IsChain (fun p c => Parent rt c p) →
      Runtime.disposableTreeIsBusy.go rt fuel id = false → ∀ x ∈ id :: ids, ¬ Busy rt x := by
    intro ids
    induction ids with
    | nil =>
      intro id fuel hfuel _ hgo x hx
      rw [List.mem_singleton] at hx
      subst hx
      rintro ⟨n, hn, hbusy⟩
      cases fuel with
      | zero => simp at hfuel
      | succ fuel =>
        unfold Runtime.disposableTreeIsBusy.go at hgo
        rw [hn] at hgo
        simp only [Bool.or_eq_false_iff] at hgo
        simp [hgo.1.1, hgo.1.2] at hbusy
    | cons c ids ih =>
      intro id fuel hfuel hchain hgo x hx
      cases fuel with
      | zero => simp at hfuel
      | succ fuel =>
        rw [List.isChain_cons_cons] at hchain
        obtain ⟨n, hn⟩ := ho.owner_live hchain.1
        unfold Runtime.disposableTreeIsBusy.go at hgo
        rw [hn] at hgo
        simp only [Bool.or_eq_false_iff, List.any_eq_false, Bool.not_eq_true] at hgo
        rw [List.mem_cons] at hx
        cases hx with
        | inl hx =>
          subst hx
          rintro ⟨m, hm, hbusy⟩
          rw [hn] at hm
          cases hm
          simp [hgo.1.1, hgo.1.2] at hbusy
        | inr hx =>
          have hmem : c ∈ n.owned := by
            cases ho.owner hchain.1 (by simp) with
            | inl hmem =>
              obtain ⟨m, hm, hmem⟩ := hmem
              rw [hn] at hm
              cases hm
              exact hmem
            | inr hmem =>
              obtain ⟨f, hf, hobserver, -⟩ := hmem
              obtain ⟨m, hm, hrun⟩ := hrunning f hf
              rw [hobserver, hn] at hm
              cases hm
              simp [hgo.1.2] at hrun
          simp only [List.length_cons] at hfuel
          exact ih c fuel (by simp only [List.length_cons]; omega) hchain.2 (hgo.2 c hmem) x hx
  rintro ⟨n, hn, hbusy⟩
  have hdown : Relation.ReflTransGen (fun p c => Parent rt c p) id j :=
    Relation.reflTransGen_swap.mp hj
  obtain ⟨ids, hchain, hlast⟩ := List.exists_isChain_cons_of_relationReflTransGen hdown
  have hnodup : (id :: ids).Nodup := by
    have hpair : (id :: ids).Pairwise (Relation.TransGen (fun p c => Parent rt c p)) :=
      List.isChain_iff_pairwise.mp (hchain.imp fun _ _ => Relation.TransGen.single)
    apply hpair.imp
    rintro a b hab rfl
    exact ho.acyclic a (Relation.transGen_swap.mp hab)
  have hlive : ∀ x ∈ id :: ids, (rt.toArena.get x).isSome := by
    -- every node of the chain but the last is an owner
    have hall : ∀ (ids : List NodeId) (id : NodeId),
        (id :: ids).IsChain (fun p c => Parent rt c p) →
        (id :: ids).getLast (by simp) = j → ∀ x ∈ id :: ids, ∃ n, rt.node x = some n := by
      intro ids
      induction ids with
      | nil =>
        intro id _ hlast x hx
        simp only [List.getLast_singleton] at hlast
        rw [List.mem_singleton] at hx
        rw [hx, hlast]
        exact ⟨n, hn⟩
      | cons c ids ih =>
        intro id hchain hlast x hx
        rw [List.isChain_cons_cons] at hchain
        rw [List.mem_cons] at hx
        cases hx with
        | inl hx =>
          subst hx
          exact ho.owner_live hchain.1
        | inr hx =>
          rw [List.getLast_cons_cons] at hlast
          exact ih c hchain.2 hlast x hx
    intro x hx
    obtain ⟨m, hm⟩ := hall ids id hchain hlast x hx
    exact Option.isSome_iff_exists.mpr ⟨m, hm⟩
  have hlength := Arena.length_le_of_live hnodup hlive
  refine hgo ids id (rt.slots.length + 1) (by omega) hchain h j ?_ ⟨n, hn, hbusy⟩
  rw [← hlast]
  exact List.getLast_mem _

end Reactive

end Pliego
