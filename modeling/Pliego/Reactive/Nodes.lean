import Pliego.Reactive.Machine

/-!
What the operations of the runtime do to the nodes.
-/

namespace Pliego

namespace Reactive

variable {V : Type}

namespace Runtime

def rest (rt : Runtime V) : Runtime V := { rt with toArena := Arena.empty }

@[simp]
theorem node_modifyNode (rt : Runtime V) (id j : NodeId) (f : Node V → Node V)
    : (rt.modifyNode id f).node j = if j = id then (rt.node j).map f else rt.node j :=
  Arena.get_modify rt.toArena id j f

@[simp]
theorem rest_modifyNode (rt : Runtime V) (id : NodeId) (f : Node V → Node V)
    : (rt.modifyNode id f).rest = rt.rest := rfl

@[simp]
theorem flushing_modifyNode (rt : Runtime V) (id : NodeId) (f : Node V → Node V)
    : (rt.modifyNode id f).flushing = rt.flushing := rfl

theorem node_foldl_modifyNode (rt : Runtime V) (ids : List NodeId) {f : Node V → Node V}
    (hf : ∀ n, f (f n) = f n) (j : NodeId)
    : (ids.foldl (fun rt id => rt.modifyNode id f) rt).node j
        =
      if j ∈ ids then (rt.node j).map f else rt.node j := by
  induction ids generalizing rt with
  | nil => simp
  | cons id ids ih =>
    rw [List.foldl_cons, ih, node_modifyNode]
    by_cases hj : j = id
    . subst hj
      simp only [↓reduceIte, Option.map_map, List.mem_cons, true_or]
      split
      . congr 1
        funext n
        exact hf n
      . rfl
    . simp [hj]

theorem rest_foldl_modifyNode (rt : Runtime V) (ids : List NodeId) (f : Node V → Node V)
    : (ids.foldl (fun rt id => rt.modifyNode id f) rt).rest = rt.rest := by
  induction ids generalizing rt with
  | nil => rfl
  | cons id ids ih => rw [List.foldl_cons, ih, rest_modifyNode]

theorem pending_foldl_modifyNode (rt : Runtime V) (ids : List NodeId) (f : Node V → Node V)
    : (ids.foldl (fun rt id => rt.modifyNode id f) rt).pending = rt.pending := by
  have h := congrArg pending (rest_foldl_modifyNode rt ids f)
  exact h

theorem isSome_node_foldl_modifyNode (rt : Runtime V) (ids : List NodeId) (f : Node V → Node V) (j : NodeId)
    : ((ids.foldl (fun rt id => rt.modifyNode id f) rt).node j).isSome = (rt.node j).isSome := by
  induction ids generalizing rt with
  | nil => rfl
  | cons id ids ih =>
    rw [List.foldl_cons, ih, node_modifyNode]
    split <;> simp

def resubscribed (id : NodeId) (old new : List NodeId) (j : NodeId) (subscribers : List NodeId)
    : List NodeId :=
  let kept := if j ∈ old then subscribers.filter (· ≠ id) else subscribers
  if j ∈ new then (if id ∈ kept then kept else kept ++ [id]) else kept

theorem node_installFrame (rt : Runtime V) {id : NodeId} {node : Node V}
    {frame : ComputationFrame V} (newValue : V) (hold : id ∉ node.sources)
    (hnew : id ∉ frame.sources) (j : NodeId)
    : (rt.installFrame id node frame newValue).node j
        =
      (rt.node j).map (fun n =>
        if j = id then
          { n with
            sources := rt.liveSources frame
            owned := frame.owned
            cleanups := frame.cleanups
            retryNotify := false
            value := if node.kind = .memo then some newValue else n.value
            color := .clean }
        else
          { n with
            subscribers := resubscribed id node.sources (rt.liveSources frame) j n.subscribers }) := by
  unfold installFrame
  dsimp only
  have hlive : ∀ ids : List NodeId,
      liveSources (ids.foldl (fun rt source => rt.modifyNode source (fun n =>
          { n with subscribers := n.subscribers.filter (· ≠ id) }))
        (rt.modifyNode id (fun n => { n with sources := [], owned := [], cleanups := [] }))) frame
        = rt.liveSources frame := by
    intro ids
    unfold liveSources
    apply List.filter_congr
    intro source _
    rw [isSome_node_foldl_modifyNode, node_modifyNode]
    split <;> simp
  rw [hlive, node_modifyNode, node_foldl_modifyNode _ _ (by intro n; grind),
    node_foldl_modifyNode _ _ (by intro n; simp), node_modifyNode]
  have hnew' : id ∉ rt.liveSources frame := by
    intro hmem
    exact hnew (List.mem_filter.mp hmem).1
  cases rt.node j with
  | none => simp
  | some n =>
    by_cases hj : j = id
    . subst hj
      simp [hold, hnew']
    . unfold resubscribed
      by_cases h1 : j ∈ rt.liveSources frame
      all_goals by_cases h2 : j ∈ node.sources
      all_goals simp [hj, h1, h2]

theorem rest_installFrame (rt : Runtime V) (id : NodeId) (node : Node V)
    (frame : ComputationFrame V) (newValue : V)
    : (rt.installFrame id node frame newValue).rest = rt.rest := by
  unfold installFrame
  dsimp only
  rw [rest_modifyNode, rest_foldl_modifyNode, rest_foldl_modifyNode, rest_modifyNode]

theorem arena_foldl_modifyNode (f : Node V → Node V) (ids : List NodeId) (rt : Runtime V)
    : (rt.toArena.WellFormed →
        (ids.foldl (fun rt id => rt.modifyNode id f) rt).toArena.WellFormed) ∧
      (∀ j, rt.Spent j → (ids.foldl (fun rt id => rt.modifyNode id f) rt).Spent j) ∧
      (ids.foldl (fun rt id => rt.modifyNode id f) rt).liveCount = rt.liveCount := by
  induction ids generalizing rt with
  | nil => exact ⟨fun h => h, fun _ h => h, rfl⟩
  | cons i ids ih =>
    obtain ⟨h1, h2, h3⟩ := ih (rt.modifyNode i f)
    rw [List.foldl_cons]
    refine ⟨fun hwf => h1 (hwf.modify i f), fun j hj => h2 j hj.modify, ?_⟩
    rw [h3]
    exact Arena.liveCount_modify _ _ _

theorem arena_installFrame (rt : Runtime V) (id : NodeId) (node : Node V)
    (frame : ComputationFrame V) (newValue : V)
    : (rt.toArena.WellFormed → (rt.installFrame id node frame newValue).toArena.WellFormed) ∧
      (∀ j, rt.Spent j → (rt.installFrame id node frame newValue).Spent j) := by
  unfold installFrame
  dsimp only
  constructor
  . intro hwf
    apply Arena.WellFormed.modify
    apply (arena_foldl_modifyNode _ _ _).1
    apply (arena_foldl_modifyNode _ _ _).1
    exact hwf.modify _ _
  . intro j hj
    apply Arena.Spent.modify
    apply (arena_foldl_modifyNode _ _ _).2.1
    apply (arena_foldl_modifyNode _ _ _).2.1
    exact hj.modify

end Runtime

theorem node_of_map_eq {α : Type} {f : Node V → α} {rt rt' : Runtime V}
    (h : ∀ id, (rt'.node id).map f = (rt.node id).map f) {id : NodeId} {n' : Node V} (hn : rt'.node id = some n')
    : ∃ n, rt.node id = some n ∧ f n = f n' := by
  have := h id
  rw [hn, Option.map_some, eq_comm, Option.map_eq_some_iff] at this
  exact this

/--
What a node is to the ownership and to the running computations: everything but its colour, its value and
its place in the queue.
-/
def Node.shape (n : Node V) : Node V :=
  { n with
    color := .clean, value := none, retryNotify := false, queued := false, cleanups := [],
    disposeRequested := false }

theorem Node.shape_eq {n m : Node V} (h : n.shape = m.shape)
    : n.kind = m.kind ∧ n.owner = m.owner ∧ n.updating = m.updating ∧ n.running = m.running ∧
      n.compute = m.compute ∧ n.sources = m.sources ∧ n.subscribers = m.subscribers ∧
      n.owned = m.owned := by
  unfold Node.shape at h
  simp only [Node.mk.injEq] at h
  grind

def ComputationFrame.shape (f : ComputationFrame V) : NodeId × List NodeId :=
  (f.observer, f.owned)

def Tracked (rt : Runtime V) : Prop :=
  ∀ f ∈ rt.frames, f.sources.Nodup ∧ f.observer ∉ f.sources

structure SameShape (rt rt' : Runtime V) : Prop where
  wellFormed : rt.toArena.WellFormed → rt'.toArena.WellFormed
  spent : ∀ id, rt.Spent id → rt'.Spent id
  node : ∀ id, (rt'.node id).map Node.shape = (rt.node id).map Node.shape
  frames : rt'.frames.map ComputationFrame.shape = rt.frames.map ComputationFrame.shape
  tracked : Tracked rt → Tracked rt'

structure Keeps (rt rt' : Runtime V) : Prop extends SameShape rt rt' where
  observer : rt'.observer = rt.observer
  owner : rt'.owner = rt.owner
  flushing : rt'.flushing = rt.flushing
  batchDepth : rt'.batchDepth = rt.batchDepth
  deferred : rt'.deferredDisposals = rt.deferredDisposals

namespace SameShape

variable {rt rt' rt'' : Runtime V}

theorem of_eq (harena : rt'.toArena = rt.toArena) (hframes : rt'.frames = rt.frames)
    : SameShape rt rt' where
  wellFormed := by
    rw [harena]
    exact fun h => h
  spent := by
    rw [harena]
    exact fun _ h => h
  node := by
    intro id
    unfold Runtime.node
    rw [harena]
  frames := by rw [hframes]
  tracked := by
    unfold Tracked
    rw [hframes]
    exact fun h => h

theorem trans (h : SameShape rt rt') (h' : SameShape rt' rt'') : SameShape rt rt'' where
  wellFormed := fun hwf => h'.wellFormed (h.wellFormed hwf)
  spent := fun id hs => h'.spent id (h.spent id hs)
  node := fun id => (h'.node id).trans (h.node id)
  frames := h'.frames.trans h.frames
  tracked := fun ht => h'.tracked (h.tracked ht)

theorem back (h : SameShape rt rt') {id : NodeId} {n' : Node V} (hn : rt'.node id = some n')
    : ∃ n, rt.node id = some n ∧ n.shape = n'.shape := by
  exact node_of_map_eq h.node hn

end SameShape

namespace Keeps

variable {rt rt' rt'' : Runtime V}

theorem refl (rt : Runtime V) : Keeps rt rt :=
  ⟨.of_eq rfl rfl, rfl, rfl, rfl, rfl, rfl⟩

theorem trans (h : Keeps rt rt') (h' : Keeps rt' rt'') : Keeps rt rt'' where
  toSameShape := h.toSameShape.trans h'.toSameShape
  observer := h'.observer.trans h.observer
  owner := h'.owner.trans h.owner
  flushing := h'.flushing.trans h.flushing
  batchDepth := h'.batchDepth.trans h.batchDepth
  deferred := h'.deferred.trans h.deferred

theorem modifyNode (rt : Runtime V) (id : NodeId) {f : Node V → Node V} (hf : ∀ n, (f n).shape = n.shape)
    : Keeps rt (rt.modifyNode id f) where
  wellFormed := fun hwf => hwf.modify id f
  spent := fun _ hs => hs.modify
  node := by
    intro j
    rw [Runtime.node_modifyNode]
    split
    . rw [Option.map_map]
      congr 1
      funext n
      exact hf n
    . rfl
  frames := rfl
  tracked := fun h => h
  observer := rfl
  owner := rfl
  flushing := rfl
  batchDepth := rfl
  deferred := rfl

theorem withPending (rt : Runtime V) (pending : List NodeId)
    : Keeps rt { rt with pending := pending } :=
  ⟨.of_eq rfl rfl, rfl, rfl, rfl, rfl, rfl⟩

theorem foldl {α : Type} {f : Runtime V → α → Runtime V} (hf : ∀ rt a, Keeps rt (f rt a))
    (l : List α) (rt : Runtime V)
    : Keeps rt (l.foldl f rt) := by
  induction l generalizing rt with
  | nil => exact refl rt
  | cons a l ih => exact (hf rt a).trans (ih (f rt a))

theorem enqueueEffect (rt : Runtime V) (id : NodeId) : Keeps rt (rt.enqueueEffect id) := by
  unfold Runtime.enqueueEffect
  split
  . exact refl rt
  . split
    . apply trans (modifyNode rt id (f := fun n => { n with queued := true }) (fun _ => rfl))
      apply withPending
    . exact refl rt

theorem markVisit (rt : Runtime V) (visit : Runtime.Visit) : Keeps rt (rt.markVisit visit).1 := by
  have hcolor : Keeps rt (rt.modifyNode visit.id (Runtime.recolor visit.color)) :=
    modifyNode rt visit.id (fun _ => rfl)
  unfold Runtime.markVisit
  split
  . exact refl rt
  . dsimp only
    split
    . exact hcolor.trans (enqueueEffect _ _)
    . split
      . exact hcolor
      . exact hcolor

theorem worklist {κ : Type} [DecidableEq κ] {visit : Runtime V → κ → Runtime V × List κ}
    (hvisit : ∀ rt k, Keeps rt (visit rt k).1) (rt : Runtime V) (fuel : Nat) (visited pending : List κ)
    : Keeps rt (Worklist.run visit fuel visited rt pending).1 := by
  apply Worklist.run_inv (Keeps rt)
  . intro s k h
    exact h.trans (hvisit s k)
  . exact refl rt

theorem markSubscribersWithForce (rt : Runtime V) (of : NodeId) (color : Color) (force : Bool)
    : Keeps rt (rt.markSubscribersWithForce of color force) := by
  unfold Runtime.markSubscribersWithForce
  split
  . exact refl rt
  . exact worklist markVisit _ _ _ _

theorem rearmVisit (rt : Runtime V) (source : NodeId) : Keeps rt (rt.rearmVisit source).1 := by
  unfold Runtime.rearmVisit
  split
  . exact refl rt
  . split
    . exact modifyNode rt source (fun _ => rfl)
    . exact refl rt

theorem rearmDiscardedEffect (rt : Runtime V) (effect : NodeId)
    : Keeps rt (rt.rearmDiscardedEffect effect) := by
  unfold Runtime.rearmDiscardedEffect
  split
  . exact refl rt
  . exact worklist rearmVisit _ _ _ _

theorem clearPending (rt : Runtime V) : Keeps rt rt.clearPending := by
  have hqueued : ∀ (rt : Runtime V) (id : NodeId),
      Keeps rt (rt.modifyNode id (fun n => { n with queued := false })) :=
    fun rt id => modifyNode rt id (fun _ => rfl)
  unfold Runtime.clearPending
  exact (withPending rt []).trans ((foldl hqueued _ _).trans (foldl rearmDiscardedEffect _ _))

theorem abortPending (rt : Runtime V) (current : NodeId) : Keeps rt (rt.abortPending current) :=
  (rearmDiscardedEffect rt current).trans (clearPending _)

theorem popPending (rt : Runtime V) : Keeps rt rt.popPending.2 := by
  have hgo : ∀ pending, Keeps rt (Runtime.popPending.go rt pending).2 := by
    intro pending
    induction pending with
    | nil => exact withPending rt []
    | cons id rest ih =>
      unfold Runtime.popPending.go
      split
      . exact ih
      . apply trans (modifyNode rt id (f := fun n => { n with queued := false }) (fun _ => rfl))
        apply withPending
  exact hgo rt.pending

theorem publish (rt : Runtime V) (id : NodeId) (value : V)
    : Keeps rt (Config.publish rt id value) := by
  have hvalue : Keeps rt (rt.modifyNode id (fun n => { n with value := some value })) :=
    modifyNode rt id (fun _ => rfl)
  exact hvalue.trans (markSubscribersWithForce _ _ _ _)

theorem withFrame {frame frame' : ComputationFrame V} {frames : List (ComputationFrame V)}
    (hwf : rt.frames = frame :: frames) (hshape : frame'.shape = frame.shape)
    (htracked : frame.sources.Nodup → frame.observer ∉ frame.sources →
      frame'.sources.Nodup ∧ frame.observer ∉ frame'.sources)
    : Keeps rt { rt with frames := frame' :: frames } where
  wellFormed := fun h => h
  spent := fun _ h => h
  node := fun _ => rfl
  frames := by
    rw [hwf, List.map_cons, List.map_cons, hshape]
  tracked := by
    intro h f hf
    have hobserver : frame'.observer = frame.observer := congrArg Prod.fst hshape
    rw [List.mem_cons] at hf
    cases hf with
    | inl hf =>
      have := h frame (by simp [hwf])
      rw [hf, hobserver]
      exact htracked this.1 this.2
    | inr hf => exact h f (by simp [hwf, hf])
  observer := rfl
  owner := rfl
  flushing := rfl
  batchDepth := rfl
  deferred := rfl

theorem track {source : NodeId} (h : rt.track source = some rt') : Keeps rt rt' := by
  unfold Runtime.track at h
  split at h
  . cases h
    exact refl rt
  . next observer hobserver =>
    split at h
    . cases h
      exact refl rt
    . next hcond =>
      split at h
      . cases h
      . next frame frames hframes =>
        split at h
        . next hframe =>
          split at h
          . cases h
            exact refl rt
          . next hfresh =>
            cases h
            refine withFrame hframes (by rfl) ?_
            intro hnodup hself
            rw [not_or] at hcond
            have hne : frame.observer ≠ source := by
              rw [hframe]
              exact hcond.1
            refine ⟨List.nodup_append.mpr ⟨hnodup, by simp, by grind⟩, ?_⟩
            simp [hself, hne]
        . cases h

theorem onCleanup {f : Prog V} (h : Config.onCleanup rt f = some rt') : Keeps rt rt' := by
  unfold Config.onCleanup at h
  split at h
  . cases h
    exact refl rt
  . split at h
    . cases h
    . next frame frames hframes =>
      split at h
      . cases h
        exact withFrame hframes rfl (fun h h' => ⟨h, h'⟩)
      . cases h

end Keeps

end Reactive

end Pliego
