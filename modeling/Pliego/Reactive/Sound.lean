import Pliego.Reactive.Ownership

/-!
How the runtime and the stack of activations describe each other. The operations keep this as long as no busy node is
retired.
-/

namespace Pliego

namespace Reactive

variable {V : Type}

def frameIds (stack : List (Activation V)) : List NodeId :=
  match stack with
  | [] => []
  | .computing id _ _ _ _ _ :: rest => id :: frameIds rest
  | .comparing id _ _ _ _ _ _ :: rest => id :: frameIds rest
  | _ :: rest => frameIds rest

def updatingIds (stack : List (Activation V)) : List NodeId :=
  match stack with
  | [] => []
  | .updating id :: rest => id :: updatingIds rest
  | _ :: rest => updatingIds rest

def busyIds (stack : List (Activation V)) : List NodeId :=
  match stack with
  | [] => []
  | .computing id _ _ _ _ _ :: rest => id :: busyIds rest
  | .comparing id _ _ _ _ _ _ :: rest => id :: busyIds rest
  | .updating id :: rest => id :: busyIds rest
  | _ :: rest => busyIds rest

def observerOf (stack : List (Activation V)) : Option NodeId :=
  match stack with
  | [] => none
  | .computing id _ _ _ _ _ :: _ => some id
  | .comparing _ _ _ _ _ _ _ :: _ => none
  | .untracked _ :: _ => none
  | .disposal _ _ _ _ :: _ => none
  | _ :: rest => observerOf rest

def depthOf (stack : List (Activation V)) : Nat :=
  match stack with
  | [] => 0
  | .computing _ _ _ _ _ _ :: rest => depthOf rest + 1
  | .comparing _ _ _ _ _ _ _ :: rest => depthOf rest + 1
  | .disposal _ _ _ _ :: rest => depthOf rest + 1
  | .updating _ :: rest => depthOf rest + 1
  | _ :: rest => depthOf rest

def flushesOf (stack : List (Activation V)) : Nat :=
  match stack with
  | [] => 0
  | .flushing _ _ _ _ _ :: rest => flushesOf rest + 1
  | _ :: rest => flushesOf rest

def disposing (stack : List (Activation V)) : Bool :=
  match stack with
  | [] => false
  | .disposal _ _ _ _ :: _ => true
  | _ :: rest => disposing rest

def Saved (stack : List (Activation V)) : Prop :=
  match stack with
  | [] => True
  | .computing _ previousObserver previousOwner _ _ _ :: rest =>
    previousObserver = observerOf rest ∧ previousOwner = (frameIds rest).head? ∧ Saved rest
  | .comparing id previousObserver previousOwner _ previous _ _ :: rest =>
    previous = some id ∧ previousObserver = observerOf rest ∧
      previousOwner = (frameIds rest).head? ∧ Saved rest
  | .untracked previous :: rest => previous = observerOf rest ∧ Saved rest
  | .disposal _ _ previous after :: rest =>
    -- a signal is not retired during its update
    previous = observerOf rest ∧ after ≠ .unwind ∧ Saved rest
  | _ :: rest => Saved rest

def Activation.Neutral (a : Activation V) : Prop :=
  match a with
  | .user _ => True
  | .pulling _ _ => True
  | .reading _ => True
  | .tryReading _ => True
  | .installing _ => True
  | .uninstalling => True
  | .flushing _ _ _ _ _ => True
  | _ => False

def Above (busy : List NodeId) (d x : NodeId) : Prop :=
  ∃ before after, busy = before ++ d :: after ∧ x ∈ after

structure Node.Typed (n : Node V) : Prop where
  running : n.running = true → n.kind = .memo ∨ n.kind = .effect
  updating : n.updating = true → n.kind = .signal
  compute : n.compute ≠ none → n.kind = .memo ∨ n.kind = .effect

structure Queue (rt : Runtime V) : Prop where
  nodup : rt.pending.Nodup
  live : ∀ id ∈ rt.pending, ∃ n, rt.node id = some n ∧ n.kind = .effect ∧ n.queued = true
  queued : ∀ {id n}, rt.node id = some n → n.queued = true → id ∈ rt.pending

structure Sound (orphans : List NodeId) (rt : Runtime V) (stack : List (Activation V)) : Prop where
  arena : rt.toArena.WellFormed
  edges : Edges rt
  ownership : Ownership rt orphans
  typed : ∀ {id n}, rt.node id = some n → n.Typed
  queue : Queue rt
  tracked : Tracked rt
  frames : rt.frames.map (·.observer) = frameIds stack
  observer : rt.observer = observerOf stack
  owner : rt.owner = (frameIds stack).head?
  saved : Saved stack
  nodup : (busyIds stack).Nodup
  running : ∀ id, (∃ n, rt.node id = some n ∧ n.running = true) ↔ id ∈ frameIds stack
  updating : ∀ id, (∃ n, rt.node id = some n ∧ n.updating = true) ↔ id ∈ updatingIds stack
  -- what a computation has created since it was entered has become busy later than it
  young : ∀ f ∈ rt.frames, ∀ c ∈ f.owned, ∀ d ∈ busyIds stack, Descends rt d c →
    Above (busyIds stack) d f.observer

/--
An owner waits for its disposal only while something below it is busy.
-/
def Deferred (rt : Runtime V) (stack : List (Activation V)) : Prop :=
  disposing stack = true ∨ ∀ d ∈ rt.deferredDisposals, ∃ j, Busy rt j ∧ Descends rt j d

/--
The open batches and the flush that is going on are those on the stack, and whoever queues an effect is
inside one of them. `extra` counts a batch that the operation in progress has entered.
-/
structure Balanced (rt : Runtime V) (stack : List (Activation V)) (extra : Nat) : Prop where
  depth : rt.batchDepth = depthOf stack + extra
  flushing : flushesOf stack = if rt.flushing then 1 else 0
  wakes : rt.pending ≠ [] → 0 < rt.batchDepth ∨ rt.flushing = true

variable {id : NodeId} {busy : List NodeId} {rt rt' : Runtime V} {node : Node V}

theorem mem_busyIds {stack : List (Activation V)}
    : id ∈ busyIds stack ↔ id ∈ frameIds stack ∨ id ∈ updatingIds stack := by
  induction stack with
  | nil => simp [busyIds, frameIds, updatingIds]
  | cons a rest ih =>
    cases a <;> simp [busyIds, frameIds, updatingIds, ih, or_assoc]
    tauto

theorem Above.cons {d x y : NodeId} (h : Above busy d x)
    : Above (y :: busy) d x := by
  obtain ⟨before, after, rfl, hx⟩ := h
  exact ⟨y :: before, after, rfl, hx⟩

theorem above_head {d x : NodeId} (h : x ∈ busy) : Above (d :: busy) d x :=
  ⟨[], busy, rfl, h⟩

theorem Above.tail {d x y : NodeId} (h : Above (y :: busy) d x) (hd : d ≠ y)
    : Above busy d x := by
  obtain ⟨before, after, heq, hx⟩ := h
  cases before with
  | nil =>
    simp only [List.nil_append, List.cons.injEq] at heq
    exact absurd heq.1.symm hd
  | cons b before =>
    simp only [List.cons_append, List.cons.injEq] at heq
    exact ⟨before, after, heq.2, hx⟩

theorem not_above_head {d x : NodeId} (hnodup : (x :: busy).Nodup)
    : ¬ Above (x :: busy) d x := by
  rintro ⟨before, after, heq, hx⟩
  have hmem : x ∈ busy := by
    cases before with
    | nil =>
      simp only [List.nil_append, List.cons.injEq] at heq
      rw [heq.2]
      exact hx
    | cons b before =>
      simp only [List.cons_append, List.cons.injEq] at heq
      rw [heq.2]
      simp [hx]
  exact (List.nodup_cons.mp hnodup).1 hmem

theorem sound_neutral {a : Activation V} (ha : a.Neutral) {orphans : List NodeId}
    {rt : Runtime V} {stack : List (Activation V)}
    : Sound orphans rt (a :: stack) ↔ Sound orphans rt stack := by
  cases a <;> first
    | exact ha.elim
    | exact ⟨fun h => ⟨h.arena, h.edges, h.ownership, h.typed, h.queue, h.tracked, h.frames,
        h.observer, h.owner, h.saved, h.nodup, h.running, h.updating, h.young⟩,
      fun h => ⟨h.arena, h.edges, h.ownership, h.typed, h.queue, h.tracked, h.frames, h.observer,
        h.owner, h.saved, h.nodup, h.running, h.updating, h.young⟩⟩

def Node.status (n : Node V) : Kind × Bool × Bool × Bool × Option (Prog V) :=
  (n.kind, n.running, n.updating, n.queued, n.compute)

theorem Node.status_eq {n m : Node V} (h : n.status = m.status)
    : n.kind = m.kind ∧ n.running = m.running ∧ n.updating = m.updating ∧ n.queued = m.queued ∧
      n.compute = m.compute := by
  simpa only [Node.status, Prod.mk.injEq] using h

theorem map_of_flags {α : Type} {g : Node V → α} {f : Node V → Node V}
    (hnode : ∀ j, rt'.node j = if j = id then (rt.node j).map f else rt.node j)
    (hf : ∀ n, g (f n) = g n) (j : NodeId)
    : (rt'.node j).map g = (rt.node j).map g := by
  rw [hnode]
  split
  . rw [Option.map_map]
    congr 1
    funext n
    exact hf n
  . rfl

theorem flag_iff_of_map_eq {α : Type} {f : Node V → α}
    (h : ∀ id, (rt'.node id).map f = (rt.node id).map f) (id : NodeId) (flag : Node V → Bool)
    (hflag : ∀ {n m : Node V}, f n = f m → flag n = flag m)
    : (∃ n, rt'.node id = some n ∧ flag n = true) ↔ (∃ n, rt.node id = some n ∧ flag n = true) := by
  constructor
  . rintro ⟨n', hn', hval⟩
    obtain ⟨n, hn, heq⟩ := node_of_map_eq h hn'
    exact ⟨n, hn, (hflag heq).trans hval⟩
  . rintro ⟨n, hn, hval⟩
    obtain ⟨n', hn', heq⟩ := node_of_map_eq (fun id => (h id).symm) hn
    exact ⟨n', hn', (hflag heq).trans hval⟩

namespace SameShape

variable {rt rt' : Runtime V}

section

variable (h : SameShape rt rt')

include h

theorem links (id : NodeId)
    : (rt'.node id).map Node.links = (rt.node id).map Node.links := by
  have := congrArg (Option.map Node.links) (h.node id)
  rw [Option.map_map, Option.map_map] at this
  exact this

theorem place (id : NodeId)
    : (rt'.node id).map Node.place = (rt.node id).map Node.place := by
  have := congrArg (Option.map Node.place) (h.node id)
  rw [Option.map_map, Option.map_map] at this
  exact this

theorem edges (he : Edges rt) : Edges rt' :=
  he.congr h.links

theorem parent_eq : Parent rt' = Parent rt :=
  parent_congr h.place (fun h => congrArg (·.2.1) h)

theorem frame_back {f' : ComputationFrame V} (hf : f' ∈ rt'.frames)
    : ∃ f ∈ rt.frames, f.observer = f'.observer ∧ f.owned = f'.owned := by
  have hmem : f'.shape ∈ rt'.frames.map ComputationFrame.shape := List.mem_map_of_mem hf
  rw [h.frames] at hmem
  obtain ⟨f, hf, hshape⟩ := List.mem_map.mp hmem
  simp only [ComputationFrame.shape, Prod.mk.injEq] at hshape
  exact ⟨f, hf, hshape⟩

theorem frame_forth {f : ComputationFrame V} (hf : f ∈ rt.frames)
    : ∃ f' ∈ rt'.frames, f.observer = f'.observer ∧ f.owned = f'.owned := by
  have hmem : f.shape ∈ rt.frames.map ComputationFrame.shape := List.mem_map_of_mem hf
  rw [← h.frames] at hmem
  obtain ⟨f', hf', hshape⟩ := List.mem_map.mp hmem
  simp only [ComputationFrame.shape, Prod.mk.injEq] at hshape
  exact ⟨f', hf', hshape.1.symm, hshape.2.symm⟩

theorem ownership {orphans : List NodeId} (ho : Ownership rt orphans)
    : Ownership rt' orphans := by
  apply ho.congr h.place
  . exact fun f' hf' => .inr (h.frame_back hf')
  . exact fun f hf => .inr (h.frame_forth hf)
  . exact fun _ h => h

theorem busy_iff {id : NodeId} : Busy rt' id ↔ Busy rt id := by
  have := flag_iff_of_map_eq h.node id (fun n => n.updating || n.running)
    (fun hshape => by grind [Node.shape_eq hshape])
  simpa [Busy] using this

end

end SameShape

namespace Queue

variable {rt rt' : Runtime V}

section

variable (h : Queue rt)

include h

theorem of_eq (hnode : ∀ id, rt'.node id = rt.node id) (hpending : rt'.pending = rt.pending)
    : Queue rt' := by
  constructor
  . rw [hpending]
    exact h.nodup
  . intro id hid
    rw [hpending] at hid
    rw [hnode]
    exact h.live id hid
  . intro id n hn hq
    rw [hpending]
    rw [hnode] at hn
    exact h.queued hn hq

theorem modifyNode (id : NodeId) {f : Node V → Node V} (hf : ∀ n, (f n).kind = n.kind ∧ (f n).queued = n.queued)
    : Queue (rt.modifyNode id f) := by
  constructor
  . exact h.nodup
  . intro j hj
    obtain ⟨n, hn, hkind, hq⟩ := h.live j hj
    rw [Runtime.node_modifyNode, hn]
    split
    . exact ⟨f n, rfl, by rw [(hf n).1, hkind], by rw [(hf n).2, hq]⟩
    . exact ⟨n, rfl, hkind, hq⟩
  . intro j n hn hq
    rw [Runtime.node_modifyNode] at hn
    split at hn
    . obtain ⟨m, hm, rfl⟩ := Option.map_eq_some_iff.mp hn
      rw [(hf m).2] at hq
      exact h.queued hm hq
    . exact h.queued hn hq

theorem enqueueEffect (id : NodeId) : Queue (rt.enqueueEffect id) := by
  unfold Runtime.enqueueEffect
  split
  . exact h
  . next node hnode =>
    split
    . next hcond =>
      have hfresh : id ∉ rt.pending := by
        intro hmem
        obtain ⟨n, hn, -, hq⟩ := h.live id hmem
        rw [hnode] at hn
        cases hn
        simp [hcond.2] at hq
      have hlook : ∀ j, Runtime.node { rt.modifyNode id (fun n => { n with queued := true }) with
          pending := rt.pending ++ [id] } j
            = if j = id then (rt.node j).map (fun n => { n with queued := true }) else rt.node j :=
        fun j => Runtime.node_modifyNode rt id j _
      constructor
      . exact List.nodup_append.mpr ⟨h.nodup, by simp, by grind⟩
      . intro j hj
        rw [hlook]
        rw [List.mem_append, List.mem_singleton] at hj
        by_cases hji : j = id
        . subst hji
          rw [hnode]
          exact ⟨{ node with queued := true }, by simp, hcond.1, rfl⟩
        . simp only [hji, ↓reduceIte]
          exact h.live j (by simpa [hji] using hj)
      . intro j n hn hq
        rw [hlook] at hn
        rw [List.mem_append, List.mem_singleton]
        by_cases hji : j = id
        . exact .inr hji
        . simp only [hji, ↓reduceIte] at hn
          exact .inl (h.queued hn hq)
    . exact h

theorem markVisit (visit : Runtime.Visit) : Queue (rt.markVisit visit).1 := by
  have hcolor := h.modifyNode visit.id (f := Runtime.recolor visit.color) (fun _ => ⟨rfl, rfl⟩)
  unfold Runtime.markVisit
  split
  . exact h
  . dsimp only
    split
    . exact hcolor.enqueueEffect visit.id
    . split
      . exact hcolor
      . exact hcolor

theorem markSubscribersWithForce (of : NodeId) (color : Color) (force : Bool)
    : Queue (rt.markSubscribersWithForce of color force) := by
  unfold Runtime.markSubscribersWithForce
  split
  . exact h
  . exact Worklist.run_inv Queue (fun _ visit h => h.markVisit visit) h

theorem publish (id : NodeId) (value : V) : Queue (Config.publish rt id value) := by
  have hvalue := h.modifyNode id (f := fun n => { n with value := some value }) (fun _ => ⟨rfl, rfl⟩)
  exact hvalue.markSubscribersWithForce id .dirty false

end

theorem pending_rearmDiscardedEffect (rt : Runtime V) (effect : NodeId)
    : (rt.rearmDiscardedEffect effect).pending = rt.pending := by
  unfold Runtime.rearmDiscardedEffect
  split
  . rfl
  . apply Worklist.run_inv (fun s : Runtime V => s.pending = rt.pending) _ rfl
    intro s source hpending
    unfold Runtime.rearmVisit
    split
    . exact hpending
    . split
      . exact hpending
      . exact hpending

theorem rearmDiscardedEffect (h : Queue rt) (effect : NodeId)
    : Queue (rt.rearmDiscardedEffect effect) := by
  unfold Runtime.rearmDiscardedEffect
  split
  . exact h
  . apply Worklist.run_inv Queue _ h
    intro rt source h
    unfold Runtime.rearmVisit
    split
    . exact h
    . split
      . exact h.modifyNode source (fun _ => ⟨rfl, rfl⟩)
      . exact h

theorem popPending_nil (hpending : rt.pending = []) : rt.popPending = (none, rt) := by
  unfold Runtime.popPending
  rw [hpending]
  unfold Runtime.popPending.go
  rw [← hpending]

theorem popPending_cons (h : Queue rt) {id : NodeId} {rest : List NodeId} (hpending : rt.pending = id :: rest)
    : rt.popPending
        =
      (some id, { rt.modifyNode id (fun n => { n with queued := false }) with pending := rest }) := by
  obtain ⟨n, hn, -⟩ := h.live id (by simp [hpending])
  unfold Runtime.popPending
  rw [hpending]
  unfold Runtime.popPending.go
  rw [hn]

theorem popPending (h : Queue rt) : Queue rt.popPending.2 := by
  cases hpending : rt.pending with
  | nil =>
    rw [popPending_nil hpending]
    exact h
  | cons id rest =>
    rw [h.popPending_cons hpending]
    have hnodup := h.nodup
    rw [hpending, List.nodup_cons] at hnodup
    have hlook : ∀ j, Runtime.node { rt.modifyNode id (fun n => { n with queued := false }) with
        pending := rest } j
          = if j = id then (rt.node j).map (fun n => { n with queued := false }) else rt.node j :=
      fun j => Runtime.node_modifyNode rt id j _
    constructor
    . exact hnodup.2
    . intro j hj
      have hji : j ≠ id := by
        rintro rfl
        exact hnodup.1 hj
      rw [hlook]
      simp only [hji, ↓reduceIte]
      exact h.live j (by simp [hpending, show j ∈ rest from hj])
    . intro j n hn hq
      rw [hlook] at hn
      by_cases hji : j = id
      . simp only [hji, ↓reduceIte] at hn
        obtain ⟨m, -, rfl⟩ := Option.map_eq_some_iff.mp hn
        simp at hq
      . simp only [hji, ↓reduceIte] at hn
        have := h.queued hn hq
        simpa [hpending, hji] using this

theorem clearPending (h : Queue rt) : Queue rt.clearPending ∧ rt.clearPending.pending = [] := by
  have hall : rt.pending.filter (fun id => (rt.node id).isSome) = rt.pending := by
    rw [List.filter_eq_self]
    intro id hid
    obtain ⟨n, hn, -⟩ := h.live id hid
    simp [hn]
  have hrearm : ∀ (ids : List NodeId) (rt : Runtime V), Queue rt ∧ rt.pending = [] →
      Queue (ids.foldl Runtime.rearmDiscardedEffect rt) ∧
      (ids.foldl Runtime.rearmDiscardedEffect rt).pending = [] := by
    intro ids
    induction ids with
    | nil => exact fun _ h => h
    | cons id ids ih =>
      intro rt h
      refine ih _ ⟨h.1.rearmDiscardedEffect id, ?_⟩
      rw [pending_rearmDiscardedEffect, h.2]
  unfold Runtime.clearPending
  dsimp only
  rw [hall]
  apply hrearm
  refine ⟨⟨?_, ?_, ?_⟩, ?_⟩
  . rw [Runtime.pending_foldl_modifyNode]
    exact List.nodup_nil
  . intro j hj
    rw [Runtime.pending_foldl_modifyNode] at hj
    simp at hj
  . intro j n hn hq
    rw [Runtime.node_foldl_modifyNode _ _ (by intro n; rfl)] at hn
    have hnode : Runtime.node { rt with pending := [] } j = rt.node j := rfl
    rw [hnode] at hn
    split at hn
    . obtain ⟨m, -, rfl⟩ := Option.map_eq_some_iff.mp hn
      simp at hq
    . next hj => exact absurd (h.queued hn hq) hj
  . rw [Runtime.pending_foldl_modifyNode]

theorem without {gone : List NodeId} (h : Queue rt) (hw : Without gone rt rt') : Queue rt' := by
  constructor
  . rw [hw.pending]
    exact h.nodup.filter _
  . intro id hid
    rw [hw.pending, List.mem_filter, decide_eq_true_eq] at hid
    obtain ⟨n, hn, hkind, hq⟩ := h.live id hid.1
    exact ⟨_, hw.forth hn hid.2, hkind, hq⟩
  . intro id n' hn' hq
    obtain ⟨hid, n, hn, rfl⟩ := hw.back hn'
    rw [hw.pending, List.mem_filter, decide_eq_true_eq]
    exact ⟨h.queued hn hq, hid⟩

end Queue

namespace Sound

variable {orphans : List NodeId} {rt rt' : Runtime V} {stack : List (Activation V)}

theorem busy_iff (h : Sound orphans rt stack) {id : NodeId}
    : Busy rt id ↔ id ∈ busyIds stack := by
  rw [mem_busyIds, ← h.running, ← h.updating]
  unfold Busy
  constructor
  . rintro ⟨n, hn, hbusy⟩
    cases hbusy with
    | inl hbusy => exact .inr ⟨n, hn, hbusy⟩
    | inr hbusy => exact .inl ⟨n, hn, hbusy⟩
  . intro hbusy
    cases hbusy with
    | inl hbusy =>
      obtain ⟨n, hn, hbusy⟩ := hbusy
      exact ⟨n, hn, .inr hbusy⟩
    | inr hbusy =>
      obtain ⟨n, hn, hbusy⟩ := hbusy
      exact ⟨n, hn, .inl hbusy⟩

theorem mem_frameIds_of_frame (h : Sound orphans rt stack) {f : ComputationFrame V} (hf : f ∈ rt.frames)
    : f.observer ∈ frameIds stack := by
  rw [← h.frames]
  exact List.mem_map_of_mem hf

theorem frame_running (h : Sound orphans rt stack) {f : ComputationFrame V} (hf : f ∈ rt.frames)
    : ∃ n, rt.node f.observer = some n ∧ n.running = true :=
  (h.running f.observer).mpr (h.mem_frameIds_of_frame hf)

theorem idle (h : Sound [] rt stack) {id : NodeId} (hid : rt.disposableTreeIsBusy id = false)
    {j : NodeId} (hj : Descends rt j id)
    : ¬ Busy rt j :=
  idle_of_not_busy h.ownership (fun _ hf => h.frame_running hf) hid hj

section

variable (h : Sound orphans rt stack)

include h

theorem sameShape (hs : SameShape rt rt') (hqueue : Queue rt')
    {stack' : List (Activation V)} (hframeIds : frameIds stack' = frameIds stack)
    (hupdatingIds : updatingIds stack' = updatingIds stack)
    (hbusyIds : busyIds stack' = busyIds stack) (hsaved : Saved stack')
    (hobserver : rt'.observer = observerOf stack') (howner : rt'.owner = rt.owner)
    : Sound orphans rt' stack' where
  arena := hs.wellFormed h.arena
  edges := hs.edges h.edges
  ownership := hs.ownership h.ownership
  typed := by
    intro id n' hn'
    obtain ⟨n, hn, hshape⟩ := hs.back hn'
    have ht := h.typed hn
    constructor
    . have := ht.running
      grind [Node.shape_eq hshape]
    . have := ht.updating
      grind [Node.shape_eq hshape]
    . have := ht.compute
      grind [Node.shape_eq hshape]
  queue := hqueue
  tracked := hs.tracked h.tracked
  frames := by
    rw [hframeIds, ← h.frames]
    have := congrArg (List.map Prod.fst) hs.frames
    simpa [ComputationFrame.shape, Function.comp_def] using this
  observer := hobserver
  owner := by rw [hframeIds, howner, h.owner]
  saved := hsaved
  nodup := by
    rw [hbusyIds]
    exact h.nodup
  running := by
    intro id
    rw [hframeIds, ← h.running id]
    exact flag_iff_of_map_eq hs.node _ Node.running (fun hshape => by grind [Node.shape_eq hshape])
  updating := by
    intro id
    rw [hupdatingIds, ← h.updating id]
    exact flag_iff_of_map_eq hs.node _ Node.updating (fun hshape => by grind [Node.shape_eq hshape])
  young := by
    intro f' hf' c hc d hd hdesc
    obtain ⟨f, hf, hobserver, howned⟩ := hs.frame_back hf'
    rw [hbusyIds] at hd ⊢
    rw [← hobserver]
    unfold Descends at hdesc
    rw [hs.parent_eq] at hdesc
    exact h.young f hf c (howned ▸ hc) d hd hdesc

theorem keeps (hk : Keeps rt rt') (hqueue : Queue rt')
    : Sound orphans rt' stack := by
  apply h.sameShape hk.toSameShape hqueue rfl rfl rfl h.saved
  . rw [hk.observer, h.observer]
  . exact hk.owner

theorem withBatch (harena : rt'.toArena = rt.toArena)
    (hframes : rt'.frames = rt.frames) (hpending : rt'.pending = rt.pending)
    (hobserver : rt'.observer = rt.observer) (howner : rt'.owner = rt.owner)
    : Sound orphans rt' stack := by
  have hnode : ∀ id, rt'.node id = rt.node id := by
    intro id
    unfold Runtime.node
    rw [harena]
  apply h.sameShape (.of_eq harena hframes) (h.queue.of_eq hnode hpending) rfl rfl rfl h.saved
  . rw [hobserver, h.observer]
  . exact howner

theorem relisted {orphans' : List NodeId} (hwf : rt'.toArena.WellFormed)
    (hstatus : ∀ j, (rt'.node j).map Node.status = (rt.node j).map Node.status) (hedges : Edges rt')
    (hownership : Ownership rt' orphans') (htracked : Tracked rt')
    (hframes : rt'.frames.map (·.observer) = rt.frames.map (·.observer))
    (hpending : rt'.pending = rt.pending) (hobserver : rt'.observer = rt.observer) (howner : rt'.owner = rt.owner)
    (hyoung : ∀ f ∈ rt'.frames, ∀ c ∈ f.owned, ∀ d ∈ busyIds stack, Descends rt' d c →
      Above (busyIds stack) d f.observer)
    : Sound orphans' rt' stack where
  arena := hwf
  edges := hedges
  ownership := hownership
  typed := by
    intro j n' hn'
    obtain ⟨n, hn, hsame⟩ := node_of_map_eq hstatus hn'
    obtain ⟨hkind, hrunning, hupdating, -, hcompute⟩ := Node.status_eq hsame
    have ht := h.typed hn
    constructor
    . rw [← hrunning, ← hkind]
      exact ht.running
    . rw [← hupdating, ← hkind]
      exact ht.updating
    . rw [← hcompute, ← hkind]
      exact ht.compute
  queue := by
    constructor
    . rw [hpending]
      exact h.queue.nodup
    . intro j hj
      rw [hpending] at hj
      obtain ⟨n, hn, hkind, hqueued⟩ := h.queue.live j hj
      obtain ⟨n', hn', hsame⟩ := node_of_map_eq (fun j => (hstatus j).symm) hn
      obtain ⟨hkind', -, -, hqueued', -⟩ := Node.status_eq hsame
      exact ⟨n', hn', hkind'.trans hkind, hqueued'.trans hqueued⟩
    . intro j n' hn' hqueued
      rw [hpending]
      obtain ⟨n, hn, hsame⟩ := node_of_map_eq hstatus hn'
      exact h.queue.queued hn ((Node.status_eq hsame).2.2.2.1.trans hqueued)
  tracked := htracked
  frames := hframes.trans h.frames
  observer := hobserver.trans h.observer
  owner := howner.trans h.owner
  saved := h.saved
  nodup := h.nodup
  running := fun j =>
    (flag_iff_of_map_eq hstatus j Node.running fun h => (Node.status_eq h).2.1).trans (h.running j)
  updating := fun j =>
    (flag_iff_of_map_eq hstatus j Node.updating fun h => (Node.status_eq h).2.2.1).trans (h.updating j)
  young := hyoung

theorem collects {roots gone : List NodeId} (hc : Collects rt roots gone rt') (horphans : orphans ⊆ roots)
    (hidle : ∀ r ∈ roots, ∀ j, Descends rt j r → ¬ Busy rt j)
    : Sound [] rt' stack := by
  have hgone : ∀ j ∈ gone, ¬ Busy rt j := by
    intro j hj
    obtain ⟨-, r, hr, hdesc⟩ := hc.below j hj
    exact hidle r hr j hdesc
  have hframes : ∀ f ∈ rt.frames, f.observer ∉ gone := by
    intro f hf hmem
    obtain ⟨n, hn, hrun⟩ := h.frame_running hf
    exact hgone _ hmem ⟨n, hn, .inr hrun⟩
  constructor
  . exact hc.without.wellFormed
  . exact hc.without.edges h.edges
  . exact hc.ownership h.ownership horphans hframes
  . intro id n' hn'
    obtain ⟨-, n, hn, rfl⟩ := hc.without.back hn'
    have ht := h.typed hn
    exact ⟨ht.running, ht.updating, ht.compute⟩
  . exact h.queue.without hc.without
  . intro f' hf'
    rw [hc.without.frames] at hf'
    obtain ⟨f, hf, rfl⟩ := List.mem_map.mp hf'
    exact h.tracked f hf
  . rw [hc.without.frames, List.map_map]
    exact h.frames
  . rw [hc.without.observer, h.observer]
  . rw [hc.without.owner, h.owner]
  . exact h.saved
  . exact h.nodup
  . intro id
    rw [← h.running id]
    constructor
    . rintro ⟨n', hn', hrun⟩
      obtain ⟨-, n, hn, rfl⟩ := hc.without.back hn'
      exact ⟨n, hn, hrun⟩
    . rintro ⟨n, hn, hrun⟩
      exact ⟨_, hc.without.forth hn (fun hid => hgone id hid ⟨n, hn, .inr hrun⟩), hrun⟩
  . intro id
    rw [← h.updating id]
    constructor
    . rintro ⟨n', hn', hrun⟩
      obtain ⟨-, n, hn, rfl⟩ := hc.without.back hn'
      exact ⟨n, hn, hrun⟩
    . rintro ⟨n, hn, hrun⟩
      exact ⟨_, hc.without.forth hn (fun hid => hgone id hid ⟨n, hn, .inl hrun⟩), hrun⟩
  . intro f' hf' c hcf d hd hdesc
    rw [hc.without.frames] at hf'
    obtain ⟨f, hf, rfl⟩ := List.mem_map.mp hf'
    simp only [ComputationFrame.without, List.mem_filter] at hcf
    exact h.young f hf c hcf.1 d hd (hc.without.descends hdesc)

end

end Sound

structure Node.Fresh (n : Node V) : Prop where
  sources : n.sources = []
  subscribers : n.subscribers = []
  owned : n.owned = []
  running : n.running = false
  updating : n.updating = false
  queued : n.queued = false
  compute : n.compute ≠ none → n.kind = .memo ∨ n.kind = .effect

theorem Node.Fresh.owner {n : Node V} (h : n.Fresh) (owner : Option NodeId) : { n with owner := owner }.Fresh :=
  ⟨h.sources, h.subscribers, h.owned, h.running, h.updating, h.queued, h.compute⟩

structure Allocates (rt : Runtime V) (id : NodeId) (node : Node V) (rt' : Runtime V) : Prop where
  wellFormed : rt'.toArena.WellFormed
  spent : ∀ j, rt.Spent j → rt'.Spent j ∧ j ≠ id
  dead : rt.node id = none
  node : ∀ j, rt'.node j = if j = id then some node else rt.node j
  rest : rt'.rest = rt.rest

theorem allocates_of_allocateNode (hwf : rt.toArena.WellFormed) (h : rt.allocateNode node = some (id, rt'))
    : Allocates rt id node rt' := by
  unfold Runtime.allocateNode at h
  split at h
  . cases h
  . next id' arena hinsert =>
    cases h
    obtain ⟨hdead, hnode, hwf'⟩ := Arena.insert_spec hwf hinsert
    exact ⟨hwf', fun j hj => hj.insert hinsert, hdead, hnode, rfl⟩

theorem Allocates.back (ha : Allocates rt id node rt') {j : NodeId} {n : Node V} (hn : rt'.node j = some n)
    : (j = id ∧ n = node) ∨ (j ≠ id ∧ rt.node j = some n) := by
  rw [ha.node] at hn
  split at hn
  . next hj => exact .inl ⟨hj, (Option.some.inj hn).symm⟩
  . next hj => exact .inr ⟨hj, hn⟩

theorem Allocates.forth (ha : Allocates rt id node rt') {j : NodeId} {n : Node V} (hn : rt.node j = some n)
    : j ≠ id ∧ rt'.node j = some n := by
  have hj : j ≠ id := by
    rintro rfl
    rw [ha.dead] at hn
    cases hn
  rw [ha.node, if_neg hj]
  exact ⟨hj, hn⟩

theorem Allocates.self (ha : Allocates rt id node rt')
    : rt'.node id = some node := by
  rw [ha.node, if_pos rfl]

structure Loose (rt : Runtime V) (id : NodeId) : Prop where
  unowned : ∀ {j n}, rt.node j = some n → id ∉ n.owned
  unframed : ∀ f ∈ rt.frames, id ∉ f.owned

namespace Allocates

variable {rt rt' : Runtime V} {id : NodeId} {node : Node V}

section

variable (ha : Allocates rt id node rt')

include ha

theorem frames : rt'.frames = rt.frames := by
  have := congrArg Runtime.frames ha.rest
  exact this

theorem edges (hfresh : node.Fresh) (he : Edges rt) : Edges rt' := by
  constructor
  . intro j n hn
    cases ha.back hn with
    | inl hn =>
      rw [hn.2, hfresh.sources]
      exact List.nodup_nil
    | inr hn => exact he.sources_nodup hn.2
  . intro j n hn
    cases ha.back hn with
    | inl hn =>
      rw [hn.2, hfresh.subscribers]
      exact List.nodup_nil
    | inr hn => exact he.subscribers_nodup hn.2
  . intro j n s hn hs
    cases ha.back hn with
    | inl hn => simp [hn.2, hfresh.sources] at hs
    | inr hn =>
      obtain ⟨m, hm, hmem⟩ := he.source hn.2 hs
      exact ⟨m, (ha.forth hm).2, hmem⟩
  . intro j n s hn hs
    cases ha.back hn with
    | inl hn => simp [hn.2, hfresh.subscribers] at hs
    | inr hn =>
      obtain ⟨m, hm, hmem⟩ := he.subscriber hn.2 hs
      exact ⟨m, (ha.forth hm).2, hmem⟩
  . intro j n hn
    cases ha.back hn with
    | inl hn => simp [hn.2, hfresh.sources]
    | inr hn => exact he.irrefl hn.2

theorem queue (hfresh : node.Fresh) (hq : Queue rt) : Queue rt' := by
  have hpending : rt'.pending = rt.pending := by
    have := congrArg Runtime.pending ha.rest
    exact this
  constructor
  . rw [hpending]
    exact hq.nodup
  . intro j hj
    rw [hpending] at hj
    obtain ⟨n, hn, hkind, hqueued⟩ := hq.live j hj
    exact ⟨n, (ha.forth hn).2, hkind, hqueued⟩
  . intro j n hn hqueued
    rw [hpending]
    cases ha.back hn with
    | inl hn => simp [hn.2, hfresh.queued] at hqueued
    | inr hn => exact hq.queued hn.2 hqueued

theorem parent {j p : NodeId} (hp : Parent rt' j p)
    : (j = id ∧ node.owner = some p) ∨ (j ≠ id ∧ Parent rt j p) := by
  obtain ⟨n, hn, howner⟩ := hp
  cases ha.back hn with
  | inl hn => exact .inl ⟨hn.1, hn.2 ▸ howner⟩
  | inr hn => exact .inr ⟨hn.1, n, hn.2, howner⟩

end

def Placed (rt : Runtime V) (node : Node V) : Prop :=
  ∀ p, node.owner = some p → ∃ n, rt.node p = some n ∧ (node.kind = .owner → n.kind = .owner)

section

variable (ha : Allocates rt id node rt')

include ha

theorem leaf (hplaced : Placed rt node) (ho : Ownership rt []) (j : NodeId)
    : ¬ Parent rt' j id := by
  intro hp
  obtain ⟨n, hn⟩ : ∃ n, rt.node id = some n := by
    cases ha.parent hp with
    | inl hp =>
      obtain ⟨n, hn, -⟩ := hplaced id hp.2
      exact ⟨n, hn⟩
    | inr hp => exact ho.owner_live hp.2
  rw [ha.dead] at hn
  cases hn

theorem loose (hfresh : node.Fresh) (ho : Ownership rt []) : Loose rt' id where
  unowned := by
    intro j n hn hmem
    cases ha.back hn with
    | inl hn => simp [hn.2, hfresh.owned] at hmem
    | inr hn =>
      obtain ⟨m, hm, -⟩ := ho.owned hn.2 hmem
      rw [ha.dead] at hm
      cases hm
  unframed := by
    intro f hf hmem
    rw [ha.frames] at hf
    obtain ⟨m, hm, -⟩ := ho.frame hf hmem
    rw [ha.dead] at hm
    cases hm

theorem idle (hfresh : node.Fresh) : ¬ Busy rt' id := by
  rintro ⟨n, hn, hbusy⟩
  rw [ha.self] at hn
  cases hn
  simp [hfresh.running, hfresh.updating] at hbusy

theorem ancestor (hplaced : Placed rt node) (ho : Ownership rt []) {j p : NodeId}
    (hj : j ≠ id) (hp : Parent rt' j p)
    : Parent rt j p ∧ p ≠ id := by
  constructor
  . exact ((ha.parent hp).resolve_left fun h => hj h.1).2
  . rintro rfl
    exact ha.leaf hplaced ho j hp

theorem descends (hplaced : Placed rt node) (ho : Ownership rt []) {j p : NodeId}
    (hj : j ≠ id) (h : Descends rt' j p)
    : Descends rt j p := by
  induction h using Relation.ReflTransGen.head_induction_on with
  | refl => exact .refl
  | head hp _ ih =>
    obtain ⟨hp, hne⟩ := ha.ancestor hplaced ho hj hp
    exact .head hp (ih hne)

theorem ownership (hfresh : node.Fresh) (hplaced : Placed rt node) (ho : Ownership rt [])
    : Ownership rt' [id] := by
  constructor
  . intro j n hn
    cases ha.back hn with
    | inl hn =>
      rw [hn.2, hfresh.owned]
      exact List.nodup_nil
    | inr hn => exact ho.owned_nodup hn.2
  . intro j n c hn hc
    cases ha.back hn with
    | inl hn => simp [hn.2, hfresh.owned] at hc
    | inr hn =>
      obtain ⟨m, hm, howner⟩ := ho.owned hn.2 hc
      exact ⟨m, (ha.forth hm).2, howner⟩
  . intro f hf
    rw [ha.frames] at hf
    exact ho.frame_nodup hf
  . intro f c hf hc
    rw [ha.frames] at hf
    obtain ⟨m, hm, hrest⟩ := ho.frame hf hc
    exact ⟨m, (ha.forth hm).2, hrest⟩
  . intro j p hp
    obtain ⟨n, hn⟩ : ∃ n, rt.node p = some n := by
      cases ha.parent hp with
      | inl hp =>
        obtain ⟨n, hn, -⟩ := hplaced p hp.2
        exact ⟨n, hn⟩
      | inr hp => exact ho.owner_live hp.2
    exact ⟨n, (ha.forth hn).2⟩
  . intro j p hp hj
    obtain ⟨hp, -⟩ := ha.ancestor hplaced ho (fun h => hj (List.mem_singleton.mpr h)) hp
    cases ho.owner hp List.not_mem_nil with
    | inl hmem =>
      obtain ⟨n, hn, hmem⟩ := hmem
      exact .inl ⟨n, (ha.forth hn).2, hmem⟩
    | inr hmem =>
      rw [ha.frames]
      exact .inr hmem
  . intro p n f c hn hf hobserver hc
    rw [ha.frames] at hf
    cases ha.back hn with
    | inl hn => simp [hn.2, hfresh.owned] at hc
    | inr hn => exact ho.disjoint hn.2 hf hobserver hc
  . intro j n p hn hkind howner
    obtain ⟨m, hm, hmkind⟩ : ∃ m, rt.node p = some m ∧ m.kind = .owner := by
      cases ha.back hn with
      | inl hn =>
        obtain ⟨-, rfl⟩ := hn
        obtain ⟨m, hm, hmkind⟩ := hplaced p howner
        exact ⟨m, hm, hmkind hkind⟩
      | inr hn => exact ho.owner_kind hn.2 hkind howner
    exact ⟨m, (ha.forth hm).2, hmkind⟩
  . intro j hcycle
    have hold : ∀ {a b}, a ≠ id → Relation.TransGen (Parent rt') a b → Relation.TransGen (Parent rt) a b := by
      intro a b hne hab
      induction hab using Relation.TransGen.head_induction_on with
      | single hp => exact .single (ha.ancestor hplaced ho hne hp).1
      | head hp _ ih =>
        obtain ⟨hp, hne⟩ := ha.ancestor hplaced ho hne hp
        exact .head hp (ih hne)
    have hj : j ≠ id := by
      rintro rfl
      obtain ⟨p, -, hp⟩ := Relation.TransGen.tail'_iff.mp hcycle
      exact ha.leaf hplaced ho p hp
    exact ho.acyclic j (hold hj hcycle)

theorem flag_iff (flag : Node V → Bool) (hflag : flag node = false) (j : NodeId)
    : (∃ n, rt'.node j = some n ∧ flag n = true) ↔ (∃ n, rt.node j = some n ∧ flag n = true) := by
  constructor
  . rintro ⟨n, hn, hval⟩
    cases ha.back hn with
    | inl hn =>
      rw [hn.2, hflag] at hval
      cases hval
    | inr hn => exact ⟨n, hn.2, hval⟩
  . rintro ⟨n, hn, hval⟩
    exact ⟨n, (ha.forth hn).2, hval⟩

theorem sound (hfresh : node.Fresh) (hplaced : Placed rt node)
    {stack : List (Activation V)} (h : Sound [] rt stack)
    : Sound [id] rt' stack where
  arena := ha.wellFormed
  edges := ha.edges hfresh h.edges
  ownership := ha.ownership hfresh hplaced h.ownership
  typed := by
    intro j n hn
    cases ha.back hn with
    | inl hn =>
      rw [hn.2]
      exact ⟨by simp [hfresh.running], by simp [hfresh.updating], hfresh.compute⟩
    | inr hn => exact h.typed hn.2
  queue := ha.queue hfresh h.queue
  tracked := by
    unfold Tracked
    rw [ha.frames]
    exact h.tracked
  frames := by rw [ha.frames, h.frames]
  observer := by
    have := congrArg Runtime.observer ha.rest
    exact Eq.trans this h.observer
  owner := by
    have := congrArg Runtime.owner ha.rest
    exact Eq.trans this h.owner
  saved := h.saved
  nodup := h.nodup
  running := fun j => (ha.flag_iff Node.running hfresh.running j).trans (h.running j)
  updating := fun j => (ha.flag_iff Node.updating hfresh.updating j).trans (h.updating j)
  young := by
    intro f hf c hc d hd hdesc
    rw [ha.frames] at hf
    have hne : d ≠ id := by
      obtain ⟨n, hn, -⟩ := h.busy_iff.mpr hd
      exact (ha.forth hn).1
    exact h.young f hf c hc d hd (ha.descends hplaced h.ownership hne hdesc)

end

end Allocates

theorem Ownership.without_orphan {rt : Runtime V} (h : Ownership rt [id]) (hid : ∀ p, Parent rt id p →
      (∃ n, rt.node p = some n ∧ id ∈ n.owned) ∨ (∃ f ∈ rt.frames, f.observer = p ∧ id ∈ f.owned))
    : Ownership rt [] where
  owned_nodup := h.owned_nodup
  owned := h.owned
  frame_nodup := h.frame_nodup
  frame := h.frame
  owner_live := h.owner_live
  owner := by
    intro j p hp _
    by_cases hj : j = id
    . subst hj
      exact hid p hp
    . exact h.owner hp (fun h => hj (List.mem_singleton.mp h))
  disjoint := h.disjoint
  owner_kind := h.owner_kind
  acyclic := h.acyclic

theorem Ownership.framed {rt : Runtime V} {frame : ComputationFrame V}
    {frames : List (ComputationFrame V)} (h : Ownership rt [id]) (hloose : Loose rt id)
    (hid : ∃ n, rt.node id = some n ∧ n.owner = some frame.observer ∧ n.kind ≠ .owner)
    (hframes : rt.frames = frame :: frames)
    : Ownership { rt with frames := { frame with owned := frame.owned ++ [id] } :: frames } [] := by
  have hback : ∀ f' ∈ { frame with owned := frame.owned ++ [id] } :: frames, ∃ f ∈ rt.frames,
      f.observer = f'.observer ∧ f'.owned.Nodup ∧
        ∀ c ∈ f'.owned, c ∈ f.owned ∨ (c = id ∧ f'.observer = frame.observer) := by
    rw [hframes]
    intro f' hf'
    cases List.mem_cons.mp hf' with
    | inl hhead =>
      have hmem : frame ∈ rt.frames := by
        rw [hframes]
        exact List.mem_cons_self
      refine ⟨frame, List.mem_cons_self, by rw [hhead], ?_, ?_⟩
      . rw [hhead]
        have := hloose.unframed frame hmem
        exact List.nodup_append.mpr ⟨h.frame_nodup hmem, List.nodup_singleton id, by grind⟩
      . rw [hhead]
        intro c hc
        exact (List.mem_append.mp hc).imp_right fun hc => ⟨List.mem_singleton.mp hc, rfl⟩
    | inr htail =>
      have hmem : f' ∈ rt.frames := by
        rw [hframes]
        exact List.mem_cons_of_mem _ htail
      exact ⟨f', List.mem_cons_of_mem _ htail, rfl, h.frame_nodup hmem, fun c hc => .inl hc⟩
  have hrest : Ownership { rt with frames := { frame with owned := frame.owned ++ [id] } :: frames } [id] := by
    constructor
    . exact h.owned_nodup
    . exact h.owned
    . intro f' hf'
      obtain ⟨f, -, -, hnodup, -⟩ := hback f' hf'
      exact hnodup
    . intro f' c hf' hc
      obtain ⟨f, hf, hobserver, -, hcase⟩ := hback f' hf'
      cases hcase c hc with
      | inl hc =>
        rw [← hobserver]
        exact h.frame hf hc
      | inr hc =>
        rw [hc.1, hc.2]
        exact hid
    . exact h.owner_live
    . intro j p hp hj
      apply (h.owner hp hj).imp_right
      rintro ⟨f, hf, hobserver, hmem⟩
      rw [hframes] at hf
      cases List.mem_cons.mp hf with
      | inl hhead =>
        refine ⟨_, List.mem_cons_self, ?_, ?_⟩
        . rw [← hobserver, hhead]
        . rw [hhead] at hmem
          exact List.mem_append_left _ hmem
      | inr htail => exact ⟨f, List.mem_cons_of_mem _ htail, hobserver, hmem⟩
    . intro p n f' c hn hf' hobserver hc hmem
      obtain ⟨f, hf, hobserver', -, hcase⟩ := hback f' hf'
      cases hcase c hmem with
      | inl hmem => exact h.disjoint hn hf (hobserver'.trans hobserver) hc hmem
      | inr hmem => exact hloose.unowned hn (hmem.1 ▸ hc)
    . exact h.owner_kind
    . exact h.acyclic
  apply hrest.without_orphan
  rintro p ⟨n, hn, howner⟩
  obtain ⟨n', hn', howner', -⟩ := hid
  have hn : rt.node id = some n := hn
  rw [hn] at hn'
  cases hn'
  rw [howner] at howner'
  cases howner'
  exact .inr ⟨_, List.mem_cons_self, rfl, List.mem_append_right _ (List.mem_singleton_self id)⟩

def Runtime.own (rt : Runtime V) (owner id : NodeId) : Runtime V :=
  rt.modifyNode owner (fun n => { n with owned := n.owned ++ [id] })

theorem Ownership.own {rt : Runtime V} {owner id : NodeId} (h : Ownership rt [id]) (hloose : Loose rt id)
    (hid : Parent rt id owner)
    : Ownership (rt.own owner id) [] := by
  have hnode : ∀ j, (rt.own owner id).node j
      = (rt.node j).map fun n => { n with owned := if j = owner then n.owned ++ [id] else n.owned } := by
    intro j
    unfold Runtime.own
    rw [Runtime.node_modifyNode]
    split
    . rfl
    . exact Option.map_id'.symm
  have hback : ∀ {j n'}, (rt.own owner id).node j = some n' → ∃ n, rt.node j = some n ∧
      n.kind = n'.kind ∧ n.owner = n'.owner ∧ n'.owned = if j = owner then n.owned ++ [id] else n.owned := by
    intro j n' hn'
    rw [hnode] at hn'
    obtain ⟨n, hn, rfl⟩ := Option.map_eq_some_iff.mp hn'
    exact ⟨n, hn, rfl, rfl, rfl⟩
  have hforth : ∀ {j n}, rt.node j = some n → ∃ n', (rt.own owner id).node j = some n' ∧
      n'.kind = n.kind ∧ n'.owner = n.owner ∧ n'.owned = if j = owner then n.owned ++ [id] else n.owned := by
    intro j n hn
    rw [hnode, hn]
    exact ⟨_, rfl, rfl, rfl, rfl⟩
  have hparent : Parent (rt.own owner id) = Parent rt := by
    apply parent_congr (f := Node.owner) _ (fun h => h)
    intro j
    rw [hnode, Option.map_map]
    rfl
  constructor
  . intro j n' hn'
    obtain ⟨n, hn, -, -, howned⟩ := hback hn'
    rw [howned]
    split
    . have := hloose.unowned hn
      exact List.nodup_append.mpr ⟨h.owned_nodup hn, List.nodup_singleton id, by grind⟩
    . exact h.owned_nodup hn
  . intro j n' c hn' hc
    obtain ⟨n, hn, -, -, howned⟩ := hback hn'
    have hlive : Parent rt c j := by
      rw [howned] at hc
      split at hc
      . next hj =>
        cases List.mem_append.mp hc with
        | inl hc => exact h.owned hn hc
        | inr hc =>
          rw [List.mem_singleton.mp hc, hj]
          exact hid
      . exact h.owned hn hc
    rw [← hparent] at hlive
    exact hlive
  . exact h.frame_nodup
  . intro f c hf hc
    obtain ⟨m, hm, howner, hkind⟩ := h.frame hf hc
    obtain ⟨m', hm', hkind', howner', -⟩ := hforth hm
    exact ⟨m', hm', howner'.trans howner, hkind' ▸ hkind⟩
  . intro j p hp
    rw [hparent] at hp
    obtain ⟨n, hn⟩ := h.owner_live hp
    obtain ⟨n', hn', -⟩ := hforth hn
    exact ⟨n', hn'⟩
  . intro j p hp _
    rw [hparent] at hp
    by_cases hj : j = id
    . have hsame : p = owner := by
        obtain ⟨n, hn, howner⟩ := hp
        obtain ⟨m, hm, howner'⟩ := hid
        rw [hj, hm] at hn
        cases hn
        rw [howner] at howner'
        cases howner'
        rfl
      obtain ⟨o, ho⟩ := h.owner_live hid
      obtain ⟨o', ho', -, -, howned⟩ := hforth ho
      refine .inl ⟨o', hsame ▸ ho', ?_⟩
      rw [howned, if_pos rfl, hj]
      exact List.mem_append_right _ (List.mem_singleton_self id)
    . apply (h.owner hp (fun h => hj (List.mem_singleton.mp h))).imp_left
      rintro ⟨n, hn, hmem⟩
      obtain ⟨n', hn', -, -, howned⟩ := hforth hn
      refine ⟨n', hn', ?_⟩
      rw [howned]
      split
      . exact List.mem_append_left _ hmem
      . exact hmem
  . intro p n' f c hn' hf hobserver hc hmem
    obtain ⟨n, hn, -, -, howned⟩ := hback hn'
    rw [howned] at hc
    split at hc
    . cases List.mem_append.mp hc with
      | inl hc => exact h.disjoint hn hf hobserver hc hmem
      | inr hc => exact hloose.unframed f hf (List.mem_singleton.mp hc ▸ hmem)
    . exact h.disjoint hn hf hobserver hc hmem
  . intro j n' p hn' hkind howner
    obtain ⟨n, hn, hkind', howner', -⟩ := hback hn'
    obtain ⟨m, hm, hmkind⟩ := h.owner_kind hn (hkind'.trans hkind) (howner'.trans howner)
    obtain ⟨m', hm', hmkind', -⟩ := hforth hm
    exact ⟨m', hm', hmkind'.trans hmkind⟩
  . rw [hparent]
    exact h.acyclic

namespace Sound

variable {rt rt' : Runtime V} {stack : List (Activation V)}

theorem framed {id : NodeId} {frame : ComputationFrame V} {frames : List (ComputationFrame V)}
    (h : Sound [id] rt stack) (hloose : Loose rt id) (hleaf : ∀ j, ¬ Parent rt j id) (hidle : ¬ Busy rt id)
    (hid : ∃ n, rt.node id = some n ∧ n.owner = some frame.observer ∧ n.kind ≠ .owner)
    (hframes : rt.frames = frame :: frames)
    : Sound [] { rt with frames := { frame with owned := frame.owned ++ [id] } :: frames } stack := by
  have hmem : frame ∈ rt.frames := by
    rw [hframes]
    exact List.mem_cons_self
  have htail : ∀ f ∈ frames, f ∈ rt.frames := by
    rw [hframes]
    exact fun f hf => List.mem_cons_of_mem _ hf
  have hownership := h.ownership.framed hloose hid hframes
  refine h.relisted h.arena (fun _ => rfl) (h.edges.congr (fun _ => rfl)) hownership ?_ ?_ ?_ ?_ ?_ ?_
  . intro f hf
    cases List.mem_cons.mp hf with
    | inl hf =>
      rw [hf]
      exact h.tracked frame hmem
    | inr hf => exact h.tracked f (htail f hf)
  . rw [hframes]
    rfl
  . rfl
  . rfl
  . rfl
  . intro f hf c hc d hd hdesc
    cases List.mem_cons.mp hf with
    | inl hf =>
      subst hf
      cases List.mem_append.mp hc with
      | inl hc => exact h.young frame hmem c hc d hd hdesc
      | inr hc =>
        rw [List.mem_singleton.mp hc] at hdesc
        obtain heq | ⟨p, -, hp⟩ := Relation.ReflTransGen.cases_tail hdesc
        . exact absurd (h.busy_iff.mpr hd) (heq ▸ hidle)
        . exact absurd hp (hleaf p)
    | inr hf => exact h.young f (htail f hf) c hc d hd hdesc

theorem own {owner id : NodeId} (h : Sound [id] rt stack) (hloose : Loose rt id) (hid : Parent rt id owner)
    : Sound [] (rt.own owner id) stack := by
  have hnode := fun j => Runtime.node_modifyNode rt owner j (fun n => { n with owned := n.owned ++ [id] })
  apply h.relisted (h.arena.modify _ _) (map_of_flags (g := Node.status) hnode fun _ => rfl)
    (h.edges.congr (map_of_flags (g := Node.links) hnode fun _ => rfl)) (h.ownership.own hloose hid) h.tracked rfl rfl rfl rfl
  intro f hf c hc d hd hdesc
  unfold Descends at hdesc
  rw [parent_congr (map_of_flags (g := Node.owner) hnode fun _ => rfl) (fun h => h)] at hdesc
  exact h.young f hf c hc d hd hdesc

variable {node : Node V}

theorem addRoot (h : Sound [] rt stack) {id : NodeId} (ha : Allocates rt id node rt')
    (hfresh : node.Fresh) (howner : node.owner = none)
    : Sound [] rt' stack := by
  have hplaced : Allocates.Placed rt node := by
    intro p hp
    rw [howner] at hp
    cases hp
  have hsound := ha.sound hfresh hplaced h
  apply hsound.relisted hsound.arena (fun _ => rfl) hsound.edges _ hsound.tracked rfl rfl rfl rfl hsound.young
  apply hsound.ownership.without_orphan
  rintro p ⟨n, hn, hp⟩
  rw [ha.self] at hn
  cases hn
  rw [howner] at hp
  cases hp

theorem addRootNode (h : Sound [] rt stack) (hfresh : node.Fresh)
    : Sound [] (rt.addRootNode node).2 stack := by
  unfold Runtime.addRootNode
  split
  . exact h
  . next id rt' halloc =>
    exact h.addRoot (allocates_of_allocateNode h.arena halloc) (hfresh.owner none) rfl

theorem owner_live {orphans : List NodeId} (h : Sound orphans rt stack) {owner : NodeId}
    (howner : rt.owner = some owner)
    : ∃ frame frames, rt.frames = frame :: frames ∧ frame.observer = owner ∧
      ∃ n, rt.node owner = some n ∧ n.running = true := by
  have hframes := h.frames
  rw [h.owner] at howner
  rw [← hframes] at howner
  cases hrt : rt.frames with
  | nil => simp [hrt] at howner
  | cons frame frames =>
    simp only [hrt, List.map_cons, List.head?_cons, Option.some.injEq] at howner
    refine ⟨frame, frames, rfl, howner, ?_⟩
    rw [← howner]
    exact h.frame_running (by simp [hrt])

theorem addNode (h : Sound [] rt stack) (hfresh : node.Fresh) (hkind : node.kind ≠ .owner)
    : Sound [] (rt.addNode node).2 stack := by
  unfold Runtime.addNode
  dsimp only
  split
  . exact h
  . next id rt' halloc =>
    have ha := allocates_of_allocateNode h.arena halloc
    have hfresh' := hfresh.owner (rt.owner.filter (fun owner => (rt.node owner).isSome))
    cases howner : rt.owner.filter (fun owner => (rt.node owner).isSome) with
    | none => exact h.addRoot ha hfresh' howner
    | some owner =>
      obtain ⟨frame, frames, hrt, hobserver, n, hn, -⟩ := h.owner_live (Option.filter_eq_some_iff.mp howner).1
      have hframes := ha.frames.trans hrt
      dsimp only
      rw [hframes]
      dsimp only
      rw [if_pos hobserver]
      have hplaced : Allocates.Placed rt
          { node with owner := rt.owner.filter (fun owner => (rt.node owner).isSome) } := by
        intro p hp
        rw [howner] at hp
        cases hp
        exact ⟨n, hn, fun hk => absurd hk hkind⟩
      exact (ha.sound hfresh' hplaced h).framed (ha.loose hfresh' h.ownership)
        (ha.leaf hplaced h.ownership) (ha.idle hfresh') ⟨_, ha.self, hobserver ▸ howner, hkind⟩ hframes

theorem addOwnedNode (h : Sound [] rt stack) (hfresh : node.Fresh) (owner : NodeId)
    : Sound [] (rt.addOwnedNode node owner).2 stack := by
  unfold Runtime.addOwnedNode
  split
  . exact h
  . next ownerNode hownerNode =>
    split
    . next hcond =>
      split
      . exact h
      . next id rt' halloc =>
        have ha := allocates_of_allocateNode h.arena halloc
        have hplaced : Allocates.Placed rt { node with owner := some owner } := by
          intro p hp
          cases hp
          exact ⟨ownerNode, hownerNode, fun _ => hcond.1⟩
        have hfresh' := hfresh.owner (some owner)
        exact (ha.sound hfresh' hplaced h).own (ha.loose hfresh' h.ownership) ⟨_, ha.self, rfl⟩
    . exact h

end Sound

end Reactive

end Pliego
