import Pliego.Reactive.Sound

/-!
The operations that change what is busy: entering, publishing and rolling back a computation, entering
and ending an update, and the guards around them.
-/

namespace Pliego

namespace Reactive

variable {V : Type}

namespace Sound

variable {orphans : List NodeId} {rt rt' : Runtime V} {stack : List (Activation V)}

variable {id : NodeId} {n : Node V}

theorem not_mem_busyIds (h : Sound orphans rt stack)
    (hn : rt.node id = some n) (hrunning : n.running = false) (hupdating : n.updating = false)
    : id ∉ busyIds stack := by
  rw [← h.busy_iff]
  rintro ⟨m, hm, hbusy⟩
  rw [hn] at hm
  cases hm
  simp [hrunning, hupdating] at hbusy

theorem typed_of_flags (h : Sound orphans rt stack) {f : Node V → Node V} (hn : rt.node id = some n)
    (hnode : ∀ j, rt'.node j = if j = id then (rt.node j).map f else rt.node j) (hf : (f n).Typed)
    : ∀ {j m}, rt'.node j = some m → m.Typed := by
  intro j m hm
  rw [hnode] at hm
  split at hm
  . next hj =>
    subst hj
    rw [hn] at hm
    cases hm
    exact hf
  . exact h.typed hm

theorem queue_of_flags (h : Sound orphans rt stack) {f : Node V → Node V}
    (hnode : ∀ j, rt'.node j = if j = id then (rt.node j).map f else rt.node j)
    (hpending : rt'.pending = rt.pending) (hf : ∀ n, (f n).kind = n.kind ∧ (f n).queued = n.queued)
    : Queue rt' := by
  apply (h.queue.modifyNode id hf).of_eq
  . intro j
    rw [hnode, Runtime.node_modifyNode]
  . exact hpending

theorem flag_set_iff (flag : Node V → Bool) {f : Node V → Node V} (hn : rt.node id = some n)
    (hnode : ∀ j, rt'.node j = if j = id then (rt.node j).map f else rt.node j) {j : NodeId}
    : (∃ m, rt'.node j = some m ∧ flag m = true)
        ↔
      if j = id then flag (f n) = true else ∃ m, rt.node j = some m ∧ flag m = true := by
  rw [hnode]
  by_cases hj : j = id
  . subst hj
    simp [hn]
  . simp [hj]

theorem enter (h : Sound [] rt stack) (hn : rt.node id = some n)
    (hcompute : n.compute ≠ none) (hrunning : n.running = false) (kind : Kind)
    (prevValue : Option V) (eq : Option (EqFn V (Prog V))) (hwf : rt'.toArena.WellFormed)
    (hnode : ∀ j, rt'.node j =
      if j = id then (rt.node j).map (fun n => { n with running := true }) else rt.node j)
    (hframes : rt'.frames = { observer := id } :: rt.frames)
    (hobserver : rt'.observer = some id) (howner : rt'.owner = some id)
    (hpending : rt'.pending = rt.pending)
    : Sound [] rt' (.computing id rt.observer rt.owner kind prevValue eq :: stack) := by
  have htyped := h.typed hn
  have hkind := htyped.compute hcompute
  have hupdating : n.updating = false := by
    cases hu : n.updating with
    | false => rfl
    | true =>
      have := htyped.updating hu
      grind
  have hfresh := h.not_mem_busyIds hn hrunning hupdating
  have hparent : Parent rt' = Parent rt := parent_congr (map_of_flags (g := Node.owner) hnode (fun _ => rfl)) (fun h => h)
  constructor
  . exact hwf
  . exact h.edges.congr (map_of_flags hnode (fun _ => rfl))
  . apply h.ownership.congr (map_of_flags hnode (fun _ => rfl))
    . intro f hf
      rw [hframes, List.mem_cons] at hf
      cases hf with
      | inl hf => exact .inl (by rw [hf])
      | inr hf => exact .inr ⟨f, hf, rfl, rfl⟩
    . intro f hf
      exact .inr ⟨f, by simp [hframes, hf], rfl, rfl⟩
    . exact fun _ h => h
  . exact h.typed_of_flags hn hnode ⟨fun _ => hkind, htyped.updating, htyped.compute⟩
  . exact h.queue_of_flags hnode hpending (fun _ => ⟨rfl, rfl⟩)
  . intro f hf
    rw [hframes, List.mem_cons] at hf
    cases hf with
    | inl hf =>
      subst hf
      simp
    | inr hf => exact h.tracked f hf
  . rw [hframes, List.map_cons, h.frames]
    rfl
  . exact hobserver
  . exact howner
  . exact ⟨h.observer, h.owner, h.saved⟩
  . exact List.nodup_cons.mpr ⟨hfresh, h.nodup⟩
  . intro j
    rw [flag_set_iff Node.running hn hnode]
    unfold frameIds
    rw [List.mem_cons]
    split
    . next hj => simp [hj]
    . next hj => simp [hj, h.running j]
  . intro j
    rw [flag_set_iff Node.updating hn hnode]
    unfold updatingIds
    split
    . next hj =>
      subst hj
      rw [← h.updating j]
      simp [hn]
    . exact h.updating j
  . intro f hf c hc d hd hdesc
    unfold busyIds at hd ⊢
    rw [hframes, List.mem_cons] at hf
    cases hf with
    | inl hf =>
      subst hf
      simp at hc
    | inr hf =>
      have hobs : f.observer ∈ busyIds stack := by
        rw [mem_busyIds]
        exact .inl (h.mem_frameIds_of_frame hf)
      rw [List.mem_cons] at hd
      cases hd with
      | inl hd =>
        subst hd
        exact above_head hobs
      | inr hd =>
        unfold Descends at hdesc
        rw [hparent] at hdesc
        exact (h.young f hf c hc d hd hdesc).cons

def IsComputation (a : Activation V) (id : NodeId) (previousObserver previousOwner : Option NodeId)
    : Prop :=
  (∃ kind prevValue eq, a = .computing id previousObserver previousOwner kind prevValue eq) ∨
  (∃ kind previous newValue holds,
    a = .comparing id previousObserver previousOwner kind previous newValue holds)

theorem IsComputation.on_stack {a : Activation V} {previousObserver previousOwner : Option NodeId}
    (ha : IsComputation a id previousObserver previousOwner) (stack : List (Activation V))
    : frameIds (a :: stack) = id :: frameIds stack ∧
      busyIds (a :: stack) = id :: busyIds stack ∧
      updatingIds (a :: stack) = updatingIds stack ∧
      depthOf (a :: stack) = depthOf stack + 1 ∧
      flushesOf (a :: stack) = flushesOf stack ∧
      (Saved (a :: stack) → previousObserver = observerOf stack ∧
        previousOwner = (frameIds stack).head? ∧ Saved stack) := by
  cases ha with
  | inl ha =>
    obtain ⟨kind, prevValue, eq, rfl⟩ := ha
    exact ⟨rfl, rfl, rfl, rfl, rfl, fun h => h⟩
  | inr ha =>
    obtain ⟨kind, previous, newValue, holds, rfl⟩ := ha
    exact ⟨rfl, rfl, rfl, rfl, rfl, fun h => h.2⟩

theorem top_frame (h : Sound orphans rt stack) {ids : List NodeId} (hids : frameIds stack = id :: ids)
    : ∃ frame frames, rt.frames = frame :: frames ∧ frame.observer = id ∧
      ∃ n, rt.node id = some n ∧ n.running = true := by
  have hframes := h.frames
  rw [hids] at hframes
  cases hrt : rt.frames with
  | nil => simp [hrt] at hframes
  | cons frame frames =>
    simp only [hrt, List.map_cons, List.cons.injEq] at hframes
    exact ⟨frame, frames, rfl, hframes.1, (h.running id).mpr (by simp [hids])⟩

theorem leave {a : Activation V} {previousObserver previousOwner : Option NodeId}
    (ha : IsComputation a id previousObserver previousOwner) (h : Sound [] rt (a :: stack))
    {frame : ComputationFrame V} {frames : List (ComputationFrame V)}
    (hrt : rt.frames = frame :: frames) (hn : rt.node id = some n) (hwf : rt'.toArena.WellFormed)
    (hnode : ∀ j, rt'.node j =
      if j = id then (rt.node j).map (fun n => { n with running := false }) else rt.node j)
    (hframes : rt'.frames = frames) (hobserver : rt'.observer = previousObserver)
    (howner : rt'.owner = previousOwner) (hpending : rt'.pending = rt.pending)
    : Sound frame.owned rt' stack ∧ ∀ c ∈ frame.owned, ∀ j, Descends rt' j c → ¬ Busy rt' j := by
  obtain ⟨hframeIds, hbusyIds, hupdatingIds, -, -, hsaved⟩ := ha.on_stack stack
  obtain ⟨hso, hsw, hss⟩ := hsaved h.saved
  have hobserverId : frame.observer = id := by
    have := h.frames
    rw [hrt, hframeIds] at this
    simp only [List.map_cons, List.cons.injEq] at this
    exact this.1
  have hnodup := h.nodup
  rw [hbusyIds] at hnodup
  have hfresh := (List.nodup_cons.mp hnodup).1
  have htyped := h.typed hn
  have hparent : Parent rt' = Parent rt := parent_congr (map_of_flags (g := Node.owner) hnode (fun _ => rfl)) (fun h => h)
  have hsound : Sound frame.owned rt' stack := by
    constructor
    . exact hwf
    . exact h.edges.congr (map_of_flags hnode (fun _ => rfl))
    . apply h.ownership.congr (map_of_flags hnode (fun _ => rfl))
      . intro f hf
        exact .inr ⟨f, by simp [hrt, hframes ▸ hf], rfl, rfl⟩
      . intro f hf
        rw [hrt, List.mem_cons] at hf
        cases hf with
        | inl hf => exact .inl (by rw [hf]; exact fun _ h => h)
        | inr hf => exact .inr ⟨f, hframes ▸ hf, rfl, rfl⟩
      . simp
    . exact h.typed_of_flags hn hnode ⟨by simp, htyped.updating, htyped.compute⟩
    . exact h.queue_of_flags hnode hpending (fun _ => ⟨rfl, rfl⟩)
    . intro f hf
      exact h.tracked f (by simp [hrt, hframes ▸ hf])
    . have := h.frames
      rw [hrt, hframeIds] at this
      simp only [List.map_cons, List.cons.injEq] at this
      rw [hframes]
      exact this.2
    . rw [hobserver, hso]
    . rw [howner, hsw]
    . exact hss
    . exact (List.nodup_cons.mp hnodup).2
    . intro j
      rw [flag_set_iff Node.running hn hnode]
      split
      . next hj =>
        subst hj
        have : j ∉ frameIds stack := fun hmem => hfresh (mem_busyIds.mpr (.inl hmem))
        simp [this]
      . next hj =>
        rw [h.running j, hframeIds]
        simp [hj]
    . intro j
      rw [flag_set_iff Node.updating hn hnode, ← hupdatingIds]
      split
      . next hj =>
        subst hj
        rw [← h.updating j]
        simp [hn]
      . exact h.updating j
    . intro f hf c hc d hd hdesc
      unfold Descends at hdesc
      rw [hparent] at hdesc
      have := h.young f (by simp [hrt, hframes ▸ hf]) c hc d (by simp [hbusyIds, hd]) hdesc
      rw [hbusyIds] at this
      apply this.tail
      rintro rfl
      exact hfresh hd
  refine ⟨hsound, ?_⟩
  intro c hc j hdesc hbusy
  rw [hsound.busy_iff] at hbusy
  unfold Descends at hdesc
  rw [hparent] at hdesc
  have habove := h.young frame (by simp [hrt]) c hc j (by simp [hbusyIds, hbusy]) hdesc
  rw [hbusyIds, hobserverId] at habove
  exact not_above_head hnodup habove

end Sound

theorem mem_resubscribed {id : NodeId} {old new : List NodeId} {j u : NodeId} {l : List NodeId}
    : u ∈ Runtime.resubscribed id old new j l
        ↔
      (u ∈ l ∧ (u = id → j ∉ old)) ∨ (u = id ∧ j ∈ new) := by
  unfold Runtime.resubscribed
  by_cases h1 : j ∈ old
  all_goals by_cases h2 : j ∈ new
  all_goals simp [h1, h2]
  all_goals grind

theorem nodup_resubscribed {id : NodeId} {old new : List NodeId} {j : NodeId} {l : List NodeId} (h : l.Nodup)
    : (Runtime.resubscribed id old new j l).Nodup := by
  have hkept : (if j ∈ old then l.filter (· ≠ id) else l).Nodup := by
    split
    . exact h.filter _
    . exact h
  unfold Runtime.resubscribed
  dsimp only
  generalize (if j ∈ old then l.filter (· ≠ id) else l) = kept at hkept
  split
  . split
    . exact hkept
    . exact List.nodup_append.mpr ⟨hkept, by simp, by grind⟩
  . exact hkept

variable {rt : Runtime V}

theorem mem_liveSources {frame : ComputationFrame V} {source : NodeId}
    : source ∈ rt.liveSources frame
        ↔
      source ∈ frame.sources ∧ ∃ n, rt.node source = some n := by
  unfold Runtime.liveSources
  rw [List.mem_filter, Option.isSome_iff_exists]

theorem Edges.installFrame (h : Edges rt) {id : NodeId} {n : Node V}
    (hn : rt.node id = some n) {frame : ComputationFrame V} (hnodup : frame.sources.Nodup)
    (hself : id ∉ frame.sources) (newValue : V)
    : Edges (rt.installFrame id n frame newValue) := by
  have hnode := Runtime.node_installFrame rt newValue (h.irrefl hn) hself
  have hlive : id ∉ rt.liveSources frame := fun hmem => hself (mem_liveSources.mp hmem).1
  have hid : ∃ m, (rt.installFrame id n frame newValue).node id = some m ∧
      m.sources = rt.liveSources frame ∧ m.subscribers = n.subscribers := by
    rw [hnode, hn]
    exact ⟨_, rfl, by simp⟩
  have hother : ∀ {j m}, rt.node j = some m → j ≠ id →
      ∃ m', (rt.installFrame id n frame newValue).node j = some m' ∧ m'.sources = m.sources ∧
        m'.subscribers = Runtime.resubscribed id n.sources (rt.liveSources frame) j m.subscribers := by
    intro j m hm hj
    rw [hnode, hm]
    exact ⟨_, rfl, by simp [hj]⟩
  have hback : ∀ {j m'}, (rt.installFrame id n frame newValue).node j = some m' →
      ∃ m, rt.node j = some m := by
    intro j m' hm'
    rw [hnode, Option.map_eq_some_iff] at hm'
    obtain ⟨m, hm, -⟩ := hm'
    exact ⟨m, hm⟩
  -- the new subscriber lists say who has `j` among its sources
  have hsubscribed : ∀ {j m' u}, (rt.installFrame id n frame newValue).node j = some m' →
      u ∈ m'.subscribers → (u = id ∧ j ∈ rt.liveSources frame) ∨
        (u ≠ id ∧ ∃ m, rt.node j = some m ∧ u ∈ m.subscribers) := by
    intro j m' u hm' hu
    obtain ⟨m, hm⟩ := hback hm'
    by_cases hj : j = id
    . subst hj
      obtain ⟨m'', hm'', -, hsubs⟩ := hid
      rw [hm'] at hm''
      cases hm''
      rw [hn] at hm
      cases hm
      rw [hsubs] at hu
      right
      refine ⟨?_, n, hn, hu⟩
      rintro rfl
      obtain ⟨k, hk, hmem⟩ := h.subscriber hn hu
      rw [hn] at hk
      cases hk
      exact h.irrefl hn hmem
    . obtain ⟨m'', hm'', -, hsubs⟩ := hother hm hj
      rw [hm'] at hm''
      cases hm''
      rw [hsubs, mem_resubscribed] at hu
      by_cases huid : u = id
      . left
        cases hu with
        | inl hu =>
          obtain ⟨k, hk, hmem⟩ := h.subscriber hm hu.1
          rw [huid, hn] at hk
          cases hk
          exact absurd hmem (hu.2 huid)
        | inr hu => exact hu
      . right
        cases hu with
        | inl hu => exact ⟨huid, m, hm, hu.1⟩
        | inr hu => exact absurd hu.1 huid
  have hsources : ∀ {j m'}, (rt.installFrame id n frame newValue).node j = some m' →
      (j = id ∧ m'.sources = rt.liveSources frame) ∨
        (j ≠ id ∧ ∃ m, rt.node j = some m ∧ m'.sources = m.sources) := by
    intro j m' hm'
    obtain ⟨m, hm⟩ := hback hm'
    by_cases hj : j = id
    . subst hj
      obtain ⟨m'', hm'', hsrc, -⟩ := hid
      rw [hm'] at hm''
      cases hm''
      exact .inl ⟨rfl, hsrc⟩
    . obtain ⟨m'', hm'', hsrc, -⟩ := hother hm hj
      rw [hm'] at hm''
      cases hm''
      exact .inr ⟨hj, m, hm, hsrc⟩
  constructor
  . intro j m' hm'
    cases hsources hm' with
    | inl hj =>
      rw [hj.2]
      exact hnodup.filter _
    | inr hj =>
      obtain ⟨-, m, hm, hsrc⟩ := hj
      rw [hsrc]
      exact h.sources_nodup hm
  . intro j m' hm'
    obtain ⟨m, hm⟩ := hback hm'
    by_cases hj : j = id
    . subst hj
      obtain ⟨m'', hm'', -, hsubs⟩ := hid
      rw [hm'] at hm''
      cases hm''
      rw [hsubs]
      exact h.subscribers_nodup hn
    . obtain ⟨m'', hm'', -, hsubs⟩ := hother hm hj
      rw [hm'] at hm''
      cases hm''
      rw [hsubs]
      exact nodup_resubscribed (h.subscribers_nodup hm)
  . intro j m' s hm' hs
    cases hsources hm' with
    | inl hj =>
      obtain ⟨rfl, hsrc⟩ := hj
      rw [hsrc] at hs
      obtain ⟨-, m, hm⟩ := mem_liveSources.mp hs
      have hne : s ≠ j := by
        rintro rfl
        exact hlive hs
      obtain ⟨k, hk, -, hsubs⟩ := hother hm hne
      refine ⟨k, hk, ?_⟩
      rw [hsubs, mem_resubscribed]
      exact .inr ⟨rfl, hs⟩
    | inr hj =>
      obtain ⟨hne, m, hm, hsrc⟩ := hj
      rw [hsrc] at hs
      obtain ⟨k, hk, hmem⟩ := h.source hm hs
      by_cases hsid : s = id
      . subst hsid
        obtain ⟨k', hk', -, hsubs⟩ := hid
        rw [hn] at hk
        cases hk
        exact ⟨k', hk', hsubs ▸ hmem⟩
      . obtain ⟨k', hk', -, hsubs⟩ := hother hk hsid
        refine ⟨k', hk', ?_⟩
        rw [hsubs, mem_resubscribed]
        exact .inl ⟨hmem, fun heq => absurd heq hne⟩
  . intro j m' u hm' hu
    cases hsubscribed hm' hu with
    | inl hu =>
      obtain ⟨rfl, hmem⟩ := hu
      obtain ⟨k, hk, hsrc, -⟩ := hid
      exact ⟨k, hk, hsrc ▸ hmem⟩
    | inr hu =>
      obtain ⟨hne, m, hm, hu⟩ := hu
      obtain ⟨k, hk, hmem⟩ := h.subscriber hm hu
      obtain ⟨k', hk', hsrc, -⟩ := hother hk hne
      exact ⟨k', hk', hsrc ▸ hmem⟩
  . intro j m' hm'
    cases hsources hm' with
    | inl hj =>
      rw [hj.1, hj.2]
      exact hlive
    | inr hj =>
      obtain ⟨-, m, hm, hsrc⟩ := hj
      rw [hsrc]
      exact h.irrefl hm

theorem node_installFrame_place {id : NodeId} {n : Node V}
    {frame : ComputationFrame V} (newValue : V) (hold : id ∉ n.sources)
    (hself : id ∉ frame.sources) {j : NodeId} {m' : Node V}
    (hm' : (rt.installFrame id n frame newValue).node j = some m')
    : ∃ m, rt.node j = some m ∧ m'.kind = m.kind ∧ m'.owner = m.owner ∧
      m'.owned = if j = id then frame.owned else m.owned := by
  rw [Runtime.node_installFrame rt newValue hold hself, Option.map_eq_some_iff] at hm'
  obtain ⟨m, hm, rfl⟩ := hm'
  refine ⟨m, hm, ?_⟩
  split
  . next hj => simp
  . next hj => simp

theorem status_installFrame {id : NodeId} {n : Node V} {frame : ComputationFrame V}
    (newValue : V) (hold : id ∉ n.sources) (hself : id ∉ frame.sources) (j : NodeId)
    : ((rt.installFrame id n frame newValue).node j).map Node.status = (rt.node j).map Node.status := by
  rw [Runtime.node_installFrame rt newValue hold hself, Option.map_map]
  congr 1
  funext m
  unfold Function.comp
  dsimp only
  split <;> rfl

theorem node_installFrame_forth {id : NodeId} {n : Node V}
    {frame : ComputationFrame V} (newValue : V) (hold : id ∉ n.sources)
    (hself : id ∉ frame.sources) {j : NodeId} {m : Node V} (hm : rt.node j = some m)
    : ∃ m', (rt.installFrame id n frame newValue).node j = some m' ∧ m'.kind = m.kind ∧
      m'.owner = m.owner ∧ m'.owned = if j = id then frame.owned else m.owned := by
  rw [Runtime.node_installFrame rt newValue hold hself, hm]
  refine ⟨_, rfl, ?_⟩
  split
  . next hj => simp
  . next hj => simp

namespace Sound

variable {rt : Runtime V} {stack : List (Activation V)}

theorem installFrame {frame : ComputationFrame V} (h : Sound frame.owned rt stack) {id : NodeId}
    {n : Node V} (hn : rt.node id = some n) (hrunning : n.running = false)
    (hsources : frame.sources.Nodup) (hself : id ∉ frame.sources) (howned : frame.owned.Nodup)
    (hnew : ∀ c ∈ frame.owned, ∃ m, rt.node c = some m ∧ m.owner = some id) (newValue : V)
    : Sound n.owned (rt.installFrame id n frame newValue) stack := by
  have hirrefl := h.edges.irrefl hn
  have hrest := Runtime.rest_installFrame rt id n frame newValue
  have hframes := congrArg Runtime.frames hrest
  have hframes : (rt.installFrame id n frame newValue).frames = rt.frames := hframes
  have hpending := congrArg Runtime.pending hrest
  have hpending : (rt.installFrame id n frame newValue).pending = rt.pending := hpending
  have hobserver := congrArg Runtime.observer hrest
  have hobserver : (rt.installFrame id n frame newValue).observer = rt.observer := hobserver
  have howner := congrArg Runtime.owner hrest
  have howner : (rt.installFrame id n frame newValue).owner = rt.owner := howner
  have hback := @node_installFrame_place V rt id n frame newValue hirrefl hself
  have hforth := @node_installFrame_forth V rt id n frame newValue hirrefl hself
  have hnode := Runtime.node_installFrame rt newValue hirrefl hself
  have hparent : Parent (rt.installFrame id n frame newValue) = Parent rt := by
    apply parent_congr (f := Node.owner) _ (fun h => h)
    intro j
    rw [hnode, Option.map_map]
    congr 1
    funext m
    unfold Function.comp
    dsimp only
    split <;> rfl
  have ho := h.ownership
  have hownership : Ownership (rt.installFrame id n frame newValue) n.owned := by
    constructor
    . intro j m' hm'
      obtain ⟨m, hm, hk⟩ := hback hm'
      rw [hk.2.2]
      split
      . exact howned
      . exact ho.owned_nodup hm
    . intro j m' c hm' hc
      obtain ⟨m, hm, hk⟩ := hback hm'
      rw [hk.2.2] at hc
      have hlive : ∃ k, rt.node c = some k ∧ k.owner = some j := by
        split at hc
        . next hj =>
          rw [hj]
          exact hnew c hc
        . exact ho.owned hm hc
      obtain ⟨k, hk, hown⟩ := hlive
      obtain ⟨k', hk', hplace⟩ := hforth hk
      exact ⟨k', hk', by rw [hplace.2.1, hown]⟩
    . intro f hf
      rw [hframes] at hf
      exact ho.frame_nodup hf
    . intro f c hf hc
      rw [hframes] at hf
      obtain ⟨m, hm, hown, hkind⟩ := ho.frame hf hc
      obtain ⟨m', hm', hk⟩ := hforth hm
      exact ⟨m', hm', by rw [hk.2.1, hown], by rw [hk.1]; exact hkind⟩
    . intro j p hp
      rw [hparent] at hp
      obtain ⟨m, hm⟩ := ho.owner_live hp
      obtain ⟨m', hm', -⟩ := hforth hm
      exact ⟨m', hm'⟩
    . intro j p hp hj
      rw [hparent] at hp
      by_cases hmem : j ∈ frame.owned
      . obtain ⟨m, hm, hown⟩ := hnew j hmem
        obtain ⟨m₁, hm₁, hown₁⟩ := hp
        rw [hm] at hm₁
        cases hm₁
        rw [hown] at hown₁
        cases hown₁
        obtain ⟨n', hn', hk⟩ := hforth hn
        exact .inl ⟨n', hn', by rw [hk.2.2]; simpa using hmem⟩
      . cases ho.owner hp hmem with
        | inl h =>
          obtain ⟨m, hm, hjm⟩ := h
          obtain ⟨m', hm', hk⟩ := hforth hm
          refine .inl ⟨m', hm', ?_⟩
          rw [hk.2.2]
          split
          . next hpid =>
            subst hpid
            rw [hn] at hm
            cases hm
            exact absurd hjm hj
          . exact hjm
        | inr h =>
          obtain ⟨f, hf, hobs, hjf⟩ := h
          exact .inr ⟨f, hframes ▸ hf, hobs, hjf⟩
    . intro p m' f c hm' hf hobs hc
      rw [hframes] at hf
      obtain ⟨m, hm, hk⟩ := hback hm'
      rw [hk.2.2] at hc
      split at hc
      . next hp =>
        obtain ⟨k, hk, hrun⟩ := h.frame_running hf
        rw [hobs, hp, hn] at hk
        cases hk
        simp [hrunning] at hrun
      . exact ho.disjoint hm hf hobs hc
    . intro j m' p hm' hkind hown
      obtain ⟨m, hm, hk⟩ := hback hm'
      obtain ⟨q, hq, hqk⟩ := ho.owner_kind hm (by rw [← hk.1, hkind]) (by rw [← hk.2.1, hown])
      obtain ⟨q', hq', hk'⟩ := hforth hq
      exact ⟨q', hq', by rw [hk'.1, hqk]⟩
    . rw [hparent]
      exact ho.acyclic
  refine h.relisted ((Runtime.arena_installFrame rt id n frame newValue).1 h.arena)
    (status_installFrame newValue hirrefl hself) (h.edges.installFrame hn hsources hself newValue)
    hownership ?_ (congrArg _ hframes) hpending hobserver howner ?_
  . unfold Tracked
    rw [hframes]
    exact h.tracked
  . intro f hf c hc d hd hdesc
    rw [hframes] at hf
    unfold Descends at hdesc
    rw [hparent] at hdesc
    exact h.young f hf c hc d hd hdesc

theorem beginUpdate {rt' : Runtime V} (h : Sound [] rt stack) {id : NodeId} {n : Node V}
    (hn : rt.node id = some n) (hkind : n.kind = .signal) (hupdating : n.updating = false)
    (hwf : rt'.toArena.WellFormed) (hnode : ∀ j, rt'.node j =
      if j = id then (rt.node j).map (fun n => { n with updating := true }) else rt.node j)
    (hframes : rt'.frames = rt.frames) (hobserver : rt'.observer = rt.observer)
    (howner : rt'.owner = rt.owner) (hpending : rt'.pending = rt.pending)
    : Sound [] rt' (.updating id :: stack) := by
  have htyped := h.typed hn
  have hrunning : n.running = false := by
    cases hr : n.running with
    | false => rfl
    | true =>
      have := htyped.running hr
      rw [hkind] at this
      simp at this
  have hfresh := h.not_mem_busyIds hn hrunning hupdating
  have hparent : Parent rt' = Parent rt := parent_congr (map_of_flags (g := Node.owner) hnode (fun _ => rfl)) (fun h => h)
  constructor
  . exact hwf
  . exact h.edges.congr (map_of_flags hnode (fun _ => rfl))
  . apply h.ownership.congr (map_of_flags hnode (fun _ => rfl))
    . exact fun f hf => .inr ⟨f, hframes ▸ hf, rfl, rfl⟩
    . exact fun f hf => .inr ⟨f, hframes ▸ hf, rfl, rfl⟩
    . exact fun _ h => h
  . exact h.typed_of_flags hn hnode ⟨htyped.running, fun _ => hkind, htyped.compute⟩
  . exact h.queue_of_flags hnode hpending (fun _ => ⟨rfl, rfl⟩)
  . intro f hf
    exact h.tracked f (hframes ▸ hf)
  . rw [hframes]
    exact h.frames
  . exact hobserver.trans h.observer
  . exact howner.trans h.owner
  . exact h.saved
  . exact List.nodup_cons.mpr ⟨hfresh, h.nodup⟩
  . intro j
    rw [flag_set_iff Node.running hn hnode]
    split
    . next hj =>
      subst hj
      rw [show frameIds (.updating j :: stack) = frameIds stack from rfl, ← h.running j]
      simp [hn]
    . exact h.running j
  . intro j
    rw [flag_set_iff Node.updating hn hnode]
    unfold updatingIds
    rw [List.mem_cons]
    split
    . next hj => simp [hj]
    . next hj => simp [hj, h.updating j]
  . intro f hf c hc d hd hdesc
    rw [hframes] at hf
    unfold Descends at hdesc
    rw [hparent] at hdesc
    unfold busyIds at hd ⊢
    rw [List.mem_cons] at hd
    cases hd with
    | inl hd =>
      subst hd
      apply above_head
      rw [mem_busyIds]
      exact .inl (h.mem_frameIds_of_frame hf)
    | inr hd => exact (h.young f hf c hc d hd hdesc).cons

theorem endUpdate {rt' : Runtime V} {id : NodeId} (h : Sound [] rt (.updating id :: stack))
    {n : Node V} (hn : rt.node id = some n) (hwf : rt'.toArena.WellFormed) (hnode : ∀ j, rt'.node j =
      if j = id then (rt.node j).map (fun n => { n with updating := false }) else rt.node j)
    (hframes : rt'.frames = rt.frames) (hobserver : rt'.observer = rt.observer)
    (howner : rt'.owner = rt.owner) (hpending : rt'.pending = rt.pending)
    : Sound [] rt' stack := by
  have htyped := h.typed hn
  have hnodup : (id :: busyIds stack).Nodup := h.nodup
  have hfresh := (List.nodup_cons.mp hnodup).1
  have hparent : Parent rt' = Parent rt := parent_congr (map_of_flags (g := Node.owner) hnode (fun _ => rfl)) (fun h => h)
  constructor
  . exact hwf
  . exact h.edges.congr (map_of_flags hnode (fun _ => rfl))
  . apply h.ownership.congr (map_of_flags hnode (fun _ => rfl))
    . exact fun f hf => .inr ⟨f, hframes ▸ hf, rfl, rfl⟩
    . exact fun f hf => .inr ⟨f, hframes ▸ hf, rfl, rfl⟩
    . exact fun _ h => h
  . exact h.typed_of_flags hn hnode ⟨htyped.running, by simp, htyped.compute⟩
  . exact h.queue_of_flags hnode hpending (fun _ => ⟨rfl, rfl⟩)
  . intro f hf
    exact h.tracked f (hframes ▸ hf)
  . rw [hframes]
    exact h.frames
  . exact hobserver.trans h.observer
  . exact howner.trans h.owner
  . exact h.saved
  . exact (List.nodup_cons.mp hnodup).2
  . intro j
    rw [flag_set_iff Node.running hn hnode]
    split
    . next hj =>
      subst hj
      rw [show frameIds stack = frameIds (.updating j :: stack) from rfl, ← h.running j]
      simp [hn]
    . exact h.running j
  . intro j
    rw [flag_set_iff Node.updating hn hnode]
    split
    . next hj =>
      subst hj
      have : j ∉ updatingIds stack := fun hmem => hfresh (mem_busyIds.mpr (.inr hmem))
      simp [this]
    . next hj =>
      rw [h.updating j, show updatingIds (.updating id :: stack) = id :: updatingIds stack from rfl]
      simp [hj]
  . intro f hf c hc d hd hdesc
    rw [hframes] at hf
    unfold Descends at hdesc
    rw [hparent] at hdesc
    have habove : Above (id :: busyIds stack) d f.observer :=
      h.young f hf c hc d (by unfold busyIds; simp [hd]) hdesc
    apply habove.tail
    rintro rfl
    exact hfresh hd

theorem setOwner (h : Sound [] rt stack) {owner effect : NodeId} {o e : Node V}
    (ho : rt.node owner = some o) (he : rt.node effect = some e) (hokind : o.kind = .owner)
    (hekind : e.kind = .effect) (hunowned : e.owner = none)
    : Sound [effect] (rt.modifyNode effect (fun n => { n with owner := some owner })) stack := by
  generalize hrt' : rt.modifyNode effect (fun n => { n with owner := some owner }) = rt'
  have hnode : ∀ j, rt'.node j
      = if j = effect then (rt.node j).map (fun n => { n with owner := some owner }) else rt.node j := by
    intro j
    rw [← hrt', Runtime.node_modifyNode]
  have hkeeps := map_of_flags (g := fun n : Node V => (n.kind, n.owned)) hnode (fun _ => rfl)
  have hback : ∀ {j n'}, rt'.node j = some n' →
      ∃ n, rt.node j = some n ∧ n.kind = n'.kind ∧ n.owned = n'.owned := by
    intro j n' hn'
    obtain ⟨n, hn, heq⟩ := node_of_map_eq hkeeps hn'
    exact ⟨n, hn, congrArg Prod.fst heq, congrArg Prod.snd heq⟩
  have hforth : ∀ {j n}, rt.node j = some n →
      ∃ n', rt'.node j = some n' ∧ n'.kind = n.kind ∧ n'.owned = n.owned := by
    intro j n hn
    obtain ⟨n', hn', heq⟩ := node_of_map_eq (fun j => (hkeeps j).symm) hn
    exact ⟨n', hn', congrArg Prod.fst heq, congrArg Prod.snd heq⟩
  have hown := h.ownership
  have hparent : ∀ {j p}, Parent rt' j p ↔ Parent rt j p ∨ (j = effect ∧ p = owner) := by
    intro j p
    unfold Parent
    rw [hnode]
    by_cases hj : j = effect
    . subst hj
      simp [he, hunowned, eq_comm]
    . simp [hj]
  -- the ancestors of an owner are owners, before and after
  have hup : ∀ {j p}, Relation.ReflTransGen (Parent rt') j p →
      (∃ n, rt.node j = some n ∧ n.kind = .owner) → ∃ n, rt.node p = some n ∧ n.kind = .owner := by
    intro j p hjp
    induction hjp with
    | refl => exact fun h => h
    | tail _ hlast ih =>
      intro hj
      obtain ⟨n, hn, hkind⟩ := ih hj
      cases hparent.mp hlast with
      | inl hp =>
        obtain ⟨m, hm, hmown⟩ := hp
        rw [hn] at hm
        cases hm
        exact hown.owner_kind hn hkind hmown
      | inr hp =>
        rw [hp.2]
        exact ⟨o, ho, hokind⟩
  have hnotowner : ¬ ∃ n, rt.node effect = some n ∧ n.kind = .owner := by
    rintro ⟨n, hn, hkind⟩
    rw [he] at hn
    cases hn
    rw [hekind] at hkind
    cases hkind
  have hdescends : ∀ {j c}, Descends rt' j c → (∀ n, rt.node c = some n → n.kind ≠ .owner) →
      Descends rt j c := by
    intro j c hdesc hc
    induction hdesc using Relation.ReflTransGen.head_induction_on with
    | refl => exact .refl
    | head hp hrest ih =>
      cases hparent.mp hp with
      | inl hp => exact .head hp ih
      | inr hp =>
        obtain ⟨n, hn, hkind⟩ := hup hrest (by rw [hp.2]; exact ⟨o, ho, hokind⟩)
        exact absurd hkind (hc n hn)
  have hownership : Ownership rt' [effect] := by
    constructor
    . intro j n' hn'
      obtain ⟨n, hn, -, howned⟩ := hback hn'
      rw [← howned]
      exact hown.owned_nodup hn
    . intro j n' c hn' hc
      obtain ⟨n, hn, -, howned⟩ := hback hn'
      exact hparent.mpr (.inl (hown.owned hn (howned ▸ hc)))
    . intro f hf
      rw [← hrt'] at hf
      exact hown.frame_nodup hf
    . intro f c hf hc
      rw [← hrt'] at hf
      obtain ⟨m, hm, hmown, hkind⟩ := hown.frame hf hc
      obtain ⟨m', hm', hkind', -⟩ := hforth hm
      obtain ⟨m'', hm'', hmown'⟩ := hparent.mpr (.inl ⟨m, hm, hmown⟩)
      rw [hm'] at hm''
      cases hm''
      exact ⟨m', hm', hmown', hkind' ▸ hkind⟩
    . intro j p hp
      have hlive : ∃ n, rt.node p = some n := by
        cases hparent.mp hp with
        | inl hp => exact hown.owner_live hp
        | inr hp => exact ⟨o, hp.2 ▸ ho⟩
      obtain ⟨n, hn⟩ := hlive
      obtain ⟨n', hn', -⟩ := hforth hn
      exact ⟨n', hn'⟩
    . intro j p hp hj
      have hp := (hparent.mp hp).resolve_right fun h => hj (List.mem_singleton.mpr h.1)
      cases hown.owner hp List.not_mem_nil with
      | inl hmem =>
        obtain ⟨n, hn, hmem⟩ := hmem
        obtain ⟨n', hn', -, howned⟩ := hforth hn
        exact .inl ⟨n', hn', howned ▸ hmem⟩
      | inr hmem =>
        rw [← hrt']
        exact .inr hmem
    . intro p n' f c hn' hf hobserver hc
      rw [← hrt'] at hf
      obtain ⟨n, hn, -, howned⟩ := hback hn'
      exact hown.disjoint hn hf hobserver (howned ▸ hc)
    . intro j n' p hn' hkind hown'
      obtain ⟨n, hn, hkind', -⟩ := hback hn'
      have hp : Parent rt j p := by
        apply (hparent.mp ⟨n', hn', hown'⟩).resolve_right
        rintro ⟨rfl, -⟩
        exact hnotowner ⟨n, hn, hkind'.trans hkind⟩
      obtain ⟨m, hm, hmown⟩ := hp
      rw [hn] at hm
      cases hm
      obtain ⟨m, hm, hmkind⟩ := hown.owner_kind hn (hkind'.trans hkind) hmown
      obtain ⟨m', hm', hmkind', -⟩ := hforth hm
      exact ⟨m', hm', hmkind'.trans hmkind⟩
    . intro j hcycle
      -- a cycle through the new edge would put the effect above the owner
      have hpure : ∀ {a b}, Relation.TransGen (Parent rt') a b →
          (∃ n, rt.node a = some n ∧ n.kind = .owner) → Relation.TransGen (Parent rt) a b := by
        intro a b hab ha
        induction hab with
        | single hp =>
          cases hparent.mp hp with
          | inl hp => exact .single hp
          | inr hp => exact absurd ha (hp.1 ▸ hnotowner)
        | tail hab hp ih =>
          cases hparent.mp hp with
          | inl hp => exact .tail ih hp
          | inr hp => exact absurd (hup hab.to_reflTransGen ha) (hp.1 ▸ hnotowner)
      have hold : ∀ {a b}, Relation.TransGen (Parent rt') a b →
          Relation.TransGen (Parent rt) a b ∨ ∃ n, rt.node b = some n ∧ n.kind = .owner := by
        intro a b hab
        induction hab with
        | single hp =>
          cases hparent.mp hp with
          | inl hp => exact .inl (.single hp)
          | inr hp => exact .inr ⟨o, hp.2 ▸ ho, hokind⟩
        | tail _ hp ih =>
          cases ih with
          | inl ih =>
            cases hparent.mp hp with
            | inl hp => exact .inl (.tail ih hp)
            | inr hp => exact .inr ⟨o, hp.2 ▸ ho, hokind⟩
          | inr ih => exact .inr (hup (.single hp) ih)
      cases hold hcycle with
      | inl hc => exact hown.acyclic j hc
      | inr hc => exact hown.acyclic j (hpure hcycle hc)
  have hframes : rt'.frames = rt.frames := hrt' ▸ rfl
  refine h.relisted (hrt' ▸ h.arena.modify _ _) (map_of_flags (g := Node.status) hnode (fun _ => rfl))
    (h.edges.congr (map_of_flags (g := Node.links) hnode (fun _ => rfl))) hownership ?_ (congrArg _ hframes)
    (hrt' ▸ rfl) (hrt' ▸ rfl) (hrt' ▸ rfl) ?_
  . unfold Tracked
    rw [hframes]
    exact h.tracked
  . intro f hf c hc d hd hdesc
    rw [hframes] at hf
    obtain ⟨m, hm, -, hkind⟩ := hown.frame hf hc
    apply h.young f hf c hc d hd
    apply hdescends hdesc
    intro n hn
    rw [hm] at hn
    cases hn
    exact hkind

theorem adopt (h : Sound [] rt stack) {owner effect : NodeId} {o e : Node V}
    (ho : rt.node owner = some o) (he : rt.node effect = some e) (hokind : o.kind = .owner)
    (hekind : e.kind = .effect) (hunowned : e.owner = none)
    : Sound [] ((rt.modifyNode effect (fun n => { n with owner := some owner })).own owner effect) stack := by
  have hnode := fun j => Runtime.node_modifyNode rt effect j (fun n => { n with owner := some owner })
  apply (h.setOwner ho he hokind hekind hunowned).own
  . constructor
    . intro j n' hn' hmem
      obtain ⟨n, hn, howned⟩ := node_of_map_eq (map_of_flags (g := Node.owned) hnode (fun _ => rfl)) hn'
      obtain ⟨m, hm, howner⟩ := h.ownership.owned hn (howned ▸ hmem)
      rw [he] at hm
      cases hm
      rw [hunowned] at howner
      cases howner
    . intro f hf hmem
      obtain ⟨m, hm, howner, -⟩ := h.ownership.frame hf hmem
      rw [he] at hm
      cases hm
      rw [hunowned] at howner
      cases howner
  . refine ⟨{ e with owner := some owner }, ?_, rfl⟩
    rw [hnode, if_pos rfl, he]
    rfl

end Sound

end Reactive

end Pliego
