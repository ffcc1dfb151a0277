import Pliego.Reactive.Operations

/-!
Every step keeps the runtime and the stack in agreement, as long as no computation that publishes retires
a busy node of its last run.
-/

namespace Pliego

namespace Reactive

variable {V : Type}

structure Good (c : Config V) : Prop where
  sound : Sound [] c.rt c.stack
  balanced : Balanced c.rt c.stack 0
  deferred : Deferred c.rt c.stack
  running : c.control ≠ .aborted

namespace Config

/--
The computation that the next step publishes.
-/
def committing (c : Config V) : Option NodeId :=
  match c.control, c.stack with
  | .done (.ok _), .computing _ _ _ _ (some _) (some _) :: _ => none
  | .done (.ok _), .computing id _ _ _ _ _ :: _ => some id
  | .done (.ok _), .comparing id _ _ _ _ _ _ :: _ => some id
  | _, _ => none

/--
The nodes of the last run are free to go: `dispose` and `Owner::dispose` ask the same before they retire
a tree.
-/
def retiresIdle (c : Config V) : Bool :=
  match committing c with
  | none => true
  | some id =>
    match c.rt.node id with
    | none => true
    | some node => node.owned.all (fun child => !c.rt.disposableTreeIsBusy child)

end Config

open Config

variable {rt rt' : Runtime V} {stack : List (Activation V)} {a : Activation V}

theorem Balanced.of_depth (hdepth : rt.batchDepth = depthOf stack + 1)
    (hflushing : flushesOf stack = if rt.flushing then 1 else 0)
    : Balanced rt stack 1 :=
  ⟨hdepth, hflushing, fun _ => .inl (by omega)⟩

theorem Deferred.mono (h : Deferred rt stack) {stack' : List (Activation V)}
    (hdisposing : disposing stack = true → disposing stack' = true)
    (hdeferred : rt'.deferredDisposals = rt.deferredDisposals)
    (hbusy : ∀ j, Busy rt j → Busy rt' j) (hparent : ∀ j p, Parent rt j p → Parent rt' j p)
    : Deferred rt' stack' := by
  cases h with
  | inl h => exact .inl (hdisposing h)
  | inr h =>
    right
    intro d hd
    rw [hdeferred] at hd
    obtain ⟨j, hj, hdesc⟩ := h d hd
    exact ⟨j, hbusy j hj, Relation.ReflTransGen.mono hparent _ _ hdesc⟩

theorem Deferred.sameShape (h : Deferred rt stack) (hs : SameShape rt rt')
    (hdeferred : rt'.deferredDisposals = rt.deferredDisposals)
    : Deferred rt' stack := by
  apply h.mono (fun h => h) hdeferred
  . exact fun j => hs.busy_iff.mpr
  . intro j p hp
    rw [hs.parent_eq]
    exact hp

theorem Good.neutral {control control' : Control V} (h : Good ⟨rt, a :: stack, control⟩)
    (ha : a.Neutral) (hflush : flushesOf (a :: stack) = flushesOf stack) (hcontrol : control' ≠ .aborted)
    : Good ⟨rt, stack, control'⟩ := by
  refine ⟨(sound_neutral ha).mp h.sound, ?_, ?_, hcontrol⟩
  . have hb := h.balanced
    refine ⟨?_, ?_, hb.wakes⟩
    . rw [hb.depth]
      cases a <;> first | exact ha.elim | rfl
    . rw [← hflush]
      exact hb.flushing
  . have hd := h.deferred
    cases a <;> first | exact ha.elim | exact hd

theorem Good.push {control control' : Control V} (h : Good ⟨rt, stack, control⟩) (ha : a.Neutral)
    (hflush : flushesOf (a :: stack) = flushesOf stack) (hcontrol : control' ≠ .aborted)
    : Good ⟨rt, a :: stack, control'⟩ := by
  refine ⟨(sound_neutral ha).mpr h.sound, ?_, ?_, hcontrol⟩
  . have hb := h.balanced
    refine ⟨?_, ?_, hb.wakes⟩
    . rw [hb.depth]
      cases a <;> first | exact ha.elim | rfl
    . rw [hflush]
      exact hb.flushing
  . have hd := h.deferred
    cases a <;> first | exact ha.elim | exact hd

theorem Good.control {control : Control V} (h : Good ⟨rt, stack, control⟩) {control' : Control V}
    (hcontrol : control' ≠ .aborted)
    : Good ⟨rt, stack, control'⟩ :=
  ⟨h.sound, h.balanced, h.deferred, hcontrol⟩

theorem Good.keeps {control : Control V} (h : Good ⟨rt, stack, control⟩) (hk : Keeps rt rt')
    (hqueue : Queue rt') (hpending : rt'.pending = rt.pending) {control' : Control V}
    (hcontrol : control' ≠ .aborted)
    : Good ⟨rt', stack, control'⟩ where
  sound := h.sound.keeps hk hqueue
  balanced := by
    have hb := h.balanced
    refine ⟨hk.batchDepth.trans hb.depth, ?_, ?_⟩
    . rw [hk.flushing]
      exact hb.flushing
    . rw [hpending, hk.batchDepth, hk.flushing]
      exact hb.wakes
  deferred := h.deferred.sameShape hk.toSameShape hk.deferred
  running := hcontrol

theorem good_flushEffects {result : Outcome (Reply V)} (hsound : Sound [] rt stack)
    (hdepth : rt.batchDepth = depthOf stack)
    (hflushing : flushesOf stack = if rt.flushing then 1 else 0) (hdeferred : Deferred rt stack)
    : Good (flushEffects rt stack result) := by
  unfold flushEffects
  split
  . next hf => exact ⟨hsound, ⟨hdepth, hflushing, fun _ => .inr hf⟩, hdeferred, by simp⟩
  . next hf =>
    refine ⟨?_, ⟨?_, ?_, fun _ => .inr rfl⟩, ?_, by simp⟩
    . apply (sound_neutral (a := .flushing none 0 _ false result) trivial).mpr
      exact hsound.withBatch rfl rfl rfl rfl rfl
    . exact hdepth
    . simp only [hf] at hflushing
      simp only [flushesOf, hflushing]
      rfl
    . exact hdeferred.sameShape (.of_eq rfl rfl) rfl

theorem good_finishBatch {result : Outcome (Reply V)} (hsound : Sound [] rt stack)
    (hbalanced : Balanced rt stack 1) (hdeferred : Deferred rt stack)
    : Good (finishBatch rt stack result) := by
  have hdepth := hbalanced.depth
  unfold finishBatch
  split
  . next h => omega
  . next depth h =>
    have hd : depth = depthOf stack := by omega
    have hsound' : Sound [] { rt with batchDepth := depth } stack :=
      hsound.withBatch rfl rfl rfl rfl rfl
    have hdeferred' : Deferred { rt with batchDepth := depth } stack :=
      hdeferred.sameShape (.of_eq rfl rfl) rfl
    split
    . exact good_flushEffects hsound' hd hbalanced.flushing hdeferred'
    . refine ⟨hsound', ⟨hd, hbalanced.flushing, fun _ => .inl ?_⟩, hdeferred', by simp⟩
      dsimp only
      omega

theorem Sound.hideObserver (h : Sound [] rt stack) (ha : a = .untracked rt.observer ∨
      ∃ cleanups panicked after, after ≠ .unwind ∧
        a = .disposal cleanups panicked rt.observer after)
    : Sound [] { rt with observer := none } (a :: stack) := by
  have hshape : SameShape rt { rt with observer := none } := .of_eq rfl rfl
  have hqueue : Queue { rt with observer := none } := h.queue.of_eq (fun _ => rfl) rfl
  obtain rfl | ⟨cleanups, panicked, after, hafter, rfl⟩ := ha
  . exact h.sameShape hshape hqueue rfl rfl rfl ⟨h.observer, h.saved⟩ rfl rfl
  . exact h.sameShape hshape hqueue rfl rfl rfl ⟨h.observer, hafter, h.saved⟩ rfl rfl

theorem Sound.showObserver {previous : Option NodeId} (h : Sound [] rt (a :: stack))
    (ha : a = .untracked previous ∨
      ∃ cleanups panicked after, a = .disposal cleanups panicked previous after)
    : Sound [] { rt with observer := previous } stack := by
  have hshape : SameShape rt { rt with observer := previous } := .of_eq rfl rfl
  have hqueue : Queue { rt with observer := previous } := h.queue.of_eq (fun _ => rfl) rfl
  obtain rfl | ⟨cleanups, panicked, after, rfl⟩ := ha
  . obtain ⟨hprevious, hsaved⟩ := h.saved
    exact h.sameShape hshape hqueue rfl rfl rfl hsaved hprevious rfl
  . obtain ⟨hprevious, -, hsaved⟩ := h.saved
    exact h.sameShape hshape hqueue rfl rfl rfl hsaved hprevious rfl

theorem good_runDisposal {cleanups : List (Prog V)} {after : After V} (hsound : Sound [] rt stack)
    (hbalanced : Balanced rt stack 1) (hafter : after ≠ .unwind)
    : Good (runDisposal rt stack cleanups after) := by
  refine ⟨?_, ⟨?_, hbalanced.flushing, hbalanced.wakes⟩, .inl rfl, by simp [runDisposal]⟩
  . exact hsound.hideObserver (.inr ⟨cleanups, false, after, hafter, rfl⟩)
  . exact hbalanced.depth

theorem good_finishDisposal {panicked : Bool} {after : After V} (hsound : Sound [] rt stack)
    (hbalanced : Balanced rt stack 1) (hdeferred : Deferred rt stack) (hafter : after ≠ .unwind)
    : Good (finishDisposal rt stack panicked after) := by
  unfold finishDisposal
  split
  . next id kind =>
    dsimp only
    split
    . have hk : Keeps rt (rt.modifyNode id (fun n => { n with retryNotify := true })) :=
        .modifyNode rt id (fun _ => rfl)
      apply good_finishBatch
      . exact hsound.keeps hk (hsound.queue.modifyNode id (fun _ => ⟨rfl, rfl⟩))
      . exact ⟨hbalanced.depth, hbalanced.flushing, hbalanced.wakes⟩
      . exact hdeferred.sameShape hk.toSameShape rfl
    . exact good_finishBatch hsound hbalanced hdeferred
  . exact good_finishBatch hsound hbalanced hdeferred
  . exact absurd rfl hafter

theorem node_enterComputation (rt : Runtime V) (id j : NodeId)
    : (enterComputation rt id).node j =
      if j = id then (rt.node j).map (fun n => { n with running := true }) else rt.node j :=
  Runtime.node_modifyNode rt id j _

theorem node_leaveComputation (rt : Runtime V) (id : NodeId)
    (previousObserver previousOwner : Option NodeId) (frames : List (ComputationFrame V)) (j : NodeId)
    : (leaveComputation rt id previousObserver previousOwner frames).node j =
      if j = id then (rt.node j).map (fun n => { n with running := false }) else rt.node j :=
  Runtime.node_modifyNode rt id j _

theorem good_runComputation {control : Control V} (h : Good ⟨rt, stack, control⟩) (id : NodeId)
    : Good (runComputation rt stack id) := by
  unfold runComputation
  split
  . exact h.control (by simp)
  . next node hnode =>
    split
    . exact h.control (by simp)
    . next compute hcompute =>
      split
      . exact h.control (by simp)
      . next hrunning =>
        rw [Bool.not_eq_true] at hrunning
        have hlook := node_enterComputation (enterBatch rt) id
        refine ⟨?_, ⟨?_, h.balanced.flushing, fun _ => .inl (Nat.succ_pos _)⟩, ?_, by simp⟩
        . exact h.sound.enter hnode (by simp [hcompute]) hrunning _ _ _ (h.sound.arena.modify _ _)
            hlook rfl rfl rfl rfl
        . have := h.balanced.depth
          exact congrArg (· + 1) this
        . refine Deferred.mono h.deferred (fun h => h) rfl ?_ ?_
          . rintro j ⟨n, hn, hbusy⟩
            unfold Busy
            rw [hlook, show (enterBatch rt).node j = some n from hn]
            split
            . exact ⟨_, rfl, .inr rfl⟩
            . exact ⟨n, rfl, hbusy⟩
          . rintro j p ⟨n, hn, howner⟩
            unfold Parent
            rw [hlook, show (enterBatch rt).node j = some n from hn]
            split
            . exact ⟨_, rfl, howner⟩
            . exact ⟨n, rfl, howner⟩

variable {id : NodeId} {previousObserver previousOwner : Option NodeId}

theorem Good.leave (ha : Sound.IsComputation a id previousObserver previousOwner) {control : Control V}
    (h : Good ⟨rt, a :: stack, control⟩) (observer : Option NodeId)
    : ∃ frame frames n, rt.frames = frame :: frames ∧ frame.observer = id ∧
      rt.node id = some n ∧
      (leaveComputation { rt with observer := observer } id previousObserver previousOwner
        frames).node id = some { n with running := false } ∧
      Sound frame.owned
        (leaveComputation { rt with observer := observer } id previousObserver previousOwner frames)
        stack ∧
      (∀ c ∈ frame.owned, ∀ j,
        Descends (leaveComputation { rt with observer := observer } id previousObserver
          previousOwner frames) j c →
        ¬ Busy (leaveComputation { rt with observer := observer } id previousObserver previousOwner
          frames) j) ∧
      Balanced
        (leaveComputation { rt with observer := observer } id previousObserver previousOwner frames)
        stack 1 := by
  obtain ⟨hframeIds, -, -, hdepth, hflushes, -⟩ := ha.on_stack stack
  obtain ⟨frame, frames, hframes, hobserver, n, hn, -⟩ := h.sound.top_frame hframeIds
  have hlook := node_leaveComputation { rt with observer := observer } id previousObserver
    previousOwner frames
  have hwf : (leaveComputation { rt with observer := observer } id previousObserver previousOwner
      frames).toArena.WellFormed := h.sound.arena.modify _ _
  obtain ⟨hsound, hidle⟩ := Sound.leave ha h.sound hframes hn hwf hlook rfl rfl rfl rfl
  refine ⟨frame, frames, n, hframes, hobserver, hn, ?_, hsound, hidle, ?_⟩
  . rw [hlook, show Runtime.node { rt with observer := observer } id = some n from hn]
    simp
  . have hb := h.balanced
    apply Balanced.of_depth
    . rw [← hdepth]
      exact hb.depth
    . rw [← hflushes]
      exact hb.flushing

theorem finishComputation_eq {frame : ComputationFrame V} {frames : List (ComputationFrame V)} {node : Node V}
    (hframes : rt.frames = frame :: frames) (hobserver : frame.observer = id)
    (hnode : (leaveComputation rt id previousObserver previousOwner frames).node id = some node)
    (newValue : V) (changed : Bool)
    : finishComputation rt stack id previousObserver previousOwner newValue changed
        =
      runDisposal
        ((leaveComputation rt id previousObserver previousOwner frames).commitComputation id node
          frame newValue changed).1
        stack
        ((leaveComputation rt id previousObserver previousOwner frames).commitComputation id node
          frame newValue changed).2
        (.finish (.ok .unit)) := by
  unfold finishComputation
  split
  . next h => simp [hframes] at h
  . next frame' frames' h =>
    rw [hframes, List.cons.injEq] at h
    obtain ⟨rfl, rfl⟩ := h
    rw [if_pos hobserver]
    dsimp only
    rw [hnode]

theorem rollbackComputation_eq {frame : ComputationFrame V} {frames : List (ComputationFrame V)}
    (hframes : rt.frames = frame :: frames) (hobserver : frame.observer = id)
    (previousObserver previousOwner : Option NodeId) (kind : Kind)
    : rollbackComputation rt stack id previousObserver previousOwner kind
        =
      runDisposal
        ((leaveComputation rt id previousObserver previousOwner frames).collectAll
          frame.owned.reverse).1
        stack
        (((leaveComputation rt id previousObserver previousOwner frames).collectAll
          frame.owned.reverse).2 ++ frame.cleanups.reverse)
        (.rollback id kind) := by
  unfold rollbackComputation
  split
  . next h => simp [hframes] at h
  . next frame' frames' h =>
    rw [hframes, List.cons.injEq] at h
    obtain ⟨rfl, rfl⟩ := h
    rw [if_pos hobserver]

theorem good_finishComputation
    (ha : Sound.IsComputation a id previousObserver previousOwner) {control : Control V}
    (h : Good ⟨rt, a :: stack, control⟩)
    (hidle : ∀ n, rt.node id = some n → ∀ child ∈ n.owned, rt.disposableTreeIsBusy child = false)
    (observer : Option NodeId) (newValue : V) (changed : Bool)
    : Good (finishComputation { rt with observer := observer } stack id previousObserver
        previousOwner newValue changed) := by
  obtain ⟨frame, frames, n, hframes, hobserver, hn, hleft, hsound, -, hbalanced⟩ :=
    h.leave ha observer
  have hsources := h.sound.tracked frame (by simp [hframes])
  have ho := h.sound.ownership
  have hframes' : Runtime.frames { rt with observer := observer } = frame :: frames := hframes
  rw [finishComputation_eq hframes' hobserver hleft]
  unfold Runtime.commitComputation
  dsimp only
  have hlook := node_leaveComputation { rt with observer := observer } id previousObserver
    previousOwner frames
  generalize leaveComputation { rt with observer := observer } id previousObserver previousOwner
    frames = left at hleft hsound hbalanced hlook
  -- the frame takes the place of the last run
  have hinstall : Sound n.owned (left.installFrame id { n with running := false } frame newValue)
      stack := by
    refine hsound.installFrame hleft rfl hsources.1 (hobserver ▸ hsources.2)
      (ho.frame_nodup (by simp [hframes])) ?_ newValue
    intro c hc
    obtain ⟨m, hm, hmown, -⟩ := ho.frame (f := frame) (by simp [hframes]) hc
    rw [hobserver] at hmown
    rw [hlook, show Runtime.node { rt with observer := observer } c = some m from hm]
    split
    . exact ⟨_, rfl, hmown⟩
    . exact ⟨m, rfl, hmown⟩
  have hrest := Runtime.rest_installFrame left id { n with running := false } frame newValue
  have hdepth := congrArg Runtime.batchDepth hrest
  have hflush := congrArg Runtime.flushing hrest
  -- nothing busy is below the nodes of the last run
  have hquiet : ∀ c ∈ n.owned, ∀ j,
      Descends (left.installFrame id { n with running := false } frame newValue) j c →
      ¬ Busy (left.installFrame id { n with running := false } frame newValue) j := by
    intro c hc j hdesc hbusy
    have hself := h.sound.edges.irrefl hn
    have hback := @node_installFrame_place V left id { n with running := false } frame newValue
      hself (hobserver ▸ hsources.2)
    have hstatus := @status_installFrame V left id { n with running := false } frame newValue
      hself (hobserver ▸ hsources.2)
    have hold : ∀ {j m'}, (left.installFrame id { n with running := false } frame
        newValue).node j = some m' → ∃ m, rt.node j = some m ∧ m'.owner = m.owner ∧
          (m'.running = true → m.running = true) ∧ m'.updating = m.updating := by
      intro j m' hm'
      obtain ⟨m, hm, -, howner, -⟩ := hback hm'
      obtain ⟨m₁, hm₁, hsame⟩ := node_of_map_eq hstatus hm'
      rw [hm] at hm₁
      cases hm₁
      obtain ⟨-, hrunning, hupdating, -⟩ := Node.status_eq hsame
      rw [hlook] at hm
      split at hm
      . obtain ⟨k, hk, rfl⟩ := Option.map_eq_some_iff.mp hm
        refine ⟨k, hk, howner, ?_, hupdating.symm⟩
        rw [← hrunning]
        simp
      . exact ⟨m, hm, howner, by rw [hrunning]; exact fun h => h, hupdating.symm⟩
    have hdesc' : Descends rt j c := by
      refine Relation.ReflTransGen.mono ?_ _ _ hdesc
      rintro x p ⟨m', hm', hmown⟩
      obtain ⟨m, hm, hk, -⟩ := hold hm'
      exact ⟨m, hm, by rw [← hk, hmown]⟩
    apply h.sound.idle (hidle n hn c hc) hdesc'
    obtain ⟨m', hm', hb⟩ := hbusy
    obtain ⟨m, hm, -, hrun, hupd⟩ := hold hm'
    refine ⟨m, hm, ?_⟩
    rw [← hupd]
    exact hb.imp_right hrun
  -- its subscribers are told
  have hk : Keeps (left.installFrame id { n with running := false } frame newValue)
      ((left.installFrame id { n with running := false } frame newValue).notifySubscribers id
        { n with running := false } changed) := by
    unfold Runtime.notifySubscribers
    split
    . exact .markSubscribersWithForce _ _ _ _
    . exact .refl _
  have hqueue : Queue ((left.installFrame id { n with running := false } frame
      newValue).notifySubscribers id { n with running := false } changed) := by
    unfold Runtime.notifySubscribers
    split
    . exact hinstall.queue.markSubscribersWithForce _ _ _
    . exact hinstall.queue
  have hnotified := hinstall.keeps hk hqueue
  obtain ⟨gone, hcollects⟩ := Collects.collectAll n.owned.reverse hnotified.arena
    hnotified.edges hnotified.ownership.owned
  have hfinal := hnotified.collects hcollects (by simp) (by
    intro r hr j hdesc hbusy
    unfold Descends at hdesc
    rw [hk.parent_eq] at hdesc
    exact hquiet r (List.mem_reverse.mp hr) j hdesc (hk.busy_iff.mp hbusy))
  refine good_runDisposal hfinal ?_ (by simp)
  apply Balanced.of_depth
  . rw [hcollects.without.batchDepth, hk.batchDepth]
    exact hdepth.trans hbalanced.depth
  . rw [hcollects.without.flushing, hk.flushing,
      show (left.installFrame id { n with running := false } frame newValue).flushing
        = left.flushing from hflush]
    exact hbalanced.flushing

theorem good_rollbackComputation
    (ha : Sound.IsComputation a id previousObserver previousOwner) {control : Control V}
    (h : Good ⟨rt, a :: stack, control⟩) (observer : Option NodeId) (kind : Kind)
    : Good (rollbackComputation { rt with observer := observer } stack id previousObserver
        previousOwner kind) := by
  obtain ⟨frame, frames, n, hframes, hobserver, hn, hleft, hsound, hidle, hbalanced⟩ :=
    h.leave ha observer
  have hframes' : Runtime.frames { rt with observer := observer } = frame :: frames := hframes
  rw [rollbackComputation_eq hframes' hobserver]
  generalize leaveComputation { rt with observer := observer } id previousObserver previousOwner
    frames = left at hleft hsound hidle hbalanced
  obtain ⟨gone, hcollects⟩ := Collects.collectAll frame.owned.reverse hsound.arena
    hsound.edges hsound.ownership.owned
  have hfinal := hsound.collects hcollects (by simp) (by
    intro r hr
    exact hidle r (List.mem_reverse.mp hr))
  refine good_runDisposal hfinal ?_ (by simp)
  apply Balanced.of_depth
  . rw [hcollects.without.batchDepth]
    exact hbalanced.depth
  . rw [hcollects.without.flushing]
    exact hbalanced.flushing

end Reactive

end Pliego
