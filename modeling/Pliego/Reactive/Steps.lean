import Pliego.Reactive.Running

/-!
Every step of the machine keeps the runtime and the stack in agreement, so long as a computation that
publishes finds the nodes of its last run idle.
-/

namespace Pliego

namespace Reactive

open Config

variable {V : Type} {rt rt' : Runtime V} {stack : List (Activation V)} {a : Activation V}

variable {control : Control V} {id : NodeId} {c : Config V} {node : Node V}

theorem good_updateIfNecessary (h : Good ⟨rt, stack, control⟩) (id : NodeId)
    : Good (updateIfNecessary rt stack id) := by
  unfold updateIfNecessary
  split
  . exact h.control (by simp)
  . exact h.push trivial rfl (by simp)

theorem good_pull {frames : List PullFrame} {active : List NodeId}
    (h : Good ⟨rt, .pulling frames active :: stack, control⟩)
    : Good (pull rt stack frames active) := by
  have hbase : Good ⟨rt, stack, .next⟩ := h.neutral trivial rfl (by simp)
  unfold pull
  split
  . exact hbase.control (by simp)
  . next current frames =>
    dsimp only
    split
    . exact hbase.push trivial rfl (by simp)
    . split
      . exact hbase.push trivial rfl (by simp)
      . split
        . have hpushed : Good ⟨rt, .pulling frames (active.filter (· ≠ current.id)) :: stack, .next⟩ :=
            hbase.push trivial rfl (by simp)
          exact good_runComputation hpushed _
        . split
          . split
            . exact hbase.push trivial rfl (by simp)
            . split
              . exact hbase.control (by simp)
              . exact hbase.push trivial rfl (by simp)
          . have hk : Keeps rt (rt.modifyNode current.id (fun n => { n with color := .clean })) :=
              .modifyNode rt _ (fun _ => rfl)
            have hqueue := hbase.sound.queue.modifyNode current.id
              (f := fun n => { n with color := .clean }) (fun _ => ⟨rfl, rfl⟩)
            have hsettled : Good ⟨rt.modifyNode current.id (fun n => { n with color := .clean }),
                stack, .next⟩ :=
              hbase.keeps hk hqueue rfl (by simp)
            exact hsettled.push trivial rfl (by simp)

theorem good_flush {current : Option NodeId} {executions max : Nat} {panicked : Bool} {result : Outcome (Reply V)}
    (h : Good ⟨rt, .flushing current executions max panicked result :: stack, control⟩)
    : Good (flush rt stack executions max panicked result) := by
  have ha : (Activation.flushing current executions max panicked result).Neutral := trivial
  have hsound : Sound [] rt stack := (sound_neutral ha).mp h.sound
  have hdepth : rt.batchDepth = depthOf stack := h.balanced.depth
  have hflushing : flushesOf stack + 1 = if rt.flushing then 1 else 0 := h.balanced.flushing
  have hflag : rt.flushing = true := by
    cases hf : rt.flushing with
    | true => rfl
    | false => simp [hf] at hflushing
  have hnone : flushesOf stack = 0 := by simpa [hflag] using hflushing
  have hdeferred : Deferred rt stack := h.deferred
  -- the flush that ends leaves nothing queued
  have hend : ∀ {rt' : Runtime V} {control' : Control V}, Keeps rt rt' → Queue rt' →
      rt'.pending = [] → control' ≠ .aborted →
      Good ⟨{ rt' with flushing := false }, stack, control'⟩ := by
    intro rt' control' hk hqueue hpending hcontrol
    have hsound' : Sound [] rt' stack := hsound.keeps hk hqueue
    refine ⟨hsound'.withBatch rfl rfl rfl rfl rfl, ⟨?_, hnone, ?_⟩, ?_, hcontrol⟩
    . exact hk.batchDepth.trans hdepth
    . intro hne
      exact absurd hpending hne
    . have hd := hdeferred.sameShape hk.toSameShape hk.deferred
      exact hd.sameShape (.of_eq rfl rfl) rfl
  have hpop := Keeps.popPending rt
  have hqueue := hsound.queue.popPending
  unfold flush
  split
  . next rt' hpopped =>
    rw [hpopped] at hpop hqueue
    refine hend hpop hqueue ?_ (by simp)
    cases hpending : rt.pending with
    | nil =>
      rw [Queue.popPending_nil hpending] at hpopped
      cases hpopped
      exact hpending
    | cons id rest =>
      rw [hsound.queue.popPending_cons hpending] at hpopped
      cases hpopped
  . next effect rt' hpopped =>
    rw [hpopped] at hpop hqueue
    split
    . have hclear := (hqueue.rearmDiscardedEffect effect).clearPending
      exact hend (hpop.trans (.abortPending rt' effect)) hclear.1 hclear.2 (by simp)
    . have hgood : Good ⟨rt', .flushing (some effect) (executions + 1) max panicked result :: stack,
          .next⟩ := by
        refine ⟨?_, ⟨?_, ?_, ?_⟩, ?_, by simp⟩
        . have hkept := hsound.keeps hpop hqueue
          exact (sound_neutral (a := .flushing _ _ _ _ _) trivial).mpr hkept
        . exact hpop.batchDepth.trans hdepth
        . rw [hpop.flushing]
          exact hflushing
        . intro _
          right
          rw [hpop.flushing]
          exact hflag
        . have hd : Deferred rt' stack := hdeferred.sameShape hpop.toSameShape hpop.deferred
          exact hd
      exact good_updateIfNecessary hgood effect

theorem Good.enterBatch (h : Good ⟨rt, stack, control⟩)
    : Sound [] (Config.enterBatch rt) stack ∧ Balanced (Config.enterBatch rt) stack 1 := by
  refine ⟨h.sound.withBatch rfl rfl rfl rfl rfl, .of_depth ?_ h.balanced.flushing⟩
  have := h.balanced.depth
  exact congrArg (· + 1) this

theorem Sound.collectDisposal (h : Sound [] rt stack) (hidle : rt.disposableTreeIsBusy id = false)
    : Sound [] (rt.collectDisposal id).1 stack := by
  obtain ⟨gone, hcollects⟩ := Collects.collectDisposal id h.arena h.edges h.ownership.owned
  apply h.collects hcollects (by simp)
  intro r hr j hdesc
  rw [List.mem_singleton] at hr
  subst hr
  exact h.idle hidle hdesc

theorem Balanced.collectDisposal {extra : Nat} (hbalanced : Balanced rt stack extra) (id : NodeId)
    (h : Sound [] rt stack)
    : Balanced (rt.collectDisposal id).1 stack extra := by
  obtain ⟨gone, hcollects⟩ := Collects.collectDisposal id h.arena h.edges h.ownership.owned
  have hw := hcollects.without
  refine ⟨hw.batchDepth.trans hbalanced.depth, ?_, ?_⟩
  . rw [hw.flushing]
    exact hbalanced.flushing
  . rw [hw.batchDepth, hw.flushing]
    intro hne
    apply hbalanced.wakes
    intro hnil
    apply hne
    rw [hw.pending, hnil]
    rfl

theorem disposableTreeIsBusy_congr (harena : rt'.toArena = rt.toArena) (id : NodeId)
    : rt'.disposableTreeIsBusy id = rt.disposableTreeIsBusy id := by
  have hgo : ∀ fuel, Runtime.disposableTreeIsBusy.go rt' fuel = Runtime.disposableTreeIsBusy.go rt fuel := by
    intro fuel
    induction fuel with
    | zero => rfl
    | succ fuel ih =>
      funext id
      unfold Runtime.disposableTreeIsBusy.go Runtime.node
      rw [harena, ih]
  unfold Runtime.disposableTreeIsBusy
  rw [hgo, harena]

theorem good_disposeNode (h : Good ⟨rt, stack, control⟩) (id : NodeId)
    : Good (disposeNode rt stack id) := by
  obtain ⟨hsound, hbalanced⟩ := h.enterBatch
  unfold disposeNode
  split
  . next hfree =>
    have hidle : (Config.enterBatch rt).disposableTreeIsBusy id = false := by
      unfold Runtime.assertDisposableTree at hfree
      rw [Bool.not_eq_true'] at hfree
      have hsame : (Config.enterBatch rt).disposableTreeIsBusy id = rt.disposableTreeIsBusy id :=
        by apply disposableTreeIsBusy_congr; rfl
      exact hsame.trans hfree
    exact good_runDisposal (hsound.collectDisposal hidle) (hbalanced.collectDisposal id hsound) (by simp)
  . exact h.control (by simp)

theorem good_disposeOwner (h : Good ⟨rt, stack, control⟩) (id : NodeId)
    : Good (disposeOwner rt stack id) := by
  obtain ⟨hsound, hbalanced⟩ := h.enterBatch
  unfold disposeOwner
  dsimp only
  generalize Config.enterBatch rt = rt at hsound hbalanced
  split
  . exact good_runDisposal hsound hbalanced (by simp)
  . split
    . -- the request is noted, and looked at when the drain comes by
      unfold Runtime.deferOwnerDisposal
      split
      . exact good_runDisposal hsound hbalanced (by simp)
      . split
        . exact good_runDisposal hsound hbalanced (by simp)
        . have hk : Keeps rt (rt.modifyNode id (fun n => { n with disposeRequested := true })) :=
            .modifyNode rt id (fun _ => rfl)
          have hsound' := hsound.keeps hk (hsound.queue.modifyNode id (fun _ => ⟨rfl, rfl⟩))
          refine good_runDisposal (hsound'.withBatch rfl rfl rfl rfl rfl) ?_ (by simp)
          exact ⟨hbalanced.depth, hbalanced.flushing, hbalanced.wakes⟩
    . next hidle =>
      rw [Bool.not_eq_true] at hidle
      exact good_runDisposal (hsound.collectDisposal hidle) (hbalanced.collectDisposal id hsound)
        (by simp)

theorem busy_of_disposableTreeIsBusy (howned : OwnedInverse rt) (h : rt.disposableTreeIsBusy id = true)
    : ∃ j, Busy rt j ∧ Descends rt j id := by
  have hgo : ∀ fuel id, Runtime.disposableTreeIsBusy.go rt fuel id = true →
      ∃ j, Busy rt j ∧ Descends rt j id := by
    intro fuel
    induction fuel with
    | zero =>
      intro id h
      simp [Runtime.disposableTreeIsBusy.go] at h
    | succ fuel ih =>
      intro id h
      unfold Runtime.disposableTreeIsBusy.go at h
      split at h
      . cases h
      . next n hn =>
        simp only [Bool.or_eq_true, List.any_eq_true] at h
        cases h with
        | inl h => exact ⟨id, ⟨n, hn, h⟩, .refl⟩
        | inr h =>
          obtain ⟨child, hchild, hbusy⟩ := h
          obtain ⟨j, hj, hdesc⟩ := ih child hbusy
          obtain ⟨m, hm, hparent⟩ := howned hn hchild
          exact ⟨j, hj, hdesc.tail ⟨m, hm, hparent⟩⟩
  exact hgo _ id h

theorem takeReadyDeferredDisposal_go (howned : OwnedInverse rt) (queue kept : List NodeId)
    (hkept : ∀ d ∈ kept, ∃ j, Busy rt j ∧ Descends rt j d)
    : (∃ deferred, Runtime.takeReadyDeferredDisposal.go rt queue kept
          = (none, { rt with deferredDisposals := deferred }) ∧
        ∀ d ∈ deferred, ∃ j, Busy rt j ∧ Descends rt j d) ∨
      (∃ id deferred, rt.disposableTreeIsBusy id = false ∧
        let cleared : Runtime V :=
          { rt.modifyNode id (fun n => { n with disposeRequested := false }) with
            deferredDisposals := deferred }
        Runtime.takeReadyDeferredDisposal.go rt queue kept
          = (some (cleared.collectDisposal id).2, (cleared.collectDisposal id).1)) := by
  induction queue generalizing kept with
  | nil => exact .inl ⟨kept, rfl, hkept⟩
  | cons id rest ih =>
    unfold Runtime.takeReadyDeferredDisposal.go
    split
    . exact ih kept hkept
    . split
      . exact ih kept hkept
      . split
        . next hbusy =>
          apply ih (kept ++ [id])
          intro d hd
          rw [List.mem_append, List.mem_singleton] at hd
          cases hd with
          | inl hd => exact hkept d hd
          | inr hd =>
            rw [hd]
            exact busy_of_disposableTreeIsBusy howned hbusy
        . next hidle =>
          rw [Bool.not_eq_true] at hidle
          exact .inr ⟨id, rest ++ kept, hidle, rfl⟩

theorem good_drain {panicked : Bool} {previous : Option NodeId} {after : After V}
    (h : Good ⟨rt, .disposal [] panicked previous after :: stack, control⟩)
    (hstep : iterate rt (.disposal [] panicked previous after :: stack) = some c)
    : Good c := by
  have hsound := h.sound
  have hafter : after ≠ .unwind := hsound.saved.2.1
  unfold iterate Runtime.takeReadyDeferredDisposal at hstep
  obtain ⟨deferred, hgo, hbusy⟩ | ⟨id, deferred, hidle, hgo⟩ :=
    takeReadyDeferredDisposal_go hsound.ownership.owned rt.deferredDisposals [] (by simp)
  . rw [hgo] at hstep
    cases hstep
    have hshown : Sound [] { rt with observer := previous } stack :=
      hsound.showObserver (.inr ⟨_, _, _, rfl⟩)
    refine good_finishDisposal (hshown.withBatch rfl rfl rfl rfl rfl) ?_ (.inr ?_) hafter
    . exact ⟨h.balanced.depth, h.balanced.flushing, h.balanced.wakes⟩
    . intro d hd
      exact hbusy d hd
  . rw [hgo] at hstep
    cases hstep
    have hk : Keeps rt (rt.modifyNode id (fun n => { n with disposeRequested := false })) :=
      .modifyNode rt id (fun _ => rfl)
    have hkept := hsound.keeps hk (hsound.queue.modifyNode id (fun _ => ⟨rfl, rfl⟩))
    have hcleared : Sound [] { rt.modifyNode id (fun n => { n with disposeRequested := false }) with
        deferredDisposals := deferred } (.disposal [] panicked previous after :: stack) :=
      hkept.withBatch rfl rfl rfl rfl rfl
    have hbalanced : Balanced { rt.modifyNode id (fun n => { n with disposeRequested := false }) with
        deferredDisposals := deferred } (.disposal [] panicked previous after :: stack) 0 :=
      ⟨h.balanced.depth, h.balanced.flushing, h.balanced.wakes⟩
    generalize hrt : ({ rt.modifyNode id (fun n => { n with disposeRequested := false }) with
        deferredDisposals := deferred } : Runtime V) = cleared at hcleared hbalanced
    obtain ⟨gone, hcollects⟩ := Collects.collectDisposal id hcleared.arena hcleared.edges
      hcleared.ownership.owned
    have hfree : ∀ r ∈ [id], ∀ j, Descends cleared j r → ¬ Busy cleared j := by
      intro r hr j hdesc hbusy
      rw [List.mem_singleton] at hr
      subst hr hrt
      have hdesc' : Relation.ReflTransGen (Parent (rt.modifyNode r _)) j r := hdesc
      rw [hk.parent_eq] at hdesc'
      exact hsound.idle hidle hdesc' (hk.busy_iff.mp hbusy)
    have hretired := hcleared.collects hcollects (by simp) hfree
    have hb := hbalanced.collectDisposal id hcleared
    refine ⟨?_, ⟨hb.depth, hb.flushing, hb.wakes⟩, .inl rfl, by simp⟩
    exact hretired.sameShape (.of_eq rfl rfl) hretired.queue rfl rfl rfl hretired.saved
      hretired.observer rfl

theorem Good.disposal {cleanups cleanups' : List (Prog V)} {panicked panicked' : Bool}
    {previous : Option NodeId} {after : After V} {control control' : Control V}
    (h : Good ⟨rt, .disposal cleanups panicked previous after :: stack, control⟩) (hcontrol : control' ≠ .aborted)
    : Good ⟨rt, .disposal cleanups' panicked' previous after :: stack, control'⟩ := by
  refine ⟨?_, ⟨h.balanced.depth, h.balanced.flushing, h.balanced.wakes⟩, .inl rfl, hcontrol⟩
  exact h.sound.sameShape (.of_eq rfl rfl) h.sound.queue rfl rfl rfl h.sound.saved h.sound.observer
    rfl

theorem good_iterate (h : Good ⟨rt, stack, control⟩) (hstep : iterate rt stack = some c)
    : Good c := by
  unfold iterate at hstep
  split at hstep
  . cases hstep
    exact h.disposal (by simp)
  . exact good_drain h hstep
  . cases hstep
    exact good_pull h
  . cases hstep
    exact good_flush h
  . cases hstep

def Node.unowned (n : Node V) : Node V := { n with owned := [] }

def ComputationFrame.unowned (f : ComputationFrame V) : ComputationFrame V := { f with owned := [] }

/--
A node has been allocated: all else is as it was, but for the list that its owner keeps.
-/
structure Added (rt : Runtime V) (id : NodeId) (node : Node V) (rt' : Runtime V) : Prop where
  spent : ∀ j, rt.Spent j → rt'.Spent j ∧ j ≠ id
  dead : rt.node id = none
  node : rt'.node id = some node
  other : ∀ j, j ≠ id → (rt'.node j).map Node.unowned = (rt.node j).map Node.unowned
  frames : rt'.frames.map ComputationFrame.unowned = rt.frames.map ComputationFrame.unowned
  observer : rt'.observer = rt.observer
  owner : rt'.owner = rt.owner
  pending : rt'.pending = rt.pending
  flushing : rt'.flushing = rt.flushing
  batchDepth : rt'.batchDepth = rt.batchDepth
  deferred : rt'.deferredDisposals = rt.deferredDisposals

theorem Allocates.added (h : Allocates rt id node rt')
    : Added rt id node rt' where
  spent := h.spent
  dead := h.dead
  node := by
    rw [h.node]
    simp
  other := by
    intro j hj
    rw [h.node]
    simp [hj]
  frames := by
    have hframes := congrArg Runtime.frames h.rest
    exact congrArg (List.map ComputationFrame.unowned) hframes
  observer := by
    have := congrArg Runtime.observer h.rest
    exact this
  owner := by
    have := congrArg Runtime.owner h.rest
    exact this
  pending := by
    have := congrArg Runtime.pending h.rest
    exact this
  flushing := by
    have := congrArg Runtime.flushing h.rest
    exact this
  batchDepth := by
    have := congrArg Runtime.batchDepth h.rest
    exact this
  deferred := by
    have := congrArg Runtime.deferredDisposals h.rest
    exact this

theorem added_addRootNode (h : Sound [] rt stack) (node : Node V)
    : rt.addRootNode node = (none, rt) ∨ ∃ id rt',
      rt.addRootNode node = (some id, rt') ∧ Added rt id { node with owner := none } rt' := by
  unfold Runtime.addRootNode
  split
  . exact .inl rfl
  . next id rt' halloc => exact .inr ⟨id, rt', rfl, (allocates_of_allocateNode h.arena halloc).added⟩

theorem added_addNode (h : Sound [] rt stack) (node : Node V)
    : rt.addNode node = (none, rt) ∨ ∃ id rt' owner,
      rt.addNode node = (some id, rt') ∧ Added rt id { node with owner := owner } rt' := by
  unfold Runtime.addNode
  dsimp only
  split
  . exact .inl rfl
  . next id rt' halloc =>
    have ha := (allocates_of_allocateNode h.arena halloc).added
    have hrest := congrArg Runtime.frames (allocates_of_allocateNode h.arena halloc).rest
    have hframes : rt'.frames = rt.frames := hrest
    right
    split
    . exact ⟨id, rt', _, rfl, ha⟩
    . next owner howner =>
      simp only [Option.filter_eq_some_iff] at howner
      obtain ⟨frame, frames, hrt, hobserver, -⟩ := h.owner_live howner.1
      rw [hframes, hrt]
      dsimp only
      rw [if_pos hobserver]
      refine ⟨id, _, _, rfl, ha.spent, ha.dead, ha.node, ha.other, ?_, ha.observer, ha.owner,
        ha.pending, ha.flushing, ha.batchDepth, ha.deferred⟩
      rw [hrt]
      rfl

theorem added_addOwnedNode (h : Sound [] rt stack) (node : Node V) (owner : NodeId)
    : rt.addOwnedNode node owner = (none, rt) ∨ ∃ id rt',
      rt.addOwnedNode node owner = (some id, rt') ∧
        Added rt id { node with owner := some owner } rt' := by
  unfold Runtime.addOwnedNode
  split
  . exact .inl rfl
  . next ownerNode hownerNode =>
    split
    . split
      . exact .inl rfl
      . next id rt' halloc =>
        have ha := (allocates_of_allocateNode h.arena halloc).added
        have hne : id ≠ owner := by
          rintro rfl
          have := ha.dead
          rw [hownerNode] at this
          cases this
        refine .inr ⟨id, _, rfl, ?_, ha.dead, ?_, ?_, ha.frames, ha.observer, ha.owner, ha.pending,
          ha.flushing, ha.batchDepth, ha.deferred⟩
        . intro j hj
          exact ⟨(ha.spent j hj).1.modify, (ha.spent j hj).2⟩
        . rw [Runtime.node_modifyNode, if_neg hne]
          exact ha.node
        . intro j hj
          rw [Runtime.node_modifyNode, ← ha.other j hj]
          split
          . rw [Option.map_map]
            rfl
          . rfl
    . exact .inl rfl

theorem Added.forth (h : Added rt id node rt') {j : NodeId} {n : Node V} (hn : rt.node j = some n)
    : ∃ n', rt'.node j = some n' ∧ n'.unowned = n.unowned := by
  have hj : j ≠ id := by
    rintro rfl
    rw [h.dead] at hn
    cases hn
  have := h.other j hj
  rw [hn, Option.map_some] at this
  exact Option.map_eq_some_iff.mp this

theorem good_added {control control' : Control V}
    (h : Good ⟨rt, stack, control⟩) (hadded : Added rt id node rt') (hsound : Sound [] rt' stack)
    (hcontrol : control' ≠ .aborted)
    : Good ⟨rt', stack, control'⟩ := by
  refine ⟨hsound, ⟨?_, ?_, ?_⟩, ?_, hcontrol⟩
  . exact hadded.batchDepth.trans h.balanced.depth
  . rw [hadded.flushing]
    exact h.balanced.flushing
  . rw [hadded.batchDepth, hadded.flushing, hadded.pending]
    exact h.balanced.wakes
  . apply Deferred.mono h.deferred (fun h => h) hadded.deferred
    . rintro j ⟨n, hn, hbusy⟩
      obtain ⟨n', hn', hsame⟩ := hadded.forth hn
      have hrun := congrArg Node.running hsame
      have hupd := congrArg Node.updating hsame
      dsimp only [Node.unowned] at hrun hupd
      exact ⟨n', hn', by rw [hrun, hupd]; exact hbusy⟩
    . rintro j p ⟨n, hn, hown⟩
      obtain ⟨n', hn', hsame⟩ := hadded.forth hn
      have hown' := congrArg Node.owner hsame
      exact ⟨n', hn', hown'.trans hown⟩

theorem good_installed {added : Option NodeId × Runtime V} (h : Good ⟨rt, stack, control⟩)
    (hadded : added = (none, rt) ∨ ∃ id rt' node, added = (some id, rt') ∧ Added rt id node rt')
    (hsound : Sound [] added.2 stack)
    : Good (Config.added added stack) ∧ Good (installed added stack) := by
  obtain rfl | ⟨id, rt', node, rfl, hadded⟩ := hadded
  . exact ⟨h.control (by simp), h.control (by simp)⟩
  . have hgood : Good ⟨rt', stack, .ret (.ok (.id id))⟩ := good_added h hadded hsound (by simp)
    refine ⟨hgood, ?_⟩
    have hpushed : Good ⟨rt', .installing id :: stack, .next⟩ := hgood.push trivial rfl (by simp)
    exact good_runComputation hpushed id

theorem fresh_ownerNode : (ownerNode : Node V).Fresh :=
  ⟨rfl, rfl, rfl, rfl, rfl, rfl, by simp [ownerNode]⟩

theorem fresh_signalNode (value : V) : (signalNode value).Fresh :=
  ⟨rfl, rfl, rfl, rfl, rfl, rfl, by simp [signalNode]⟩

theorem fresh_memoNode (f : Prog V) (eq : EqFn V (Prog V)) : (memoNode f eq).Fresh :=
  ⟨rfl, rfl, rfl, rfl, rfl, rfl, by simp [memoNode]⟩

theorem fresh_effectNode (f : Prog V) : (effectNode f).Fresh :=
  ⟨rfl, rfl, rfl, rfl, rfl, rfl, by simp [effectNode]⟩

theorem good_addNode (h : Good ⟨rt, stack, control⟩) (hfresh : node.Fresh) (hkind : node.kind ≠ .owner)
    : Good (added (rt.addNode node) stack) ∧ Good (installed (rt.addNode node) stack) := by
  apply good_installed h _ (h.sound.addNode hfresh hkind)
  obtain heq | ⟨id, rt', owner, heq, hadded⟩ := added_addNode h.sound node
  . exact .inl heq
  . exact .inr ⟨id, rt', _, heq, hadded⟩

theorem good_addOwnedNode (h : Good ⟨rt, stack, control⟩) (hfresh : node.Fresh) (owner : NodeId)
    : Good (added (rt.addOwnedNode node owner) stack) ∧
      Good (installed (rt.addOwnedNode node owner) stack) := by
  apply good_installed h _ (h.sound.addOwnedNode hfresh owner)
  obtain heq | ⟨id, rt', heq, hadded⟩ := added_addOwnedNode h.sound node owner
  . exact .inl heq
  . exact .inr ⟨id, rt', _, heq, hadded⟩

theorem track_eq {source : NodeId} (h : rt.track source = some rt')
    : ∃ frames, rt' = { rt with frames := frames } := by
  unfold Runtime.track at h
  split at h
  . cases h
    exact ⟨_, rfl⟩
  . split at h
    . cases h
      exact ⟨_, rfl⟩
    . split at h
      . cases h
      . split at h
        . split at h
          . cases h
            exact ⟨_, rfl⟩
          . cases h
            exact ⟨_, rfl⟩
        . cases h

theorem onCleanup_eq {f : Prog V} (h : onCleanup rt f = some rt')
    : ∃ frames, rt' = { rt with frames := frames } := by
  unfold onCleanup at h
  split at h
  . cases h
    exact ⟨_, rfl⟩
  . split at h
    . cases h
    . split at h
      . cases h
        exact ⟨_, rfl⟩
      . cases h

theorem Good.frames {control control' : Control V} (h : Good ⟨rt, stack, control⟩)
    (hk : Keeps rt rt') (hrt : ∃ frames, rt' = { rt with frames := frames }) (hcontrol : control' ≠ .aborted)
    : Good ⟨rt', stack, control'⟩ := by
  obtain ⟨frames, rfl⟩ := hrt
  exact h.keeps hk (h.sound.queue.of_eq (fun _ => rfl) rfl) rfl hcontrol

theorem resolve_eq_some {kind : Kind} {n : Node V}
    : rt.resolve kind id = some n ↔ rt.node id = some n ∧ n.kind = kind := by
  unfold Runtime.resolve
  split
  . next h => simp [h]
  . next node h =>
    rw [h, Option.some.injEq]
    split
    . next hkind =>
      rw [Option.some.injEq]
      constructor
      . rintro rfl
        exact ⟨rfl, hkind⟩
      . exact fun h => h.1
    . next hkind =>
      constructor
      . intro h
        cases h
      . rintro ⟨rfl, h⟩
        exact absurd h hkind

theorem isAlive_spec {owner : NodeId} (h : isAlive rt owner = true)
    : ∃ o, rt.node owner = some o ∧ o.kind = .owner := by
  unfold isAlive at h
  split at h
  . cases h
  . next o ho => exact ⟨o, resolve_eq_some.mp ho⟩

theorem good_adoptEffect {control control' : Control V} (h : Good ⟨rt, stack, control⟩)
    (owner effect : NodeId) (hcontrol : control' ≠ .aborted)
    : Good ⟨(adoptEffect rt owner effect).1, stack, control'⟩ := by
  unfold adoptEffect
  split
  . next halive =>
    split
    . exact h.control hcontrol
    . next resource hresource =>
      split
      . exact h.control hcontrol
      . split
        . split
          . exact h.control hcontrol
          . exact h.control hcontrol
        . next hunowned =>
          obtain ⟨o, ho, hokind⟩ := isAlive_spec halive
          obtain ⟨he, hekind⟩ := resolve_eq_some.mp hresource
          have hsound := h.sound.adopt ho he hokind hekind hunowned
          refine ⟨hsound, ⟨h.balanced.depth, h.balanced.flushing, h.balanced.wakes⟩, ?_, hcontrol⟩
          have hgiven := fun j =>
            Runtime.node_modifyNode rt effect j (fun n => { n with owner := some owner })
          have hlisted := fun j => Runtime.node_modifyNode
            (rt.modifyNode effect (fun n => { n with owner := some owner })) owner j
            (fun n => { n with owned := n.owned ++ [effect] })
          refine Deferred.mono h.deferred (fun h => h) rfl ?_ ?_
          . rintro j ⟨n, hn, hbusy⟩
            obtain ⟨n₁, hn₁, hsame⟩ := node_of_map_eq
              (fun j => (map_of_flags (g := Node.status) hgiven (fun _ => rfl) j).symm) hn
            obtain ⟨n', hn', hsame'⟩ := node_of_map_eq
              (fun j => (map_of_flags (g := Node.status) hlisted (fun _ => rfl) j).symm) hn₁
            obtain ⟨-, hrunning, hupdating, -⟩ := Node.status_eq (hsame'.trans hsame)
            exact ⟨n', hn', by rwa [hrunning, hupdating]⟩
          . rintro j p ⟨n, hn, hown⟩
            have hne : j ≠ effect := by
              rintro rfl
              rw [he] at hn
              cases hn
              rw [hunowned] at hown
              cases hown
            rw [parent_congr (map_of_flags (g := Node.owner) hlisted (fun _ => rfl)) (fun h => h)]
            exact ⟨n, by rw [hgiven, if_neg hne, hn], hown⟩
  . exact h.control hcontrol

theorem writable_spec {value : V} (h : writable rt id = some value)
    : rt.assertSignalWriteAllowed id = true ∧ ∃ n, rt.node id = some n ∧ n.kind = .signal ∧
      n.updating = false ∧ n.value = some value := by
  unfold writable at h
  split at h
  . next hallowed =>
    split at h
    . cases h
    . next n hn =>
      split at h
      . cases h
      . next hupdating =>
        obtain ⟨hn, hkind⟩ := resolve_eq_some.mp hn
        exact ⟨hallowed, n, hn, hkind, by simpa using hupdating, h⟩
  . cases h

theorem good_call (h : Good ⟨rt, stack, control⟩) (c : Call V (Prog V))
    : Good (Config.call rt stack c) := by
  have hret : ∀ outcome, Good ⟨rt, stack, .ret outcome⟩ := fun _ => h.control (by simp)
  cases c with
  | newSignal value => exact (good_addNode h (fresh_signalNode value) (by simp [signalNode])).1
  | newMemo f eq => exact (good_addNode h (fresh_memoNode f eq) (by simp [memoNode])).1
  | newEffect f => exact (good_addNode h (fresh_effectNode f) (by simp [effectNode])).2
  | newOwner =>
    apply (good_installed h _ (h.sound.addRootNode fresh_ownerNode)).1
    obtain heq | ⟨id, rt', heq, hadded⟩ := added_addRootNode h.sound (ownerNode : Node V)
    . exact .inl heq
    . exact .inr ⟨id, rt', _, heq, hadded⟩
  | child owner =>
    dsimp only [Config.call]
    split
    . exact (good_addOwnedNode h fresh_ownerNode owner).1
    . exact hret _
  | ownerOnCleanup owner f =>
    dsimp only [Config.call]
    split
    . have hk : Keeps rt (rt.modifyNode owner (fun n => { n with cleanups := n.cleanups ++ [f] })) :=
        .modifyNode rt owner (fun _ => rfl)
      exact h.keeps hk (h.sound.queue.modifyNode owner (fun _ => ⟨rfl, rfl⟩)) rfl (by simp)
    . exact hret _
  | ownerSignal owner value =>
    dsimp only [Config.call]
    split
    . exact (good_addOwnedNode h (fresh_signalNode value) owner).1
    . exact hret _
  | ownerMemo owner f eq =>
    dsimp only [Config.call]
    split
    . exact (good_addOwnedNode h (fresh_memoNode f eq) owner).1
    . exact hret _
  | ownerEffect owner f =>
    dsimp only [Config.call]
    split
    . exact (good_addOwnedNode h (fresh_effectNode f) owner).2
    . exact hret _
  | adoptEffect owner effect => exact good_adoptEffect h owner effect (by simp)
  | ownerDispose owner => exact good_disposeOwner h owner
  | isDisposed owner => exact hret _
  | get signal =>
    dsimp only [Config.call]
    split
    . exact hret _
    . split
      . exact hret _
      . next rt' htrack => exact h.frames (.track htrack) (track_eq htrack) (by simp)
  | getUntracked signal => exact hret _
  | tryGet signal =>
    dsimp only [Config.call]
    split
    . exact hret _
    . exact hret _
  | set signal value =>
    dsimp only [Config.call]
    split
    . exact hret _
    . obtain ⟨hsound, hbalanced⟩ := h.enterBatch
      have hk := Keeps.publish (Config.enterBatch rt) signal value
      apply good_finishBatch
      . exact hsound.keeps hk (hsound.queue.publish signal value)
      . exact .of_depth (hk.batchDepth.trans hbalanced.depth) (by
          rw [hk.flushing]
          exact hbalanced.flushing)
      . have hd : Deferred (Config.enterBatch rt) stack :=
          Deferred.sameShape h.deferred (.of_eq rfl rfl) rfl
        exact hd.sameShape hk.toSameShape hk.deferred
  | update signal f =>
    dsimp only [Config.call]
    split
    . exact hret _
    . next value hwritable =>
      obtain ⟨-, n, hn, hkind, hupdating, -⟩ := writable_spec hwritable
      refine ⟨?_, ⟨?_, h.balanced.flushing, fun _ => .inl (Nat.succ_pos _)⟩, ?_, by simp⟩
      . exact h.sound.beginUpdate hn hkind hupdating (h.sound.arena.modify _ _)
          (fun j => Runtime.node_modifyNode _ signal j _) rfl rfl rfl rfl
      . have := h.balanced.depth
        exact congrArg (· + 1) this
      . refine Deferred.mono h.deferred (fun h => h) rfl ?_ ?_
        . rintro j ⟨m, hm, hbusy⟩
          unfold Busy
          rw [Runtime.node_modifyNode, show (Config.enterBatch rt).node j = some m from hm]
          split
          . exact ⟨_, rfl, .inl rfl⟩
          . exact ⟨m, rfl, hbusy⟩
        . rintro j p ⟨m, hm, hown⟩
          unfold Parent
          rw [Runtime.node_modifyNode, show (Config.enterBatch rt).node j = some m from hm]
          split
          . exact ⟨_, rfl, hown⟩
          . exact ⟨m, rfl, hown⟩
  | memoGet memo =>
    dsimp only [Config.call]
    split
    . exact hret _
    . have hpushed : Good ⟨rt, .reading memo :: stack, .next⟩ := h.push trivial rfl (by simp)
      exact good_updateIfNecessary hpushed memo
  | memoTryGet memo =>
    dsimp only [Config.call]
    split
    . exact hret _
    . have hpushed : Good ⟨rt, .tryReading memo :: stack, .next⟩ := h.push trivial rfl (by simp)
      exact good_updateIfNecessary hpushed memo
  | dispose id =>
    dsimp only [Config.call]
    split
    . exact good_disposeNode h id
    . obtain ⟨hsound, hbalanced⟩ := h.enterBatch
      exact good_runDisposal hsound hbalanced (by simp)
  | onCleanup f =>
    dsimp only [Config.call]
    split
    . exact hret _
    . next rt' hcleanup => exact h.frames (.onCleanup hcleanup) (onCleanup_eq hcleanup) (by simp)
  | untrack f =>
    dsimp only [Config.call]
    exact ⟨h.sound.hideObserver (.inl rfl), ⟨h.balanced.depth, h.balanced.flushing,
      h.balanced.wakes⟩, Deferred.sameShape h.deferred (.of_eq rfl rfl) rfl, by simp⟩

theorem good_endUpdate (h : Good ⟨rt, .updating id :: stack, control⟩) (hk : Keeps rt rt') (hqueue : Queue rt')
    {result : Outcome (Reply V)}
    : Good (runDisposal (rt'.modifyNode id (fun n => { n with updating := false })) stack []
        (.finish result)) := by
  have hsound := h.sound.keeps hk hqueue
  obtain ⟨n, hn, -⟩ := (hsound.updating id).mpr (by simp [updatingIds])
  refine good_runDisposal ?_ (.of_depth ?_ ?_) (by simp)
  . exact hsound.endUpdate hn (hsound.arena.modify _ _)
      (fun j => Runtime.node_modifyNode _ id j _) rfl rfl rfl rfl
  . exact hk.batchDepth.trans h.balanced.depth
  . rw [Runtime.flushing_modifyNode, hk.flushing]
    exact h.balanced.flushing

theorem good_resume {outcome : Outcome V} (h : Good ⟨rt, stack, .done outcome⟩)
    (hidle : retiresIdle ⟨rt, stack, .done outcome⟩ = true) (hstep : resume rt stack outcome = some c)
    : Good c := by
  -- what a computation that is about to publish has kept
  have hfree : ∀ {id}, committing ⟨rt, stack, .done outcome⟩ = some id → ∀ n, rt.node id = some n →
      ∀ child ∈ n.owned, rt.disposableTreeIsBusy child = false := by
    intro id hid n hn child hchild
    unfold retiresIdle at hidle
    simp only [hid, hn, List.all_eq_true, Bool.not_eq_true'] at hidle
    exact hidle child hchild
  unfold resume at hstep
  split at hstep
  . next previous stack =>
    have hgood : ∀ {control}, control ≠ .aborted →
        Good ⟨{ rt with observer := previous }, stack, control⟩ := by
      intro control hcontrol
      exact ⟨h.sound.showObserver (.inl rfl), ⟨h.balanced.depth, h.balanced.flushing,
        h.balanced.wakes⟩, Deferred.sameShape h.deferred (.of_eq rfl rfl) rfl, hcontrol⟩
    split at hstep
    . cases hstep
      exact hgood (by simp)
    . cases hstep
      exact hgood (by simp)
  . next id previousObserver previousOwner kind prevValue eq stack =>
    have ha : Sound.IsComputation (.computing id previousObserver previousOwner kind prevValue eq)
        id previousObserver previousOwner := .inl ⟨kind, prevValue, eq, rfl⟩
    split at hstep
    . cases hstep
      exact good_rollbackComputation ha h rt.observer kind
    . next value =>
      split at hstep
      . cases hstep
        have hsound := h.sound
        refine ⟨?_, ⟨h.balanced.depth, h.balanced.flushing, h.balanced.wakes⟩,
          Deferred.sameShape h.deferred (.of_eq rfl rfl) rfl, by simp⟩
        have hshape : SameShape rt { rt with observer := none } := .of_eq rfl rfl
        have hqueue : Queue { rt with observer := none } := hsound.queue.of_eq (fun _ => rfl) rfl
        exact hsound.sameShape hshape hqueue rfl rfl rfl ⟨hsound.observer, hsound.saved⟩ rfl rfl
      . next hnone =>
        cases hstep
        refine good_finishComputation ha h (hfree ?_) rt.observer value true
        unfold committing
        cases prevValue with
        | none => rfl
        | some prev =>
          cases eq with
          | none => rfl
          | some eq => exact absurd rfl (hnone prev eq rfl)
  . next id previousObserver previousOwner kind previous newValue holds stack =>
    have ha : Sound.IsComputation
        (.comparing id previousObserver previousOwner kind previous newValue holds)
        id previousObserver previousOwner := .inr ⟨kind, previous, newValue, holds, rfl⟩
    dsimp only at hstep
    split at hstep
    . cases hstep
      exact good_rollbackComputation ha h previous kind
    . cases hstep
      exact good_finishComputation ha h (hfree rfl) previous newValue _
  . split at hstep
    . cases hstep
      exact h.disposal (by simp)
    . cases hstep
      exact h.disposal (by simp)
  . next id stack =>
    obtain ⟨n, hn, -⟩ := (h.sound.updating id).mpr (by simp [updatingIds])
    simp only [hn] at hstep
    split at hstep
    . next candidate =>
      cases hstep
      exact good_endUpdate h (.publish rt id candidate) (h.sound.queue.publish id candidate)
    . cases hstep
      exact good_endUpdate h (.refl rt) h.sound.queue
  . cases hstep

theorem good_readMemo {control control' : Control V}
    (h : Good ⟨rt, stack, control⟩) {value : Option V} (hread : readMemo rt id = some (rt', value))
    (hcontrol : control' ≠ .aborted)
    : Good ⟨rt', stack, control'⟩ := by
  unfold readMemo at hread
  split at hread
  . cases hread
  . next tracked htrack =>
    have hgood : Good ⟨tracked, stack, control'⟩ := h.frames (.track htrack) (track_eq htrack) hcontrol
    split at hread
    . cases hread
      exact hgood
    . cases hread
      exact hgood

theorem good_returned {outcome : Outcome (Reply V)}
    (h : Good ⟨rt, stack, .ret outcome⟩) (hstep : returned rt stack outcome = some c)
    : Good c := by
  unfold returned at hstep
  split at hstep
  . cases hstep
    exact h.neutral trivial rfl (by simp)
  . split at hstep
    . cases hstep
      exact h.control (by simp)
    . cases hstep
      exact h.neutral trivial rfl (by simp)
  . next id stack =>
    have hbase : Good ⟨rt, stack, .next⟩ := h.neutral trivial rfl (by simp)
    split at hstep
    . cases hstep
      exact hbase.control (by simp)
    . split at hstep
      . cases hstep
        exact hbase.control (by simp)
      . next hread =>
        cases hstep
        exact good_readMemo hbase hread (by simp)
      . next hread =>
        cases hstep
        exact good_readMemo hbase hread (by simp)
  . next id stack =>
    have hbase : Good ⟨rt, stack, .next⟩ := h.neutral trivial rfl (by simp)
    split at hstep
    . cases hstep
      exact hbase.control (by simp)
    . split at hstep
      . cases hstep
        exact hbase.control (by simp)
      . next hread =>
        cases hstep
        exact good_readMemo hbase hread (by simp)
      . next hread =>
        cases hstep
        exact good_readMemo hbase hread (by simp)
  . next id stack =>
    have hbase : Good ⟨rt, stack, .next⟩ := h.neutral trivial rfl (by simp)
    split at hstep
    . cases hstep
      exact hbase.control (by simp)
    . cases hstep
      have hpushed : Good ⟨rt, .uninstalling :: stack, .next⟩ := hbase.push trivial rfl (by simp)
      exact good_disposeNode hpushed id
  . cases hstep
    exact h.neutral trivial rfl (by simp)
  . next current executions max panicked result stack =>
    -- the loop of the flush goes on with other fields
    have hflushing : ∀ panicked', Good ⟨rt, .flushing none executions max panicked' result :: stack,
        .next⟩ := by
      intro panicked'
      have ha : (Activation.flushing current executions max panicked result).Neutral := trivial
      refine ⟨?_, ⟨h.balanced.depth, h.balanced.flushing, h.balanced.wakes⟩, h.deferred, by simp⟩
      exact (sound_neutral (a := .flushing _ _ _ _ _) trivial).mpr ((sound_neutral ha).mp h.sound)
    split at hstep
    . cases hstep
      exact hflushing panicked
    . cases hstep
      exact hflushing true
  . cases hstep

theorem good_step {c c' : Config V} {answer : V} (h : Good c) (hidle : retiresIdle c = true)
    (hstep : step c answer = some c')
    : Good c' := by
  obtain ⟨rt, stack, control⟩ := c
  unfold step at hstep
  split at hstep
  . cases hstep
    exact h.control (by simp)
  . cases hstep
    exact h.control (by simp)
  . cases hstep
    exact h.control (by simp)
  . next operation k hcontrol =>
    cases hstep
    have hpushed : Good ⟨rt, .user k :: stack, .next⟩ := h.push trivial rfl (by simp)
    exact good_call hpushed operation
  . next outcome hcontrol =>
    dsimp only at hcontrol
    subst hcontrol
    exact good_resume h hidle hstep
  . next outcome hcontrol =>
    dsimp only at hcontrol
    subst hcontrol
    exact good_returned h hstep
  . exact good_iterate h hstep
  . cases hstep

theorem sound_initial : Sound [] (Runtime.initial : Runtime V) [] := by
  have hnode : ∀ id n, (Runtime.initial : Runtime V).node id ≠ some n := by
    intro id n h
    cases h
  have hparent : ∀ id p, ¬ Parent (Runtime.initial : Runtime V) id p := by
    rintro id p ⟨n, hn, -⟩
    exact hnode id n hn
  have hframes : ∀ f, f ∉ (Runtime.initial : Runtime V).frames := by
    intro f hf
    cases hf
  constructor
  . exact Arena.wellFormed_empty
  . constructor <;> exact fun hn => absurd hn (hnode _ _)
  . constructor
    . exact fun hn => absurd hn (hnode _ _)
    . exact fun hn => absurd hn (hnode _ _)
    . exact fun hf => absurd hf (hframes _)
    . exact fun hf => absurd hf (hframes _)
    . exact fun hp => absurd hp (hparent _ _)
    . exact fun hp => absurd hp (hparent _ _)
    . exact fun hn => absurd hn (hnode _ _)
    . exact fun hn => absurd hn (hnode _ _)
    . intro id hcycle
      obtain ⟨p, hp, -⟩ := Relation.TransGen.head'_iff.mp hcycle
      exact hparent id p hp
  . exact fun hn => absurd hn (hnode _ _)
  . refine ⟨List.nodup_nil, ?_, fun hn => absurd hn (hnode _ _)⟩
    intro id hid
    cases hid
  . exact fun f hf => absurd hf (hframes f)
  . rfl
  . rfl
  . rfl
  . trivial
  . exact List.nodup_nil
  . intro id
    constructor
    . rintro ⟨n, hn, -⟩
      exact absurd hn (hnode _ _)
    . intro hid
      cases hid
  . intro id
    constructor
    . rintro ⟨n, hn, -⟩
      exact absurd hn (hnode _ _)
    . intro hid
      cases hid
  . exact fun f hf => absurd hf (hframes f)

theorem good_initial (h : Config.initial c) : Good c := by
  obtain ⟨p, rfl⟩ := h
  refine ⟨sound_initial, ⟨rfl, rfl, ?_⟩, .inr ?_, by simp⟩
  . intro hne
    exact absurd rfl hne
  . intro d hd
    cases hd

/--
Each frame belongs to a live computation that is running, the guard on top of the stack has its own frame
on top, and no guard has found anything else.
-/
structure FramesRun (c : Config V) : Prop where
  frame : ∀ f ∈ c.rt.frames, ∃ n, c.rt.node f.observer = some n ∧ n.running = true
  own : ∀ a stack id previousObserver previousOwner, c.stack = a :: stack →
    Sound.IsComputation a id previousObserver previousOwner →
    ∃ f frames, c.rt.frames = f :: frames ∧ f.observer = id
  running : c.control ≠ .aborted

theorem Good.framesRun (h : Good c) : FramesRun c where
  frame := fun f hf => h.sound.frame_running hf
  own := by
    intro a stack id previousObserver previousOwner hstack ha
    have hids := (ha.on_stack stack).1
    rw [← hstack] at hids
    obtain ⟨f, frames, hframes, hobserver, -⟩ := h.sound.top_frame hids
    exact ⟨f, frames, hframes, hobserver⟩
  running := h.running

theorem good_of_retiresIdle (h : Reach.Under Config.initial step (fun c _ => retiresIdle c = true) c)
    : Good c :=
  h.invariant (fun _ => good_initial) (fun _ _ _ h hidle hstep => good_step h hidle hstep)

theorem framesRun_of_retiresIdle {c : Config V}
    (h : Reach.Under Config.initial step (fun c _ => retiresIdle c = true) c)
    : FramesRun c :=
  (good_of_retiresIdle h).framesRun

/--
No operation is under way, and none has left anything open behind it.
-/
structure Resting (rt : Runtime V) : Prop where
  arena : rt.toArena.WellFormed
  edges : Edges rt
  ownership : Ownership rt []
  idle : ∀ id, ¬ Busy rt id
  outside : rt.observer = none ∧ rt.owner = none ∧ rt.frames = []
  settled : rt.batchDepth = 0 ∧ rt.flushing = false ∧ rt.pending = [] ∧ rt.deferredDisposals = []

theorem resting_of_retiresIdle {c : Config V}
    (h : Reach.Under Config.initial step (fun c _ => retiresIdle c = true) c) (hquiescent : c.Quiescent)
    : Resting c.rt := by
  obtain ⟨hsound, hbalanced, hdeferred, -⟩ := good_of_retiresIdle h
  unfold Quiescent at hquiescent
  rw [hquiescent] at hsound hbalanced hdeferred
  have hidle : ∀ id, ¬ Busy c.rt id := by
    rintro id ⟨n, hn, hupdating | hrunning⟩
    . cases (hsound.updating id).mp ⟨n, hn, hupdating⟩
    . cases (hsound.running id).mp ⟨n, hn, hrunning⟩
  have hflushing : c.rt.flushing = false := by
    have hflushes := hbalanced.flushing
    cases htrue : c.rt.flushing with
    | false => rfl
    | true =>
      rw [htrue] at hflushes
      cases hflushes
  refine ⟨hsound.arena, hsound.edges, hsound.ownership, hidle, ⟨hsound.observer, hsound.owner,
    List.map_eq_nil_iff.mp hsound.frames⟩, hbalanced.depth, hflushing, ?_, ?_⟩
  . by_contra hpending
    rcases hbalanced.wakes hpending with hdepth | htrue
    . exact absurd hbalanced.depth hdepth.ne'
    . exact absurd htrue (Bool.eq_false_iff.mp hflushing)
  . rcases hdeferred with hdisposing | hwaits
    . cases hdisposing
    . apply List.eq_nil_iff_forall_not_mem.mpr
      intro d hd
      obtain ⟨j, hj, -⟩ := hwaits d hd
      exact hidle j hj

def Prog.perform (operation : Call V (Prog V)) (rest : Prog V) : Prog V :=
  .call operation (fun outcome => match outcome with
    | .ok _ => rest
    | .panicked => .panic)

def EqFn.decide : EqFn Nat (Prog Nat) where
  apply a b := .ret (if a = b then 1 else 0)
  holds answer := answer == 1

def rerunningOwner : Prog Nat :=
  .perform (.newSignal 0) <|
  .perform (.newMemo (.perform (.get ⟨0, 0⟩) (.perform (.newSignal 5) (.ret 0))) .decide) <|
  .perform (.memoGet ⟨1, 0⟩) <|
  .perform (.set ⟨0, 0⟩ 1) <|
  .perform (.memoGet ⟨1, 0⟩) (.ret 0)

theorem rerunningOwner_framesRun
    : ∃ c : Config Nat, Reach.Under Config.initial step (fun c _ => retiresIdle c = true) c ∧
      c.rt.frames.length = 1 ∧ FramesRun c := by
  have hsome : (Reach.execUnder step retiresIdle ⟨.initial, [], .run rerunningOwner⟩
      (List.replicate 30 0)).isSome = true := by decide
  have hframes : (Reach.execUnder step retiresIdle ⟨.initial, [], .run rerunningOwner⟩
      (List.replicate 30 0)).map (fun c => c.rt.frames.length) = some 1 := by decide
  obtain ⟨c, hc⟩ := Option.isSome_iff_exists.mp hsome
  rw [hc] at hframes
  have hrun : Reach.Under Config.initial step (fun c _ => retiresIdle c = true) c :=
    Reach.execUnder_under _ (.init ⟨rerunningOwner, rfl⟩) hc
  exact ⟨c, hrun, Option.some.inj hframes, framesRun_of_retiresIdle hrun⟩

theorem resting_of_retiresIdle_rerun
    : ∃ c : Config Nat, Reach.Under Config.initial step (fun c _ => retiresIdle c = true) c
      ∧ c.rt.slots.length = 4 ∧ Resting c.rt := by
  obtain ⟨c, hc, hstack, hslots⟩ : ∃ c, Reach.execUnder step retiresIdle ⟨.initial, [], .run rerunningOwner⟩
      (List.replicate 37 0) = some c ∧ c.stack = [] ∧ c.rt.slots.length = 4 := ⟨_, rfl, rfl, rfl⟩
  have hrun : Reach.Under Config.initial step (fun c _ => retiresIdle c = true) c :=
    Reach.execUnder_under _ (.init ⟨rerunningOwner, rfl⟩) hc
  exact ⟨c, hrun, hslots, resting_of_retiresIdle hrun hstack⟩

def childReadsOwner : Prog Nat :=
  .perform (.newSignal 0) <|
  .perform (.newMemo (.perform (.get ⟨0, 0⟩)
    (.perform (.newMemo (.perform (.memoGet ⟨1, 0⟩) (.ret 0)) .decide) (.ret 0))) .decide) <|
  .perform (.memoGet ⟨1, 0⟩) <|
  .perform (.set ⟨0, 0⟩ 1) <|
  .perform (.memoGet ⟨2, 0⟩) (.ret 0)

theorem childReadsOwner_retired_while_running
    : ∃ c : Config Nat, Reach.Any Config.initial step c ∧ ¬ FramesRun c := by
  have hdead : (Reach.exec step ⟨.initial, [], .run childReadsOwner⟩ (List.replicate 33 0)).map
      (fun c => c.rt.frames.all (fun f => (c.rt.node f.observer).isSome)) = some false := by
    decide
  obtain ⟨c, hc, hall⟩ := Option.map_eq_some_iff.mp hdead
  refine ⟨c, Reach.exec_any _ (.init ⟨childReadsOwner, rfl⟩) hc, ?_⟩
  intro h
  rw [List.all_eq_false] at hall
  obtain ⟨f, hf, hnone⟩ := hall
  obtain ⟨n, hn, -⟩ := h.frame f hf
  exact hnone (by rw [hn]; rfl)

end Reactive

end Pliego
