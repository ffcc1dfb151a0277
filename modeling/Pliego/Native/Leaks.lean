import Pliego.Native.Registry

/-!
What a runtime still holds of requests that are gone.
-/

namespace Pliego

namespace Native

namespace NativeRuntime

variable {runtime next : NativeRuntime} {id : Nat} {exchange after : Exchange}

-- What the registry holds is live, registered for its removal and admitted.
structure Held (runtime : NativeRuntime) (id : Nat) : Prop where
  live : ∃ exchange, runtime.requests[id]? = some exchange ∧ exchange.Live exchange.handed
    ∧ .removeRequest ∈ exchange.internals ∧ exchange.stage ≠ .dispatching .offered

structure Inv (runtime : NativeRuntime) : Prop where
  requests : ∀ (id : Nat) (exchange : Exchange), runtime.requests[id]? = some exchange → exchange.Inv
  held : ∀ id ∈ runtime.registry.scopes, runtime.Held id
  nodup : runtime.registry.scopes.Nodup
  maximum : runtime.registry.maximum = runtime.limits.maxConcurrentRequests

theorem start_inv (limits : RequestLimits) : (start limits).Inv := by
  constructor
  . intro id exchange h
    cases h
  . intro id h
    cases h
  . exact List.nodup_nil
  . rfl

theorem arrive_inv (h : runtime.Inv)
    : Inv { runtime with requests := runtime.requests ++ [.arrive runtime.requests.length runtime.limits] } := by
  constructor
  . intro id exchange hid
    dsimp only at hid
    rw [List.getElem?_append] at hid
    split at hid
    . exact h.requests id exchange hid
    . have hmem := List.mem_of_getElem? hid
      rw [List.mem_singleton] at hmem
      rw [hmem]
      exact Exchange.arrive_live _ _
  . intro id hid
    obtain ⟨exchange, hget, hlive⟩ := (h.held id hid).live
    refine ⟨exchange, ?_, hlive⟩
    dsimp only
    rw [List.getElem?_append_left (List.getElem?_eq_some_iff.mp hget).1]
    exact hget
  . exact h.nodup
  . exact h.maximum

variable {ran : List Ran} {registry : RequestRegistry}

theorem sweep_scopes
    : (registry.sweep id ran).scopes
      = if .internal .removeRequest ∈ ran then registry.scopes.filter (· ≠ id) else registry.scopes := by
  unfold RequestRegistry.sweep
  split
  . rfl
  . rfl

theorem sweep_maximum
    : (registry.sweep id ran).maximum = registry.maximum := by
  unfold RequestRegistry.sweep
  split
  . rfl
  . rfl

theorem mem_sweep {other : Nat} (h : other ∈ (registry.sweep id ran).scopes)
    : other ∈ registry.scopes ∧ (other = id → .internal .removeRequest ∉ ran) := by
  rw [sweep_scopes] at h
  split at h
  . rw [List.mem_filter] at h
    exact ⟨h.1, fun hsame => absurd hsame (of_decide_eq_true h.2)⟩
  . next hran => exact ⟨h, fun _ => hran⟩

theorem nodup_sweep (h : registry.scopes.Nodup)
    : (registry.sweep id ran).scopes.Nodup := by
  rw [sweep_scopes]
  split
  . exact h.filter _
  . exact h

theorem requests_replace (h : runtime.requests[id]? = some exchange) (other : Nat)
    : (runtime.replace registry id after).requests[other]?
      = if other = id then some after else runtime.requests[other]? := by
  have hid := (List.getElem?_eq_some_iff.mp h).1
  unfold replace
  dsimp only
  rw [List.getElem?_set]
  by_cases hsame : id = other
  . rw [if_pos hsame, if_pos hid, if_pos hsame.symm]
  . rw [if_neg hsame, if_neg (Ne.symm hsame)]

theorem replace_inv (h : runtime.Inv) (hid : runtime.requests[id]? = some exchange)
    (hinv : after.Inv) (hnodup : registry.scopes.Nodup) (hmaximum : registry.maximum = runtime.registry.maximum)
    (hothers : ∀ other ∈ registry.scopes, other ≠ id → other ∈ runtime.registry.scopes)
    (hself : id ∈ registry.scopes → .removeRequest ∈ after.internals ∧ after.stage ≠ .dispatching .offered)
    : (runtime.replace registry id after).Inv := by
  constructor
  . intro other exchange' hget
    rw [requests_replace hid] at hget
    split at hget
    . cases hget
      exact hinv
    . exact h.requests other exchange' hget
  . intro other hother
    obtain ⟨hmem, hswept⟩ := mem_sweep hother
    by_cases hsame : other = id
    . subst hsame
      obtain ⟨hinternal, hstage⟩ := hself hmem
      refine ⟨after, ?_, ?_, hinternal, hstage⟩
      . rw [requests_replace hid, if_pos rfl]
      . cases hinv.live_or_closed with
        | inl hlive => exact hlive
        | inr hclosed =>
          apply absurd _ (hswept rfl)
          rw [hclosed.ran]
          unfold Exchange.duties
          exact List.mem_append_right _ (List.mem_map_of_mem hinternal)
    . obtain ⟨exchange', hget, hlive⟩ := (h.held other (hothers other hmem hsame)).live
      refine ⟨exchange', ?_, hlive⟩
      rw [requests_replace hid, if_neg hsame]
      exact hget
  . exact nodup_sweep hnodup
  . unfold replace
    dsimp only
    rw [sweep_maximum, hmaximum]
    exact h.maximum

theorem not_held_of_offered (h : runtime.Inv) (hid : runtime.requests[id]? = some exchange)
    (hstage : exchange.stage = .dispatching .offered)
    : id ∉ runtime.registry.scopes := by
  intro hmem
  obtain ⟨exchange', hget, -, -, hadmitted⟩ := (h.held id hmem).live
  rw [hid] at hget
  cases hget
  exact hadmitted hstage

theorem admission_offered {answer : Except AdmissionError Unit} (h : exchange.step (.admission answer) = some after)
    : exchange.stage = .dispatching .offered ∧ after = exchange.admission answer := by
  obtain ⟨scope, stage, chain, users, internals, handed, disturbed⟩ := exchange
  cases stage with
  | dispatching point =>
    cases point with
    | offered =>
      refine ⟨rfl, ?_⟩
      cases chain <;> exact (Option.some.inj h).symm
    | _ => cases chain <;> cases h
  | _ => cases chain <;> cases h

theorem admit_scopes {scope : RequestScope}
    : (registry.admitScope scope id).scopes = registry.scopes
      ∨ ((registry.admitScope scope id).scopes = id :: registry.scopes
        ∧ ∃ registered, scope.registerInternalCleanup .removeRequest = .ok registered) := by
  unfold RequestRegistry.admitScope
  split
  . next registered hregister _ => exact .inr ⟨rfl, registered, hregister⟩
  . exact .inl rfl

theorem admit_maximum {scope : RequestScope}
    : (registry.admitScope scope id).maximum = registry.maximum := by
  unfold RequestRegistry.admitScope
  split
  . rfl
  . rfl

theorem admit_inv (h : runtime.Inv) (hid : runtime.requests[id]? = some exchange)
    (hstep : exchange.step (.admission runtime.registry.answer) = some after)
    : (runtime.replace (runtime.registry.admitScope exchange.scope id) id after).Inv := by
  obtain ⟨hoffered, hafter⟩ := admission_offered hstep
  have hfresh := not_held_of_offered h hid hoffered
  have hinv := Exchange.step_inv (h.requests id exchange hid) hstep
  apply replace_inv h hid hinv
  . cases admit_scopes with
    | inl hsame =>
      rw [hsame]
      exact h.nodup
    | inr hcons =>
      rw [hcons.1]
      exact List.nodup_cons.mpr ⟨hfresh, h.nodup⟩
  . exact admit_maximum
  . intro other hother hne
    cases @admit_scopes id runtime.registry exchange.scope with
    | inl hsame =>
      rw [hsame] at hother
      exact hother
    | inr hcons =>
      rw [hcons.1, List.mem_cons] at hother
      exact hother.resolve_left hne
  . intro hmem
    obtain ⟨-, hstage, -⟩ := @Exchange.admission_moved exchange runtime.registry.answer
    rw [hafter]
    refine ⟨?_, hstage⟩
    cases @admit_scopes id runtime.registry exchange.scope with
    | inl hsame =>
      rw [hsame] at hmem
      exact absurd hmem hfresh
    | inr hcons =>
      obtain ⟨registered, hregister⟩ := hcons.2
      unfold Exchange.admission
      rw [hregister]
      dsimp only
      rw [Exchange.answered_moved _ |>.1]
      exact List.mem_cons_self

theorem act_inv (h : runtime.Inv) (hid : runtime.requests[id]? = some exchange) {act : Act}
    (hstep : exchange.step act = some after)
    : (runtime.replace runtime.registry id after).Inv := by
  have hmoved := Exchange.moved hstep
  apply replace_inv h hid (Exchange.step_inv (h.requests id exchange hid) hstep) h.nodup rfl
  . exact fun other hother _ => hother
  . intro hmem
    obtain ⟨exchange', hget, -, hinternal, hadmitted⟩ := (h.held id hmem).live
    rw [hid] at hget
    cases hget
    refine ⟨hmoved.internals hinternal, ?_⟩
    cases hmoved.stage with
    | inl hsame =>
      rw [hsame.1]
      exact hadmitted
    | inr hother => exact hother.1

theorem beginShutdown_inv (h : runtime.Inv) : runtime.beginShutdown.Inv := by
  have hget : ∀ id exchange, runtime.requests[id]? = some exchange → runtime.beginShutdown.requests[id]?
      = some (if id ∈ runtime.registry.scopes then exchange.cancelled .shutdown else exchange) := by
    intro id exchange hid
    unfold beginShutdown
    dsimp only
    rw [List.getElem?_mapIdx, hid]
    rfl
  constructor
  . intro id exchange hid
    cases hbefore : runtime.requests[id]? with
    | none =>
      unfold beginShutdown at hid
      dsimp only at hid
      rw [List.getElem?_mapIdx, hbefore] at hid
      cases hid
    | some before =>
      have hinv := h.requests id before hbefore
      rw [hget id before hbefore] at hid
      cases hid
      split
      . exact (Exchange.cancelled_beside .shutdown).inv hinv
      . exact hinv
  . intro id hid
    obtain ⟨exchange, hbefore, hlive, hinternal, hstage⟩ := (h.held id hid).live
    refine ⟨exchange.cancelled .shutdown, ?_, (Exchange.cancelled_beside .shutdown).live hlive, hinternal, hstage⟩
    rw [hget id exchange hbefore]
    exact congrArg some (if_pos hid)
  . exact h.nodup
  . exact h.maximum

theorem step_inv (h : runtime.Inv) {label : RuntimeAct} (hstep : runtime.step label = some next) : next.Inv := by
  cases label with
  | arrive =>
    cases hstep
    exact arrive_inv h
  | offer id =>
    unfold step at hstep
    dsimp only at hstep
    split at hstep
    . cases hstep
    . next exchange hid =>
      split at hstep
      . cases hstep
      . next after hafter =>
        cases hstep
        exact admit_inv h hid hafter
  | act id act =>
    unfold step at hstep
    dsimp only at hstep
    split at hstep
    . cases hstep
    . next exchange hid =>
      split at hstep
      . cases hstep
      . split at hstep
        . cases hstep
        . next after hafter =>
          cases hstep
          exact act_inv h hid hafter
  | beginShutdown =>
    cases hstep
    exact beginShutdown_inv h

def Abandons (runtime : NativeRuntime) : Prop :=
  ∃ (id : Nat) (exchange : Exchange), runtime.requests[id]? = some exchange ∧ exchange.stage = .abandoned

theorem awaited_eq_false {label : RuntimeAct}
    : runtime.awaited label = false ↔ ∃ (id : Nat) (exchange : Exchange) (point : Point), label = .act id .drop
      ∧ runtime.requests[id]? = some exchange ∧ exchange.stage = .dispatching point := by
  unfold awaited
  constructor
  . intro h
    split at h
    . next id =>
      split at h
      . next exchange hid =>
        split at h
        . next point hstage => exact ⟨id, exchange, point, rfl, hid, hstage⟩
        . cases h
      . cases h
    . cases h
  . rintro ⟨id, exchange, point, rfl, hid, hstage⟩
    dsimp only
    rw [hid]
    dsimp only
    rw [hstage]

theorem replace_abandons (hid : runtime.requests[id]? = some exchange) {act : Act}
    (hstep : exchange.step act = some after)
    : (runtime.replace registry id after).Abandons
      ↔ runtime.Abandons ∨ (act = .drop ∧ ∃ point, exchange.stage = .dispatching point) := by
  have hiff := (Exchange.moved hstep).abandoned_iff
  constructor
  . rintro ⟨other, exchange', hget, hstage⟩
    rw [requests_replace hid] at hget
    split at hget
    . cases hget
      exact (hiff.mp hstage).imp (fun hbefore => ⟨id, exchange, hid, hbefore⟩) fun hdrop => hdrop
    . exact .inl ⟨other, exchange', hget, hstage⟩
  . rintro (⟨other, exchange', hget, hstage⟩ | hdrop)
    . by_cases hsame : other = id
      . rw [hsame, hid] at hget
        cases hget
        refine ⟨id, after, ?_, hiff.mpr (.inl hstage)⟩
        rw [requests_replace hid, if_pos rfl]
      . refine ⟨other, exchange', ?_, hstage⟩
        rw [requests_replace hid, if_neg hsame]
        exact hget
    . refine ⟨id, after, ?_, hiff.mpr (.inr hdrop)⟩
      rw [requests_replace hid, if_pos rfl]

theorem arrive_abandons
    : Abandons { runtime with requests := runtime.requests ++ [.arrive runtime.requests.length runtime.limits] }
      ↔ runtime.Abandons := by
  constructor
  . rintro ⟨id, exchange, hget, hstage⟩
    dsimp only at hget
    rw [List.getElem?_append] at hget
    split at hget
    . exact ⟨id, exchange, hget, hstage⟩
    . have hmem := List.mem_of_getElem? hget
      rw [List.mem_singleton] at hmem
      rw [hmem] at hstage
      cases hstage
  . rintro ⟨id, exchange, hget, hstage⟩
    refine ⟨id, exchange, ?_, hstage⟩
    dsimp only
    rw [List.getElem?_append_left (List.getElem?_eq_some_iff.mp hget).1]
    exact hget

theorem beginShutdown_abandons : runtime.beginShutdown.Abandons ↔ runtime.Abandons := by
  unfold Abandons beginShutdown
  dsimp only
  simp only [List.getElem?_mapIdx, Option.map_eq_some_iff]
  constructor
  . rintro ⟨id, exchange, ⟨before, hget, rfl⟩, hstage⟩
    refine ⟨id, before, hget, ?_⟩
    split at hstage
    . exact hstage
    . exact hstage
  . rintro ⟨id, exchange, hget, hstage⟩
    refine ⟨id, _, ⟨exchange, hget, rfl⟩, ?_⟩
    split
    . exact hstage
    . exact hstage

theorem step_abandons {label : RuntimeAct} (hstep : runtime.step label = some next)
    : next.Abandons ↔ runtime.Abandons ∨ runtime.awaited label = false := by
  cases label with
  | arrive =>
    cases hstep
    rw [arrive_abandons]
    exact (or_iff_left Bool.true_eq_false_eq_False).symm
  | offer id =>
    unfold step at hstep
    dsimp only at hstep
    split at hstep
    . cases hstep
    . next exchange hid =>
      split at hstep
      . cases hstep
      . next after hafter =>
        cases hstep
        rw [replace_abandons hid hafter, or_iff_left (fun hdrop => by cases hdrop.1)]
        exact (or_iff_left Bool.true_eq_false_eq_False).symm
  | act id act =>
    unfold step at hstep
    dsimp only at hstep
    split at hstep
    . cases hstep
    . next exchange hid =>
      split at hstep
      . cases hstep
      . split at hstep
        . cases hstep
        . next after hafter =>
          cases hstep
          rw [replace_abandons hid hafter, awaited_eq_false]
          apply or_congr Iff.rfl
          constructor
          . rintro ⟨rfl, point, hstage⟩
            exact ⟨id, exchange, point, rfl, hid, hstage⟩
          . rintro ⟨id', exchange', point, hlabel, hget, hstage⟩
            cases hlabel
            rw [hid] at hget
            cases hget
            exact ⟨rfl, point, hstage⟩
  | beginShutdown =>
    cases hstep
    rw [beginShutdown_abandons]
    exact (or_iff_left Bool.true_eq_false_eq_False).symm

theorem released_of_gone (h : runtime.Inv) (hid : runtime.requests[id]? = some exchange)
    (hgone : exchange.inFlight = false) (hstage : exchange.stage ≠ .abandoned)
    : runtime.Released id exchange := by
  have hclosed : exchange.Closed := by
    have hinv := h.requests id exchange hid
    unfold Exchange.inFlight at hgone
    unfold Exchange.Inv at hinv
    split at hgone
    . next body hbody =>
      rw [hbody] at hinv
      exact hinv
    . next habandoned => exact absurd habandoned hstage
    . cases hgone
  obtain ⟨receipt, hreceipts, -⟩ := hclosed.receipt
  refine ⟨?_, hclosed.state, hclosed.ran, ?_⟩
  . intro hmem
    obtain ⟨exchange', hget, hlive, -⟩ := (h.held id hmem).live
    rw [hid] at hget
    cases hget
    exact hlive.not_closed hclosed
  . rw [hreceipts]
    rfl

theorem held_inFlight (h : runtime.Inv) (habandons : ¬ runtime.Abandons)
    : runtime.registry.scopes ⊆ runtime.inFlight := by
  intro id hid
  obtain ⟨exchange, hget, hlive, -⟩ := (h.held id hid).live
  unfold inFlight
  rw [List.mem_filter, List.mem_range]
  refine ⟨(List.getElem?_eq_some_iff.mp hget).1, ?_⟩
  rw [hget]
  dsimp only [Option.any_some]
  cases hflight : exchange.inFlight with
  | true => rfl
  | false =>
    have hreleased := released_of_gone h hget hflight (fun hstage => habandons ⟨id, exchange, hget, hstage⟩)
    exact absurd hid hreleased.unregistered

theorem leakFree_iff (h : runtime.Inv) : runtime.LeakFree ↔ ¬ runtime.Abandons := by
  constructor
  . rintro hfree ⟨id, exchange, hid, hstage⟩
    have hgone : exchange.inFlight = false := by
      unfold Exchange.inFlight
      rw [hstage]
    have hinv := h.requests id exchange hid
    unfold Exchange.Inv at hinv
    rw [hstage] at hinv
    exact (RequestState.isOpen_iff.mp hinv.isOpen).2 (hfree.released id exchange hid hgone).closed
  . intro habandons
    have hheld := held_inFlight h habandons
    constructor
    . exact fun id exchange hid hgone =>
        released_of_gone h hid hgone fun hstage => habandons ⟨id, exchange, hid, hstage⟩
    . exact (h.nodup.subperm hheld).length_le
    . intro id exchange hid hstage hanswer
      have hfresh := not_held_of_offered h hid hstage
      have hothers : runtime.registry.scopes ⊆ runtime.inFlight.filter (· ≠ id) := by
        intro other hother
        rw [List.mem_filter]
        refine ⟨hheld hother, decide_eq_true ?_⟩
        rintro rfl
        exact hfresh hother
      have hfull : runtime.registry.maximum ≤ runtime.registry.scopes.length := by
        unfold RequestRegistry.answer at hanswer
        split at hanswer
        . cases hanswer
        . split at hanswer
          . next hfull => exact hfull
          . cases hanswer
      rw [← h.maximum]
      exact hfull.trans (h.nodup.subperm hothers).length_le

/-- A run of the runtime leaks nothing exactly when it drops no dispatch future before its response. -/
theorem leakFree_iff_awaited (limits : RequestLimits) (labels : List RuntimeAct)
    (hrun : Reach.exec step (start limits) labels = some runtime)
    : runtime.LeakFree ↔ Reach.execWhen step awaited (start limits) labels = some runtime := by
  have hstep : ∀ (runtime : NativeRuntime) label (next : NativeRuntime), runtime.Inv → runtime.step label = some next →
      next.Inv ∧ (¬ next.Abandons ↔ ¬ runtime.Abandons ∧ runtime.awaited label = true) := by
    intro runtime label next hinv hstep
    refine ⟨step_inv hinv hstep, ?_⟩
    rw [step_abandons hstep, not_or, Bool.not_eq_false]
  have hinv := Reach.exec_invariant (fun _ _ _ h hone => (hstep _ _ _ h hone).1) (start_inv limits) hrun
  rw [leakFree_iff hinv, Reach.exec_iff_execWhen hstep (start_inv limits) hrun]
  apply and_iff_right
  rintro ⟨id, exchange, hget, -⟩
  cases hget

def oneRequest : RequestLimits := ⟨16, 8, 4, 1⟩

def servedRequest : List RuntimeAct :=
  [.arrive, .offer 0, .act 0 .admitHead, .act 0 .route, .act 0 .openScope, .act 0 (.openData (.ok false)),
    .act 0 .runHandler, .act 0 (.respond ⟨200, .text 5⟩), .act 0 .commit, .act 0 (.poll true), .act 0 (.poll true),
    .act 0 .drop]

theorem leakFree_iff_awaited_served
    : ∃ runtime, Reach.exec step (start oneRequest) servedRequest = some runtime ∧ runtime.LeakFree := by
  have hrun : (Reach.execWhen step awaited (start oneRequest) servedRequest).isSome = true := by
    decide
  obtain ⟨runtime, hwhen⟩ := Option.isSome_iff_exists.mp hrun
  have hexec := Reach.exec_of_execWhen hwhen
  exact ⟨runtime, hexec, (leakFree_iff_awaited oneRequest _ hexec).mpr hwhen⟩

-- A client goes away while its request awaits the first layer: it stays in the registry, nothing of it is cleaned up,
-- and the next request is told that the runtime is overloaded.
theorem abandoned_request_leaks
    : ∃ runtime, Reach.exec step (start oneRequest) [.arrive, .offer 0, .act 0 .admitHead, .act 0 .drop, .arrive]
        = some runtime
      ∧ runtime.registry.scopes = [0] ∧ runtime.inFlight = [1] ∧ runtime.registry.answer = .error .overloaded
      ∧ ¬ runtime.LeakFree := by
  refine ⟨_, rfl, rfl, rfl, rfl, ?_⟩
  intro hfree
  cases (hfree.released 0 _ rfl rfl).receipt

end NativeRuntime

end Native

end Pliego
