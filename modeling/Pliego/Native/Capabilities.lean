import Pliego.Native.Middleware

/-!
Which effects leave a layer, over every run of the layers: each is covered by a capability, but for the responses
and the reads that nobody looks at once a layer has called the next one or has ended, and for the statuses that are
neither a success nor a redirection nor an error.
-/

namespace Pliego

open Router (MiddlewareCapability MiddlewareCapabilities)

namespace Native

-- What the code asks of a status; one outside 200 to 599 is asked nothing.
def PermitsStatus (capabilities : MiddlewareCapabilities) (status : Nat) : Prop :=
  (isRedirection status = true → .redirect ∈ capabilities)
    ∧ (isClientError status = true ∨ isServerError status = true → .reject ∈ capabilities)

-- A status of the layer's own in the place of the downstream one.
def ReplacesStatus (capabilities : MiddlewareCapabilities) (status : Nat) : Prop :=
  (isRedirection status = true ∧ .redirect ∈ capabilities)
    ∨ ((isClientError status = true ∨ isServerError status = true) ∧ .reject ∈ capabilities)

instance decidableReplacesStatus (capabilities : MiddlewareCapabilities) (status : Nat)
    : Decidable (ReplacesStatus capabilities status) :=
  inferInstanceAs (Decidable (_ ∨ _))

-- A success status takes no capability.
def CoversStatus (capabilities : MiddlewareCapabilities) (status : Nat) : Prop :=
  isSuccess status = true ∨ ReplacesStatus capabilities status

instance decidableCoversStatus (capabilities : MiddlewareCapabilities) (status : Nat)
    : Decidable (CoversStatus capabilities status) :=
  inferInstanceAs (Decidable (_ ∨ _))

-- Every difference from the downstream response takes its capability; where there is none, all is different.
def CoversDifference (capabilities : MiddlewareCapabilities) (downstream : Option Response) (response : Response)
    : Prop :=
  match downstream with
  | some downstream =>
    (response.headers = downstream.headers ∨ .mutateResponseHeaders ∈ capabilities)
      ∧ (response.status = downstream.status ∨ ReplacesStatus capabilities response.status)
  | none => .mutateResponseHeaders ∈ capabilities ∧ ReplacesStatus capabilities response.status

instance decidableCoversDifference (capabilities : MiddlewareCapabilities) (downstream : Option Response)
    (response : Response) : Decidable (CoversDifference capabilities downstream response) :=
  match downstream with
  | some _ => inferInstanceAs (Decidable (_ ∧ _))
  | none => inferInstanceAs (Decidable (_ ∧ _))

def CoversReads (capabilities : MiddlewareCapabilities) (ownReads : Nat) : Prop :=
  ownReads = 0 ∨ .readBody ∈ capabilities

instance decidableCoversReads (capabilities : MiddlewareCapabilities) (ownReads : Nat)
    : Decidable (CoversReads capabilities ownReads) :=
  inferInstanceAs (Decidable (_ ∨ _))

def Event.Compliant (event : Event) : Prop :=
  match event with
  | .forwarded capabilities incoming request ownReads =>
    request.method = incoming.method ∧ request.uri.scheme = incoming.uri.scheme
      ∧ request.uri.authority = incoming.uri.authority ∧ request.uri.query = incoming.uri.query
      ∧ (request.uri.path = incoming.uri.path ∨ .rewritePath ∈ capabilities) ∧ CoversReads capabilities ownReads
  | .left _ _ _ _ true _ => True
  | .left capabilities false _ ownReads false response =>
    CoversReads capabilities ownReads ∧ CoversStatus capabilities response.status
  | .left capabilities true downstream ownReads false response =>
    CoversReads capabilities ownReads ∧ CoversDifference capabilities downstream response
  | .dropped capabilities ownReads => CoversReads capabilities ownReads
  | .readBehind capabilities => .readBody ∈ capabilities

namespace Traversal

-- What a layer answers after it has called the next one is watched where the downstream response has been seen and
-- the layer has not read a body that it kept. Before that only the statuses from 200 to 599 are.
def watchedAnswer (traversal : Traversal) (index : Nat) (frame : Frame) (capabilities : MiddlewareCapabilities)
    (response : Response) : Bool :=
  if !frame.nextCalled then
    isSuccess response.status || isRedirection response.status || isClientError response.status
      || isServerError response.status
      || decide (frame.readsAtEntry < traversal.reads ∧ .readBody ∉ capabilities)
  else
    match traversal.downstreamOf index with
    | some downstream =>
      !decide (CoversDifference capabilities (some downstream) response)
        || decide (CoversReads capabilities frame.ownReads)
    | none =>
      decide (CoversDifference capabilities none response) && decide (CoversReads capabilities frame.ownReads)

-- Nobody looks at what a layer has read when it is dropped, or reads after its end.
def watched (traversal : Traversal) (label : Nat × Doing) : Bool :=
  match traversal.frames[label.1]? with
  | none => true
  | some frame =>
    match label.2, frame.progress, frame.station.capabilities with
    | .answer (.response response) _, _, some capabilities =>
      traversal.watchedAnswer label.1 frame capabilities response
    | .drop, _, some capabilities => decide (CoversReads capabilities frame.ownReads)
    | .read, .running, _ => true
    | .read, _, some capabilities => decide (.readBody ∈ capabilities)
    | _, _, _ => true

end Traversal

section Checks

variable {capabilities : MiddlewareCapabilities}

theorem requireStatusCapability_ok {display : Nat → String} {status : Nat}
    : requireStatusCapability display status capabilities = .ok () ↔ PermitsStatus capabilities status := by
  unfold requireStatusCapability PermitsStatus
  cases hredirect : isRedirection status with
  | true =>
    have herror : isClientError status = false ∧ isServerError status = false := by
      unfold isRedirection at hredirect
      unfold isClientError isServerError
      simp only [Bool.and_eq_true, decide_eq_true_eq, Bool.and_eq_false_iff, decide_eq_false_iff_not] at hredirect ⊢
      omega
    rw [if_pos rfl, herror.1, herror.2]
    dsimp only
    split
    . next hmissing => simp [hmissing]
    . next hpresent => simp [not_not.mp hpresent]
  | false =>
    rw [if_neg Bool.false_ne_true]
    by_cases herror : (isClientError status || isServerError status) = true
    . rw [if_pos herror]
      rw [Bool.or_eq_true] at herror
      dsimp only
      split
      . next hmissing => simp [herror, hmissing]
      . next hpresent => simp [not_not.mp hpresent]
    . rw [if_neg herror]
      rw [Bool.or_eq_true] at herror
      simp [herror]

theorem coversReads_of {reads readsAtEntry ownReads : Nat} (h : readsAtEntry < reads → .readBody ∈ capabilities)
    (hreads : readsAtEntry + ownReads ≤ reads)
    : CoversReads capabilities ownReads := by
  by_cases hpresent : MiddlewareCapability.readBody ∈ capabilities
  . exact .inr hpresent
  . left
    by_contra hpositive
    exact hpresent (h (by omega))

theorem validateForwardedRequest_ok {original request : Request} {tracker reads readsAtEntry ownReads : Nat}
    (hreads : readsAtEntry + ownReads ≤ reads)
    (h : validateForwardedRequest original request capabilities tracker reads readsAtEntry = .ok ())
    : (Event.forwarded capabilities original request ownReads).Compliant := by
  unfold validateForwardedRequest at h
  split at h
  . cases h
  split at h
  . cases h
  next hread =>
  split at h
  . cases h
  next hmethod =>
  have hcovers : CoversReads capabilities ownReads :=
    coversReads_of (fun hlt => by_contra fun hmissing => hread ⟨hlt, hmissing⟩) hreads
  split at h
  . next huri =>
    refine ⟨not_not.mp hmethod, ?_, ?_, ?_, .inl ?_, hcovers⟩
    . rw [huri]
    . rw [huri]
    . rw [huri]
    . rw [huri]
  split at h
  . cases h
  next hrewrite =>
  split at h
  . cases h
  next hother =>
  simp only [not_or, not_not] at hother hrewrite
  exact ⟨not_not.mp hmethod, hother.1, hother.2.1, hother.2.2, .inr hrewrite, hcovers⟩

variable {display : Nat → String} {response result : Response} {readsAtEntry reads : Nat}

theorem ok_iff_of_ok {value : Except HandlerError Response} {condition : Prop} (h : value = .ok response)
    (hcondition : condition)
    : value = .ok result ↔ result = response ∧ condition := by
  rw [h, Except.ok.injEq]
  exact ⟨fun hsame => ⟨hsame.symm, hcondition⟩, fun hboth => hboth.1.symm⟩

theorem ok_iff_of_error {value : Except HandlerError Response} {condition : Prop} {error : HandlerError}
    (h : value = .error error) (hcondition : ¬ condition)
    : value = .ok result ↔ result = response ∧ condition := by
  rw [h]
  apply iff_of_false
  . intro hok
    cases hok
  . exact fun hboth => hcondition hboth.2

theorem validateResponseEffects_uncalled {downstream : Option ResponseObservation}
    : validateResponseEffects display response (some ⟨capabilities, false, downstream, readsAtEntry⟩) reads
        = .ok result
      ↔ result = response ∧ (readsAtEntry < reads → .readBody ∈ capabilities)
        ∧ PermitsStatus capabilities response.status := by
  unfold validateResponseEffects
  dsimp only
  rw [if_pos (c := (!false) = true) rfl]
  by_cases hread : readsAtEntry < reads ∧ .readBody ∉ capabilities
  . rw [if_pos hread]
    exact ok_iff_of_error rfl fun hboth => hread.2 (hboth.1 hread.1)
  . rw [if_neg hread]
    have hcovers : readsAtEntry < reads → .readBody ∈ capabilities := by
      intro hlt
      by_contra hmissing
      exact hread ⟨hlt, hmissing⟩
    cases hrequire : requireStatusCapability display response.status capabilities with
    | ok done => exact ok_iff_of_ok rfl ⟨hcovers, requireStatusCapability_ok.mp hrequire⟩
    | error error =>
      apply ok_iff_of_error rfl
      intro hboth
      rw [requireStatusCapability_ok.mpr hboth.2] at hrequire
      cases hrequire

theorem replacesStatus_iff {status : Nat}
    : ReplacesStatus capabilities status
      ↔ PermitsStatus capabilities status
        ∧ ¬ (!isRedirection status && !isClientError status && !isServerError status) = true := by
  unfold ReplacesStatus PermitsStatus
  have hdisjoint : isRedirection status = true → isClientError status = false ∧ isServerError status = false := by
    intro hredirect
    unfold isRedirection at hredirect
    unfold isClientError isServerError
    simp only [Bool.and_eq_true, decide_eq_true_eq, Bool.and_eq_false_iff, decide_eq_false_iff_not] at hredirect ⊢
    omega
  cases hredirect : isRedirection status with
  | true =>
    obtain ⟨hclient, hserver⟩ := hdisjoint hredirect
    rw [hclient, hserver]
    simp
  | false =>
    cases isClientError status with
    | true => simp
    | false =>
      cases isServerError status with
      | true => simp
      | false => simp

theorem coversStatus_iff {status : Nat}
    (h : (isSuccess status || isRedirection status || isClientError status || isServerError status) = true)
    : CoversStatus capabilities status ↔ PermitsStatus capabilities status := by
  unfold CoversStatus
  rw [replacesStatus_iff]
  have hsuccess : isSuccess status = true → PermitsStatus capabilities status := by
    intro hsuccess
    unfold PermitsStatus
    unfold isSuccess at hsuccess
    unfold isRedirection isClientError isServerError
    simp only [Bool.and_eq_true, decide_eq_true_eq] at hsuccess ⊢
    constructor <;> intro _ <;> omega
  constructor
  . exact fun hcovers => hcovers.elim hsuccess And.left
  . intro hpermits
    cases hplain : isSuccess status with
    | true => exact .inl rfl
    | false =>
      rw [hplain, Bool.false_or] at h
      refine .inr ⟨hpermits, ?_⟩
      cases hredirect : isRedirection status with
      | true => simp
      | false =>
        rw [hredirect, Bool.false_or, Bool.or_eq_true] at h
        rcases h with hclient | hserver
        . simp [hclient]
        . simp [hserver]

theorem permitsStatus_of {status : Nat}
    (h : (isSuccess status || isRedirection status || isClientError status || isServerError status) = false)
    : PermitsStatus capabilities status := by
  simp only [Bool.or_eq_false_iff] at h
  unfold PermitsStatus
  simp [h]

theorem not_coversStatus {status : Nat}
    (h : (isSuccess status || isRedirection status || isClientError status || isServerError status) = false)
    : ¬ CoversStatus capabilities status := by
  simp only [Bool.or_eq_false_iff] at h
  unfold CoversStatus ReplacesStatus
  simp [h]

theorem validateResponseEffects_seen {downstream : Response}
    : validateResponseEffects display response
          (some ⟨capabilities, true, some downstream.observation, readsAtEntry⟩) reads = .ok result
      ↔ result = response ∧ CoversDifference capabilities (some downstream) response := by
  unfold validateResponseEffects CoversDifference
  dsimp only
  rw [if_neg (c := (!true) = true) Bool.false_ne_true]
  unfold Response.observation
  dsimp only
  by_cases hheaders : response.headers ≠ downstream.headers ∧ .mutateResponseHeaders ∉ capabilities
  . rw [if_pos hheaders]
    exact ok_iff_of_error rfl fun hboth => hboth.1.elim hheaders.1 hheaders.2
  . rw [if_neg hheaders]
    have hcovers : response.headers = downstream.headers ∨ .mutateResponseHeaders ∈ capabilities := by
      by_contra hneither
      rw [not_or] at hneither
      exact hheaders hneither
    by_cases hstatus : response.status ≠ downstream.status
    . rw [if_pos hstatus, replacesStatus_iff]
      cases hrequire : requireStatusCapability display response.status capabilities with
      | error error =>
        apply ok_iff_of_error rfl
        intro hboth
        rw [requireStatusCapability_ok.mpr (hboth.2.resolve_left hstatus).1] at hrequire
        cases hrequire
      | ok done =>
        have hallowed := requireStatusCapability_ok.mp hrequire
        by_cases hplain : (!isRedirection response.status && !isClientError response.status
            && !isServerError response.status) = true
        . dsimp only [bind, Except.bind]
          rw [if_pos hplain]
          exact ok_iff_of_error rfl fun hboth => (hboth.2.resolve_left hstatus).2 hplain
        . dsimp only [bind, Except.bind]
          rw [if_neg hplain]
          exact ok_iff_of_ok rfl ⟨hcovers, .inr ⟨hallowed, hplain⟩⟩
    . rw [if_neg hstatus]
      exact ok_iff_of_ok rfl ⟨hcovers, .inl (not_not.mp hstatus)⟩

end Checks

namespace Traversal

-- The cells of a frame say what they are meant to: how often the body was read when the layer began, whether it has
-- called the next one, and which response that has given.
structure Inv (traversal : Traversal) : Prop where
  reads : ∀ (index : Nat) (frame : Frame), traversal.frames[index]? = some frame →
    frame.readsAtEntry + frame.ownReads ≤ traversal.reads
  ready : ∀ (index : Nat) (frame : Frame), traversal.frames[index]? = some frame → frame.progress = .ready →
    frame.ownReads = 0
  seen : ∀ (index : Nat) (frame : Frame), traversal.frames[index]? = some frame →
    frame.downstream = (traversal.downstreamOf index).map Response.observation
  last : ∀ (index : Nat) (frame : Frame), traversal.frames[index]? = some frame → frame.nextCalled = false →
    index + 1 = traversal.frames.length

variable {chain : MiddlewareChain} {traversal next : Traversal} {index : Nat} {frame after : Frame}

theorem start_inv (tracker : Nat) (request : Request) : (chain.start tracker request).Inv := by
  have hframes : ∃ station behind, (chain.start tracker request).frames
      = [.opened station behind { request with tracker := some tracker, tracked := true }] := by
    unfold MiddlewareChain.start
    cases chain.preRoute with
    | nil => exact ⟨_, _, rfl⟩
    | cons capabilities rest => exact ⟨_, _, rfl⟩
  obtain ⟨station, behind, hframes⟩ := hframes
  have honly : ∀ (index : Nat) (frame : Frame), (chain.start tracker request).frames[index]? = some frame →
      index = 0 ∧ frame = .opened station behind { request with tracker := some tracker, tracked := true } := by
    intro index frame hget
    rw [hframes] at hget
    cases index with
    | zero => exact ⟨rfl, (Option.some.inj hget).symm⟩
    | succ index => cases hget
  constructor
  . intro index frame hget
    obtain ⟨rfl, rfl⟩ := honly index frame hget
    exact Nat.zero_le _
  . intro index frame hget _
    obtain ⟨rfl, rfl⟩ := honly index frame hget
    rfl
  . intro index frame hget
    obtain ⟨rfl, rfl⟩ := honly index frame hget
    unfold downstreamOf
    rw [hframes]
    rfl
  . intro index frame hget _
    obtain ⟨rfl, rfl⟩ := honly index frame hget
    rw [hframes]
    rfl

theorem getElem?_set_self (hget : traversal.frames[index]? = some frame) (other : Nat)
    : (traversal.frames.set index after)[other]?
      = if other = index then some after else traversal.frames[other]? := by
  have hindex := (List.getElem?_eq_some_iff.mp hget).1
  rw [List.getElem?_set]
  by_cases hsame : index = other
  . rw [if_pos hsame, if_pos hindex, if_pos hsame.symm]
  . rw [if_neg hsame, if_neg (Ne.symm hsame)]

theorem set_inv (h : traversal.Inv) (hget : traversal.frames[index]? = some frame) {reads : Nat}
    {events : List Event} (hmore : traversal.reads ≤ reads) (hreads : after.readsAtEntry + after.ownReads ≤ reads)
    (hready : after.progress = .ready → after.ownReads = 0) (hseen : after.downstream = frame.downstream)
    (hresponse : after.response = frame.response) (hcalled : after.nextCalled = false → frame.nextCalled = false)
    : Inv { traversal with reads, events, frames := traversal.frames.set index after } := by
  have hdownstream : ∀ other,
      downstreamOf { traversal with reads, events, frames := traversal.frames.set index after } other
      = traversal.downstreamOf other := by
    intro other
    unfold downstreamOf
    dsimp only
    rw [getElem?_set_self hget]
    split
    . next hsame =>
      rw [hsame, hget]
      exact hresponse
    . rfl
  constructor
  . intro other frame' hother
    dsimp only at hother ⊢
    rw [getElem?_set_self hget] at hother
    split at hother
    . cases hother
      exact hreads
    . exact (h.reads other frame' hother).trans hmore
  . intro other frame' hother hprogress
    dsimp only at hother
    rw [getElem?_set_self hget] at hother
    split at hother
    . cases hother
      exact hready hprogress
    . exact h.ready other frame' hother hprogress
  . intro other frame' hother
    rw [hdownstream]
    dsimp only at hother
    rw [getElem?_set_self hget] at hother
    split at hother
    . next hsame =>
      cases hother
      rw [hsame, hseen]
      exact h.seen index frame hget
    . exact h.seen other frame' hother
  . intro other frame' hother hnext
    dsimp only at hother ⊢
    rw [List.length_set]
    rw [getElem?_set_self hget] at hother
    split at hother
    . next hsame =>
      cases hother
      rw [hsame]
      exact h.last index frame hget (hcalled hnext)
    . exact h.last other frame' hother hnext

theorem opening_inv (h : traversal.Inv) (hget : traversal.frames[index]? = some frame)
    (hcalled : frame.nextCalled = false) (station : Station) (behind : List Station) (request : Request)
    (events : List Event)
    : (traversal.opening index frame (.opened station behind request) events).Inv := by
  have hlast := h.last index frame hget hcalled
  have hset : Inv { traversal with frames := traversal.frames.set index (called frame request) } :=
    set_inv h hget le_rfl (h.reads index frame hget) (h.ready index frame hget) rfl rfl fun _ => hcalled
  have hframes : ∀ other, (traversal.opening index frame (.opened station behind request) events).frames[other]?
      = if other = traversal.frames.length then some (.opened station behind request)
        else (traversal.frames.set index (called frame request))[other]? := by
    intro other
    unfold opening
    dsimp only
    rw [List.getElem?_append, List.length_set]
    split
    . next hlt => rw [if_neg (by omega)]; rfl
    . next hge =>
      by_cases hsame : other = traversal.frames.length
      . rw [if_pos hsame, hsame, Nat.sub_self]
        rfl
      . rw [if_neg hsame]
        have hout : (traversal.frames.set index (called frame request))[other]? = none := by
          rw [List.getElem?_eq_none_iff, List.length_set]
          omega
        rw [hout, List.getElem?_eq_none_iff, List.length_singleton]
        omega
  have hdownstream : ∀ other,
      (traversal.opening index frame (.opened station behind request) events).downstreamOf other
      = downstreamOf { traversal with frames := traversal.frames.set index (called frame request) } other := by
    intro other
    unfold downstreamOf
    rw [hframes]
    split
    . next hsame =>
      have hout : (traversal.frames.set index (called frame request))[other + 1]? = none := by
        rw [List.getElem?_eq_none_iff, List.length_set]
        omega
      dsimp only
      rw [hout]
      rfl
    . rfl
  constructor
  . intro other frame' hother
    rw [hframes] at hother
    split at hother
    . cases hother
      exact Nat.zero_le _
    . exact hset.reads other frame' hother
  . intro other frame' hother hprogress
    rw [hframes] at hother
    split at hother
    . cases hother
      rfl
    . exact hset.ready other frame' hother hprogress
  . intro other frame' hother
    rw [hdownstream]
    rw [hframes] at hother
    split at hother
    . next hsame =>
      cases hother
      have hout : (traversal.frames.set index (called frame request))[other + 1]? = none := by
        rw [List.getElem?_eq_none_iff, List.length_set]
        omega
      unfold downstreamOf
      dsimp only
      rw [hout]
      rfl
    . exact hset.seen other frame' hother
  . intro other frame' hother hnext
    have hlength : (traversal.opening index frame (.opened station behind request) events).frames.length
        = traversal.frames.length + 1 := by
      unfold opening
      rw [List.length_append, List.length_set, List.length_singleton]
    rw [hlength]
    rw [hframes] at hother
    split at hother
    . next hsame => rw [hsame]
    . have hbefore := hset.last other frame' hother hnext
      dsimp only at hbefore
      rw [List.length_set] at hbefore
      have hsame : other = index := by omega
      rw [hsame, getElem?_set_self hget, if_pos rfl] at hother
      cases hother
      cases hnext

theorem getElem?_observe (frames : List Frame) (response : Response) (other : Nat)
    : (observe frames index response)[other]?
      = (frames[other]?).map fun frame =>
        if other + 1 = index then { frame with downstream := some response.observation } else frame := by
  unfold observe
  cases index with
  | zero =>
    dsimp only
    simp
  | succ index =>
    dsimp only
    rw [List.getElem?_modify]
    by_cases hsame : index = other
    . simp [hsame]
    . simp [hsame, Ne.symm hsame]

theorem length_observe (frames : List Frame) (response : Response)
    : (observe frames index response).length = frames.length := by
  unfold observe
  cases index with
  | zero => rfl
  | succ index => exact List.length_modify _ _ _

theorem left_inv (h : traversal.Inv) (hget : traversal.frames[index]? = some frame) (response : Response)
    (events : List Event)
    : Inv { traversal with
        frames := observe (traversal.frames.set index { frame with progress := .left response }) index response
        events := traversal.events ++ events } := by
  have hframes : ∀ (other : Nat) (frame' : Frame),
      (observe (traversal.frames.set index { frame with progress := .left response }) index response)[other]?
        = some frame' →
      ∃ before, traversal.frames[other]? = some before ∧ frame'.readsAtEntry = before.readsAtEntry
        ∧ frame'.ownReads = before.ownReads ∧ frame'.nextCalled = before.nextCalled
        ∧ (frame'.progress = .ready → before.progress = .ready)
        ∧ frame'.response = (if other = index then some response else before.response)
        ∧ frame'.downstream = if other + 1 = index then some response.observation else before.downstream := by
    intro other frame' hother
    rw [getElem?_observe, getElem?_set_self hget] at hother
    by_cases hsame : other = index
    . have hnot : ¬ other + 1 = index := by omega
      rw [if_pos hsame, Option.map_some, if_neg hnot] at hother
      cases hother
      refine ⟨frame, ?_, rfl, rfl, rfl, nofun, ?_, ?_⟩
      . rw [hsame]
        exact hget
      . rw [if_pos hsame]
        rfl
      . rw [if_neg hnot]
    . rw [if_neg hsame] at hother
      obtain ⟨before, hbefore, hresult⟩ := Option.map_eq_some_iff.mp hother
      refine ⟨before, hbefore, ?_⟩
      rw [if_neg hsame]
      split at hresult
      . next hparent =>
        subst hresult
        rw [if_pos hparent]
        exact ⟨rfl, rfl, rfl, fun hready => hready, rfl, rfl⟩
      . next hparent =>
        subst hresult
        rw [if_neg hparent]
        exact ⟨rfl, rfl, rfl, fun hready => hready, rfl, rfl⟩
  have hdownstream : ∀ other, downstreamOf { traversal with
      frames := observe (traversal.frames.set index { frame with progress := .left response }) index response
      events := traversal.events ++ events } other
      = if other + 1 = index then some response else traversal.downstreamOf other := by
    intro other
    unfold downstreamOf
    dsimp only
    cases hother : (observe (traversal.frames.set index { frame with progress := .left response }) index
        response)[other + 1]? with
    | none =>
      rw [List.getElem?_eq_none_iff, length_observe, List.length_set] at hother
      have hindex := (List.getElem?_eq_some_iff.mp hget).1
      rw [if_neg (by omega), List.getElem?_eq_none_iff.mpr hother]
    | some frame' =>
      obtain ⟨before, hbefore, -, -, -, -, hresponse, -⟩ := hframes _ frame' hother
      rw [hbefore]
      exact hresponse
  constructor
  . intro other frame' hother
    obtain ⟨before, hbefore, hentry, hown, -⟩ := hframes other frame' hother
    rw [hentry, hown]
    exact h.reads other before hbefore
  . intro other frame' hother hready
    obtain ⟨before, hbefore, -, hown, -, hbegun, -⟩ := hframes other frame' hother
    rw [hown]
    exact h.ready other before hbefore (hbegun hready)
  . intro other frame' hother
    obtain ⟨before, hbefore, -, -, -, -, -, hcell⟩ := hframes other frame' hother
    rw [hdownstream, hcell]
    split
    . rfl
    . exact h.seen other before hbefore
  . intro other frame' hother hnext
    obtain ⟨before, hbefore, -, -, hsame, -⟩ := hframes other frame' hother
    dsimp only
    rw [length_observe, List.length_set]
    rw [hsame] at hnext
    exact h.last other before hbefore hnext

def Judged (traversal : Traversal) (label : Nat × Doing) (next : Traversal) : Prop :=
  (∀ event ∈ next.events, event.Compliant)
    ↔ (∀ event ∈ traversal.events, event.Compliant) ∧ traversal.watched label = true

theorem judged_same {label : Nat × Doing} (hevents : next.events = traversal.events)
    (hwatched : traversal.watched label = true)
    : traversal.Judged label next := by
  unfold Judged
  rw [hevents, hwatched]
  exact (and_iff_left rfl).symm

theorem judged_concat {label : Nat × Doing} {event : Event} (hevents : next.events = traversal.events ++ [event])
    (hevent : event.Compliant ↔ traversal.watched label = true)
    : traversal.Judged label next := by
  unfold Judged
  rw [hevents, ← hevent]
  simp only [List.mem_append, List.mem_singleton, or_imp, forall_and, forall_eq]

theorem watched_passive {doing : Doing} (h : ∀ answer boundaries, doing ≠ .answer answer boundaries)
    (hdrop : doing ≠ .drop) (hread : doing ≠ .read)
    : traversal.watched (index, doing) = true := by
  unfold watched
  split
  . rfl
  . cases doing with
    | begin => rfl
    | call request => rfl
    | read => exact absurd rfl hread
    | answer answer boundaries => exact absurd rfl (h answer boundaries)
    | drop => exact absurd rfl hdrop

theorem watched_failed (hget : traversal.frames[index]? = some frame) {answer : Answer}
    (h : ∀ response, answer ≠ .response response) (boundaries : List BoundaryRun)
    : traversal.watched (index, .answer answer boundaries) = true := by
  unfold watched
  dsimp only
  rw [hget]
  cases answer with
  | response response => exact absurd rfl (h response)
  | error error => rfl
  | panicked => rfl

theorem watched_free (hget : traversal.frames[index]? = some frame) (hstation : frame.station.capabilities = none)
    (doing : Doing)
    : traversal.watched (index, doing) = true := by
  unfold watched
  dsimp only
  rw [hget]
  dsimp only
  rw [hstation]
  cases doing with
  | begin => rfl
  | call request => rfl
  | read => cases frame.progress <;> rfl
  | answer answer boundaries => cases answer <;> rfl
  | drop => rfl

theorem callNext_judged (h : traversal.Inv) (hget : traversal.frames[index]? = some frame)
    (hcalled : frame.nextCalled = false) {request : Request}
    (hstep : callNext chain traversal index frame request = some next)
    : next.Inv ∧ traversal.Judged (index, .call request) next := by
  have hwatched : traversal.watched (index, .call request) = true :=
    watched_passive (fun _ _ hsame => by cases hsame) (fun hsame => by cases hsame) (fun hsame => by cases hsame)
  unfold callNext at hstep
  split at hstep
  . split at hstep
    . cases hstep
    . next capabilities _ station behind _ =>
      split at hstep
      . cases hstep
        refine ⟨?_, judged_same rfl hwatched⟩
        exact set_inv h hget le_rfl (h.reads index frame hget) (h.ready index frame hget) rfl rfl fun _ => hcalled
      . next hvalid =>
        cases hstep
        refine ⟨opening_inv h hget hcalled station behind request _, judged_concat rfl ?_⟩
        exact iff_of_true (validateForwardedRequest_ok (h.reads index frame hget) hvalid) hwatched
  . split at hstep
    . split at hstep
      . cases hstep
      . next station behind _ =>
        cases hstep
        refine ⟨opening_inv h hget hcalled station behind frame.request [], judged_same ?_ hwatched⟩
        unfold opening
        exact List.append_nil _
    . cases hstep

theorem response_judged (h : traversal.Inv) (hget : traversal.frames[index]? = some frame)
    {capabilities : MiddlewareCapabilities} (hstation : frame.station.capabilities = some capabilities)
    (response : Response) (boundaries : List BoundaryRun)
    : (Event.left capabilities frame.nextCalled (traversal.downstreamOf index) frame.ownReads
        (outcome chain frame traversal.reads (.response response) boundaries).2
        (outcome chain frame traversal.reads (.response response) boundaries).1).Compliant
      ↔ traversal.watched (index, .answer (.response response) boundaries) = true := by
  have hreads := h.reads index frame hget
  unfold watched outcome
  dsimp only
  rw [hget]
  dsimp only
  rw [hstation, h.seen index frame hget]
  unfold watchedAnswer
  dsimp only [Option.map_some]
  cases frame.nextCalled with
  | false =>
    rw [if_pos (c := (!false) = true) rfl]
    cases hplain : isSuccess response.status || isRedirection response.status || isClientError response.status
        || isServerError response.status with
    | true =>
      rw [Bool.true_or]
      apply iff_of_true _ rfl
      split
      . next result hok =>
        obtain ⟨rfl, hcovers, hstatus⟩ := validateResponseEffects_uncalled.mp hok
        refine ⟨coversReads_of hcovers hreads, (coversStatus_iff hplain).mpr hstatus⟩
      . trivial
    | false =>
      rw [Bool.false_or, decide_eq_true_eq]
      split
      . next result hok =>
        obtain ⟨rfl, hcovers, -⟩ := validateResponseEffects_uncalled.mp hok
        exact iff_of_false (fun hcompliant => not_coversStatus hplain hcompliant.2)
          fun hrefused => hrefused.2 (hcovers hrefused.1)
      . next error herror =>
        refine iff_of_true trivial ?_
        by_contra hread
        have hok := (@validateResponseEffects_uncalled capabilities chain.display response response
          frame.readsAtEntry traversal.reads (Option.map Response.observation (traversal.downstreamOf index))).mpr
          ⟨rfl, fun hlt => by_contra fun hmissing => hread ⟨hlt, hmissing⟩, permitsStatus_of hplain⟩
        rw [hok] at herror
        cases herror
  | true =>
    rw [if_neg (c := (!true) = true) Bool.false_ne_true]
    cases traversal.downstreamOf index with
    | none =>
      rw [Option.map_none]
      have hok : validateResponseEffects chain.display response (some ⟨capabilities, true, none, frame.readsAtEntry⟩)
          traversal.reads = .ok response := rfl
      rw [hok]
      unfold Event.Compliant
      simp [and_comm]
    | some downstream =>
      rw [Option.map_some]
      dsimp only
      by_cases hcovers : CoversDifference capabilities (some downstream) response
      . have hok := (@validateResponseEffects_seen capabilities chain.display response response frame.readsAtEntry
          traversal.reads downstream).mpr ⟨rfl, hcovers⟩
        rw [hok]
        unfold Event.Compliant
        simp [hcovers]
      . have herror : ∃ error, validateResponseEffects chain.display response
            (some ⟨capabilities, true, some downstream.observation, frame.readsAtEntry⟩) traversal.reads
            = .error error := by
          cases hresult : validateResponseEffects chain.display response
            (some ⟨capabilities, true, some downstream.observation, frame.readsAtEntry⟩) traversal.reads with
          | ok result => exact absurd (validateResponseEffects_seen.mp hresult).2 hcovers
          | error error => exact ⟨error, rfl⟩
        obtain ⟨error, herror⟩ := herror
        rw [herror]
        simp [hcovers, Event.Compliant]

theorem leave_judged (h : traversal.Inv) (hget : traversal.frames[index]? = some frame) (answer : Answer)
    (boundaries : List BoundaryRun)
    : (leave chain traversal index frame answer boundaries).Inv
      ∧ traversal.Judged (index, .answer answer boundaries)
        (leave chain traversal index frame answer boundaries) := by
  refine ⟨left_inv h hget _ _, ?_⟩
  cases hstation : frame.station.capabilities with
  | none =>
    apply judged_same
    . unfold leave
      dsimp only
      rw [hstation]
      exact List.append_nil _
    . exact watched_free hget hstation _
  | some capabilities =>
    have hevents : (leave chain traversal index frame answer boundaries).events = traversal.events
        ++ [.left capabilities frame.nextCalled (traversal.downstreamOf index) frame.ownReads
          (outcome chain frame traversal.reads answer boundaries).2
          (outcome chain frame traversal.reads answer boundaries).1] := by
      unfold leave
      dsimp only
      rw [hstation]
    apply judged_concat hevents
    cases answer with
    | response response => exact response_judged h hget hstation response boundaries
    | error error => exact iff_of_true trivial (watched_failed hget (fun _ hsame => by cases hsame) _)
    | panicked => exact iff_of_true trivial (watched_failed hget (fun _ hsame => by cases hsame) _)

theorem watched_read (hget : traversal.frames[index]? = some frame) {capabilities : MiddlewareCapabilities}
    (hstation : frame.station.capabilities = some capabilities) (hended : frame.progress ≠ .running)
    : traversal.watched (index, .read) = decide (.readBody ∈ capabilities) := by
  unfold watched
  dsimp only
  rw [hget]
  dsimp only
  rw [hstation]
  cases hprogress : frame.progress with
  | running => exact absurd hprogress hended
  | _ => rfl

theorem read_judged (h : traversal.Inv) (hget : traversal.frames[index]? = some frame)
    (hbegun : frame.progress.begun = true)
    : (traversal.read index frame).Inv ∧ traversal.Judged (index, .read) (traversal.read index frame) := by
  have hreads := h.reads index frame hget
  constructor
  . refine set_inv h hget (Nat.le_succ _) ?_ ?_ rfl rfl id
    . dsimp only
      omega
    . intro hidle
      dsimp only at hidle
      rw [hidle] at hbegun
      cases hbegun
  . cases hstation : frame.station.capabilities with
    | none =>
      apply judged_same _ (watched_free hget hstation _)
      unfold read
      dsimp only
      rw [hstation]
      cases frame.progress <;> exact List.append_nil _
    | some capabilities =>
      by_cases hrunning : frame.progress = .running
      . apply judged_same
        . unfold read
          dsimp only
          rw [hrunning]
          exact List.append_nil _
        . unfold watched
          dsimp only
          rw [hget]
          dsimp only
          rw [hrunning]
      . apply @judged_concat traversal _ (index, .read) (.readBehind capabilities)
        . unfold read
          dsimp only
          rw [hstation]
          cases hprogress : frame.progress with
          | running => exact absurd hprogress hrunning
          | _ => rfl
        . rw [watched_read hget hstation hrunning]
          unfold Event.Compliant
          exact decide_eq_true_iff.symm

theorem abandon_judged (h : traversal.Inv) (hget : traversal.frames[index]? = some frame)
    (hresponse : frame.response = none)
    : (traversal.abandon index frame).Inv ∧ traversal.Judged (index, .drop) (traversal.abandon index frame) := by
  constructor
  . refine set_inv h hget le_rfl (h.reads index frame hget) (fun hready => by cases hready) rfl ?_ id
    exact hresponse.symm
  . cases hstation : frame.station.capabilities with
    | none =>
      apply judged_same _ (watched_free hget hstation _)
      unfold abandon
      dsimp only
      rw [hstation]
      exact List.append_nil _
    | some capabilities =>
      apply @judged_concat traversal _ (index, .drop) (.dropped capabilities frame.ownReads)
      . unfold abandon
        dsimp only
        rw [hstation]
      . unfold watched
        dsimp only
        rw [hget]
        dsimp only
        rw [hstation]
        unfold Event.Compliant
        exact decide_eq_true_iff.symm

theorem step_judged (h : traversal.Inv) {label : Nat × Doing} (hstep : step chain traversal label = some next)
    : next.Inv ∧ traversal.Judged label next := by
  obtain ⟨index, doing⟩ := label
  unfold step at hstep
  dsimp only at hstep
  split at hstep
  . cases hstep
  . next frame hget =>
    have hready := h.ready index frame hget
    split at hstep
    . next hprogress =>
      cases hstep
      refine ⟨set_inv h hget le_rfl ?_ (fun hidle => by cases hidle) rfl ?_ id, judged_same rfl ?_⟩
      . dsimp only
        rw [hready hprogress]
        exact le_rfl
      . unfold Frame.response
        rw [hprogress]
      . exact watched_passive (fun _ _ hsame => by cases hsame) (fun hsame => by cases hsame)
          (fun hsame => by cases hsame)
    . split at hstep
      . next hbody =>
        cases hstep
        rw [Bool.and_eq_true] at hbody
        exact read_judged h hget hbody.1
      . cases hstep
    . next request progress =>
      split at hstep
      . cases hstep
      . next hfree =>
        simp only [Bool.or_eq_true, not_or, Bool.not_eq_true] at hfree
        exact callNext_judged h hget hfree.1.2 hstep
    . cases hstep
      exact leave_judged h hget _ _
    . next hprogress =>
      cases hstep
      refine abandon_judged h hget ?_
      unfold Frame.response
      rw [hprogress]
    . next hprogress =>
      cases hstep
      refine abandon_judged h hget ?_
      unfold Frame.response
      rw [hprogress]
    . cases hstep

/-- Over every run of the layers, every effect is covered by a capability exactly when every response that a layer
gives after calling the next one was watched. -/
theorem capabilities_enforced_iff (chain : MiddlewareChain) (tracker : Nat) (request : Request)
    (labels : List (Nat × Doing)) (hrun : Reach.exec (step chain) (chain.start tracker request) labels = some next)
    : (∀ event ∈ next.events, event.Compliant)
      ↔ Reach.execWhen (step chain) watched (chain.start tracker request) labels = some next := by
  rw [Reach.exec_iff_execWhen (fun _ _ _ hinv hstep => step_judged hinv hstep) (start_inv tracker request) hrun]
  apply and_iff_right
  intro event hevent
  cases hevent

def bareChain : MiddlewareChain where
  preRoute := []
  resolve _ := some [∅]
  display := toString

def homeRequest : Request := ⟨"GET", ⟨none, none, "/", none⟩, some 0, true⟩

def bareResponse (status : Nat) : Response := ⟨status, .empty, .text ""⟩

def calledNext : List (Nat × Doing) :=
  [(0, .begin), (0, .call homeRequest), (1, .begin), (1, .call homeRequest)]

def awaitedNext : List (Nat × Doing) :=
  calledNext ++ [(2, .begin), (2, .answer (.response (bareResponse 200)) []),
    (1, .answer (.response (bareResponse 200)) []), (0, .answer (.response (bareResponse 200)) [])]

theorem capabilities_enforced_iff_awaited
    : ∃ next, Reach.exec (step bareChain) (bareChain.start 0 homeRequest) awaitedNext = some next
      ∧ ∀ event ∈ next.events, event.Compliant := by
  have hrun : (Reach.execWhen (step bareChain) watched (bareChain.start 0 homeRequest) awaitedNext).isSome = true := by
    decide
  obtain ⟨next, hwhen⟩ := Option.isSome_iff_exists.mp hrun
  have hexec := Reach.exec_of_execWhen hwhen
  exact ⟨next, hexec, (capabilities_enforced_iff bareChain 0 homeRequest _ hexec).mpr hwhen⟩

-- The layer drops the future that it got and redirects.
theorem unseen_redirect_leaves
    : ∃ next, Reach.exec (step bareChain) (bareChain.start 0 homeRequest)
        (calledNext ++ [(2, .drop), (1, .answer (.response (bareResponse 302)) [])]) = some next
      ∧ .left ∅ true none 0 false (bareResponse 302) ∈ next.events
      ∧ ¬ (Event.left ∅ true none 0 false (bareResponse 302)).Compliant := by
  refine ⟨_, rfl, ?_, ?_⟩
  . exact List.mem_append_right _ (List.mem_singleton_self _)
  . intro hcompliant
    cases hcompliant.2.1

end Traversal

end Native

end Pliego
