import Pliego.Hyphae.Replay

/-!
The bounded retry of one append batch: what is sent, when it stops, and what a response that it returns says.
-/

namespace Pliego

namespace Hyphae

open Bytes

abbrev BatchTransport (σ : Type) := AppendBatch → σ → Except TransportError AppendResponse × σ

variable {isJson : String → Bool} {sha256 : Sha256} {σ : Type}

-- One attempt of `append_with_retry`, where it is known whether another one may follow.
inductive Attempt (isJson : String → Bool) (sha256 : Sha256) where
  | again
  | finished (result : Except SyncError (ValidatedAppendResponse isJson sha256))

def judge (isJson : String → Bool) (sha256 : Sha256) (batch : AppendBatch)
    (reply : Except TransportError AppendResponse)
    : Attempt isJson sha256 :=
  match reply with
  | .ok response =>
    match h : response.validateAgainst isJson sha256 batch with
    | .ok () => .finished (.ok ⟨batch, response, h⟩)
    | .error error => .finished (.error (.validation error))
  | .error (.retryable _) => .again
  | .error error => .finished (.error (.transport error))

def attempts (isJson : String → Bool) (sha256 : Sha256) (transport : BatchTransport σ) (batch : AppendBatch)
    (left : Nat) (state : σ)
    : Except SyncError (ValidatedAppendResponse isJson sha256) × σ :=
  match left with
  | 0 => (.error .attemptsExhausted, state)
  | left + 1 =>
    let (reply, state) := transport batch state
    match judge isJson sha256 batch reply with
    | .finished result => (result, state)
    | .again => attempts isJson sha256 transport batch left state

def appendWithRetry (isJson : String → Bool) (sha256 : Sha256) (transport : BatchTransport σ) (batch : AppendBatch)
    (maxAttempts : UInt8) (state : σ)
    : Except SyncError (ValidatedAppendResponse isJson sha256) × σ :=
  match batch.validate isJson with
  | .error error => (.error (.validation error), state)
  | .ok () => attempts isJson sha256 transport batch maxAttempts.toNat state

abbrev Exchanged := AppendBatch × Except TransportError AppendResponse

def recorded (transport : BatchTransport σ) : BatchTransport (σ × List Exchanged) := fun batch (state, sent) =>
  let (reply, state) := transport batch state
  (reply, state, sent ++ [(batch, reply)])

def IsRetryable (reply : Except TransportError AppendResponse) : Prop := ∃ message, reply = .error (.retryable message)

-- A response that says of each event of the batch where it stands in the journal.
structure Commits (isJson : String → Bool) (sha256 : Sha256) (batch : AppendBatch) (response : AppendResponse)
    : Prop where
  batchId : response.batchId = batch.batchId
  streamId : response.streamId = batch.streamId
  oneToOne : List.Forall₂ (fun (event : EventEnvelope) (receipt : Receipt) =>
      receipt.clientEventId = event.clientEventId ∧ receipt.streamId = batch.streamId
        ∧ event.wireHash isJson sha256 = .ok receipt.envelopeHash)
    batch.events response.receipts
  linked : Linked batch.expectedCursor.headHash batch.expectedCursor.position.toNat response.receipts
  position : response.nextCursor.position.toNat = batch.expectedCursor.position.toNat + batch.events.length
  head : response.nextCursor.headHash = lastHash batch.expectedCursor.headHash response.receipts
  journal : ∀ receipt ∈ response.receipts, receipt.journalHead = response.nextCursor.headHash

section Response

variable {batch : AppendBatch} {response : AppendResponse}

theorem receipts_ok {index : Nat} {prev : String} {events : List EventEnvelope} {receipts : List Receipt}
    (hlength : receipts.length = events.length)
    (h : AppendResponse.validateReceipts isJson sha256 batch index prev (events.zip receipts) = .ok ())
    : List.Forall₂ (fun (event : EventEnvelope) (receipt : Receipt) =>
          receipt.clientEventId = event.clientEventId ∧ receipt.streamId = batch.streamId
            ∧ event.wireHash isJson sha256 = .ok receipt.envelopeHash) events receipts
      ∧ Linked prev (batch.expectedCursor.position.toNat + index) receipts := by
  induction events generalizing receipts index prev with
  | nil =>
    rw [List.eq_nil_of_length_eq_zero hlength]
    exact ⟨.nil, trivial⟩
  | cons event events ih =>
    cases receipts with
    | nil => cases hlength
    | cons receipt receipts =>
      rw [List.zip_cons_cons] at h
      unfold AppendResponse.validateReceipts at h
      obtain ⟨-, -, h⟩ := Except.bind_eq_ok.mp h
      obtain ⟨⟨⟩, hidentity, h⟩ := Except.bind_eq_ok.mp h
      obtain ⟨wireHash, hwire, h⟩ := Except.bind_eq_ok.mp h
      obtain ⟨⟨⟩, hhash, h⟩ := Except.bind_eq_ok.mp h
      obtain ⟨seq, hseq, h⟩ := Except.bind_eq_ok.mp h
      obtain ⟨⟨⟩, hsame, h⟩ := Except.bind_eq_ok.mp h
      obtain ⟨⟨⟩, hprev, h⟩ := Except.bind_eq_ok.mp h
      rw [ensure_eq_ok, Bool.and_eq_true, beq_iff_eq, beq_iff_eq] at hidentity
      rw [ensure_eq_ok, beq_iff_eq] at hhash hsame hprev
      obtain ⟨hrest, hlinked⟩ := ih (Nat.succ.inj hlength) h
      refine ⟨.cons ⟨hidentity.1, hidentity.2, hhash ▸ hwire⟩ hrest, ?_, hprev, hlinked⟩
      rw [hsame, expectedSeq_ok hseq]

theorem commits_of_validate (h : response.validateAgainst isJson sha256 batch = .ok ())
    : batch.validate isJson = .ok () ∧ Commits isJson sha256 batch response := by
  unfold AppendResponse.validateAgainst at h
  obtain ⟨⟨⟩, hbatch, h⟩ := Except.bind_eq_ok.mp h
  obtain ⟨-, -, h⟩ := Except.bind_eq_ok.mp h
  obtain ⟨⟨⟩, hbatchId, h⟩ := Except.bind_eq_ok.mp h
  obtain ⟨⟨⟩, hstreamId, h⟩ := Except.bind_eq_ok.mp h
  obtain ⟨⟨⟩, hlength, h⟩ := Except.bind_eq_ok.mp h
  obtain ⟨-, -, h⟩ := Except.bind_eq_ok.mp h
  obtain ⟨-, -, h⟩ := Except.bind_eq_ok.mp h
  obtain ⟨⟨⟩, hreceipts, h⟩ := Except.bind_eq_ok.mp h
  obtain ⟨last, hlast, h⟩ := Except.bind_eq_ok.mp h
  obtain ⟨appended, happended, h⟩ := Except.bind_eq_ok.mp h
  obtain ⟨next, hnext, h⟩ := Except.bind_eq_ok.mp h
  rw [ensure_eq_ok, beq_iff_eq] at hbatchId hstreamId hlength
  rw [ensure_eq_ok] at h
  simp only [Bool.and_eq_true, beq_iff_eq, List.all_eq_true] at h
  obtain ⟨⟨⟨hposition, hhead⟩, -⟩, hjournal⟩ := h
  obtain ⟨honeToOne, hlinked⟩ := receipts_ok hlength hreceipts
  refine ⟨hbatch, hbatchId, hstreamId, honeToOne, hlinked, ?_, ?_, hjournal⟩
  . rw [hposition, checkedAdd_eq_some.mp (orError_eq_ok.mp hnext), tryFrom_eq_some.mp (orError_eq_ok.mp happended)]
  . rw [hhead, lastHash_getLast? (orError_eq_ok.mp hlast)]

theorem verifyAs_claimed {verifier : ReceiptVerifier} {context : VerificationContext} {payload : List UInt8}
    {signature : String} {authority claimed : AuthorityId} (hclaimed : context.claimedAuthority = some claimed)
    (h : verifyAs verifier context payload signature = .ok authority)
    : authority = claimed := by
  obtain ⟨accepted, -, h⟩ := Except.bind_eq_ok.mp h
  rw [hclaimed] at h
  dsimp only [Option.any_some] at h
  split at h
  . cases h
  . next hsame =>
    cases h
    simpa using Eq.symm (by simpa using hsame)

theorem forM_eq_ok {α ε : Type} {f : α → Except ε Unit} {items : List α} (h : items.forM f = .ok ())
    : ∀ item ∈ items, f item = .ok () := by
  induction items with
  | nil => exact nofun
  | cons first rest ih =>
    obtain ⟨⟨⟩, hfirst, hrest⟩ := Except.bind_eq_ok.mp h
    intro item hitem
    cases List.mem_cons.mp hitem with
    | inl hsame => exact hsame ▸ hfirst
    | inr hmem => exact ih hrest item hmem

theorem verified_authority {verifier : ReceiptVerifier} {validated : ValidatedAppendResponse isJson sha256}
    {authority : AuthorityId} (h : validated.verify verifier = .ok (response, authority))
    : response = validated.response ∧ authority = validated.response.attestation.authorityId
      ∧ ∀ receipt ∈ validated.response.receipts, receipt.verify verifier authority = .ok () := by
  obtain ⟨payload, -, h⟩ := Except.bind_eq_ok.mp h
  obtain ⟨accepted, haccepted, h⟩ := Except.bind_eq_ok.mp h
  obtain ⟨⟨⟩, hreceipts, h⟩ := Except.bind_eq_ok.mp h
  cases h
  exact ⟨rfl, verifyAs_claimed rfl (Except.mapError_eq_ok.mp haccepted), forM_eq_ok hreceipts⟩

end Response

def Concluded (batch : AppendBatch) (left : Nat) (sent : List Exchanged)
    (result : Except SyncError (ValidatedAppendResponse isJson sha256)) : Prop :=
  match result with
  | .ok validated => validated.batch = batch ∧ sent.getLast? = some (batch, .ok validated.response)
  | .error .attemptsExhausted => sent.length = left ∧ ∀ exchanged ∈ sent, IsRetryable exchanged.2
  | .error (.transport error) => sent.getLast? = some (batch, .error error) ∧ ¬ IsRetryable (.error error)
  | .error (.validation error) =>
    ∃ response, sent.getLast? = some (batch, .ok response)
      ∧ response.validateAgainst isJson sha256 batch = .error error
  | .error _ => False

-- The exchanges of one run: the same batch every time, and each but the last was worth another attempt.
structure Exchanges (batch : AppendBatch) (left : Nat) (sent : List Exchanged)
    (result : Except SyncError (ValidatedAppendResponse isJson sha256)) : Prop where
  bounded : sent.length ≤ left
  identical : ∀ exchanged ∈ sent, exchanged.1 = batch
  retryable : ∀ exchanged ∈ sent.dropLast, IsRetryable exchanged.2
  concluded : Concluded batch left sent result

section Run

variable {batch : AppendBatch} {transport : BatchTransport σ}

theorem judge_finished {reply : Except TransportError AppendResponse}
    {result : Except SyncError (ValidatedAppendResponse isJson sha256)}
    (h : judge isJson sha256 batch reply = .finished result) (left : Nat)
    : Exchanges batch (left + 1) [(batch, reply)] result := by
  refine ⟨Nat.succ_le_succ (Nat.zero_le left), ?_, nofun, ?_⟩
  . intro exchanged hmem
    rw [List.mem_singleton.mp hmem]
  . unfold judge at h
    split at h
    . next response =>
      split at h
      . next hvalid =>
        cases h
        exact ⟨rfl, rfl⟩
      . next error hinvalid =>
        cases h
        exact ⟨response, rfl, hinvalid⟩
    . cases h
    . next error hterminal =>
      cases h
      refine ⟨rfl, ?_⟩
      intro hretryable
      obtain ⟨message, hmessage⟩ := hretryable
      exact hterminal message (Except.error.inj hmessage)

theorem judge_ok {response : AppendResponse} (h : response.validateAgainst isJson sha256 batch = .ok ())
    : judge isJson sha256 batch (.ok response) = .finished (.ok ⟨batch, response, h⟩) := by
  unfold judge
  dsimp only
  split
  . rfl
  . next error hinvalid =>
    rw [h] at hinvalid
    cases hinvalid

theorem judge_again {reply : Except TransportError AppendResponse} (h : judge isJson sha256 batch reply = .again)
    : IsRetryable reply := by
  unfold judge at h
  split at h
  . split at h
    . cases h
    . cases h
  . next message => exact ⟨message, rfl⟩
  . cases h

theorem Exchanges.cons {left : Nat} {sent : List Exchanged}
    {result : Except SyncError (ValidatedAppendResponse isJson sha256)}
    {reply : Except TransportError AppendResponse} (h : Exchanges batch left sent result)
    (hreply : IsRetryable reply)
    : Exchanges batch (left + 1) ((batch, reply) :: sent) result := by
  constructor
  . exact Nat.succ_le_succ h.bounded
  . intro exchanged hmem
    cases List.mem_cons.mp hmem with
    | inl hfirst => rw [hfirst]
    | inr hrest => exact h.identical exchanged hrest
  . intro exchanged hmem
    cases sent with
    | nil => cases hmem
    | cons next sent =>
      rw [List.dropLast_cons_cons] at hmem
      cases List.mem_cons.mp hmem with
      | inl hfirst =>
        rw [hfirst]
        exact hreply
      | inr hrest => exact h.retryable exchanged hrest
  . have hlast : ∀ last, sent.getLast? = some last → ((batch, reply) :: sent).getLast? = some last := by
      intro last hlast
      rw [List.getLast?_cons, hlast]
      rfl
    have hconcluded := h.concluded
    cases result with
    | ok validated => exact ⟨hconcluded.1, hlast _ hconcluded.2⟩
    | error error =>
      cases error with
      | attemptsExhausted =>
        refine ⟨congrArg Nat.succ hconcluded.1, ?_⟩
        intro exchanged hmem
        cases List.mem_cons.mp hmem with
        | inl hfirst =>
          rw [hfirst]
          exact hreply
        | inr hrest => exact hconcluded.2 exchanged hrest
      | transport error => exact ⟨hlast _ hconcluded.1, hconcluded.2⟩
      | validation error =>
        obtain ⟨response, hresponse, hinvalid⟩ := hconcluded
        exact ⟨response, hlast _ hresponse, hinvalid⟩
      | _ => exact hconcluded

theorem attempts_exchanges (left : Nat) (state : σ) (before : List Exchanged)
    : ∃ sent, (attempts isJson sha256 (recorded transport) batch left (state, before)).2.2 = before ++ sent
      ∧ Exchanges batch left sent (attempts isJson sha256 (recorded transport) batch left (state, before)).1 := by
  induction left generalizing state before with
  | zero =>
    exact ⟨[], (List.append_nil _).symm, Nat.le_refl 0, nofun, nofun, rfl, nofun⟩
  | succ left ih =>
    have hrecorded : recorded transport batch (state, before)
        = ((transport batch state).1, (transport batch state).2, before ++ [(batch, (transport batch state).1)]) := rfl
    unfold attempts
    rw [hrecorded]
    dsimp only
    cases hjudge : judge isJson sha256 batch (transport batch state).1 with
    | finished result => exact ⟨_, rfl, judge_finished hjudge left⟩
    | again =>
      obtain ⟨sent, hsent, hexchanges⟩ := ih (transport batch state).2 (before ++ [(batch, (transport batch state).1)])
      refine ⟨(batch, (transport batch state).1) :: sent, ?_, hexchanges.cons (judge_again hjudge)⟩
      rw [hsent, List.append_assoc, List.singleton_append]

theorem attempts_recorded (left : Nat) (state : σ) (before : List Exchanged)
    : (attempts isJson sha256 (recorded transport) batch left (state, before)).1
      = (attempts isJson sha256 transport batch left state).1 := by
  induction left generalizing state before with
  | zero => rfl
  | succ left ih =>
    have hrecorded : recorded transport batch (state, before)
        = ((transport batch state).1, (transport batch state).2, before ++ [(batch, (transport batch state).1)]) := rfl
    unfold attempts
    rw [hrecorded]
    dsimp only
    cases judge isJson sha256 batch (transport batch state).1 with
    | finished result => rfl
    | again => exact ih _ _

end Run

theorem append_with_retry_commits (isJson : String → Bool) (sha256 : Sha256) (transport : BatchTransport σ)
    (batch : AppendBatch) (maxAttempts : UInt8) (state : σ)
    : let outcome := appendWithRetry isJson sha256 (recorded transport) batch maxAttempts (state, [])
      let sent := outcome.2.2
      outcome.1 = (appendWithRetry isJson sha256 transport batch maxAttempts state).1
      ∧ (∀ error, batch.validate isJson = .error error → sent = [] ∧ outcome.1 = .error (.validation error))
      ∧ (batch.validate isJson = .ok () → Exchanges batch maxAttempts.toNat sent outcome.1)
      ∧ ∀ validated, outcome.1 = .ok validated →
        validated.batch = batch ∧ sent.getLast? = some (batch, .ok validated.response)
        ∧ Commits isJson sha256 batch validated.response
        ∧ ∀ verifier response authority, validated.verify verifier = .ok (response, authority) →
          response = validated.response ∧ authority = validated.response.attestation.authorityId
          ∧ ∀ receipt ∈ validated.response.receipts, receipt.verify verifier authority = .ok () := by
  intro outcome sent
  have hexchanges : batch.validate isJson = .ok () → Exchanges batch maxAttempts.toNat sent outcome.1 := by
    intro hvalid
    obtain ⟨all, hall, hexchanges⟩ :=
      @attempts_exchanges isJson sha256 σ batch transport maxAttempts.toNat state []
    rw [List.nil_append] at hall
    unfold sent outcome appendWithRetry
    rw [hvalid]
    dsimp only
    rw [hall]
    exact hexchanges
  refine ⟨?_, ?_, hexchanges, ?_⟩
  . unfold outcome appendWithRetry
    cases batch.validate isJson with
    | error error => rfl
    | ok done => exact attempts_recorded _ _ _
  . intro error herror
    unfold sent outcome appendWithRetry
    rw [herror]
    exact ⟨rfl, rfl⟩
  . intro validated hok
    have hvalid : batch.validate isJson = .ok () := by
      cases hbatch : batch.validate isJson with
      | ok done => rfl
      | error error =>
        unfold outcome appendWithRetry at hok
        rw [hbatch] at hok
        cases hok
    have hconcluded := (hexchanges hvalid).concluded
    rw [hok] at hconcluded
    obtain ⟨hbatch, hlast⟩ := hconcluded
    refine ⟨hbatch, hlast, ?_, fun verifier response authority h => verified_authority h⟩
    have hcommits := (commits_of_validate validated.valid).2
    rw [hbatch] at hcommits
    exact hcommits

def otherAuthority : AuthorityId := ⟨"elsewhere", by decide⟩

-- The batch names no authority: the same one is committed under any that the response claims.
theorem authority_is_claimed
    : ¬ ∃ authorityOf : AppendBatch → AuthorityId, ∀ (transport : BatchTransport Unit) batch maxAttempts validated,
        (appendWithRetry (fun _ => true) sha256Digest transport batch maxAttempts ()).1 = .ok validated →
        validated.response.attestation.authorityId = authorityOf batch := by
  intro hbound
  obtain ⟨authorityOf, hbound⟩ := hbound
  have hvalid : sampleBatch.validate (fun _ => true) = .ok () := by decide +kernel
  have hanswers : ∀ authorityId ∈ [hyphaeAuthority, otherAuthority],
      (answerAs authorityId "BBBBBBBBBBBBBBBB").validateAgainst (fun _ => true) sha256Digest sampleBatch = .ok () := by
    decide +kernel
  have hclaimed : ∀ authorityId ∈ [hyphaeAuthority, otherAuthority], authorityId = authorityOf sampleBatch := by
    intro authorityId hmem
    have hanswer := hanswers authorityId hmem
    apply hbound (fun _ _ => (.ok (answerAs authorityId "BBBBBBBBBBBBBBBB"), ())) sampleBatch 1 ⟨sampleBatch, answerAs authorityId "BBBBBBBBBBBBBBBB", hanswer⟩
    unfold appendWithRetry
    rw [hvalid]
    dsimp only
    rw [show UInt8.toNat 1 = 0 + 1 from rfl]
    unfold attempts
    dsimp only
    rw [judge_ok hanswer]
  have hsame := (hclaimed hyphaeAuthority (.head _)).trans (hclaimed otherAuthority (.tail _ (.head _))).symm
  exact absurd hsame (by decide)

end Hyphae

end Pliego
