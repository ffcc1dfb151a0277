import Pliego.Data.Idempotency

/-!
The two entry points of an action: `act`, and `act_idempotent`, which consults the idempotency
manager before it calls `act`.
-/

namespace Pliego

open Bytes

namespace Data

inductive ActionCommitState where
  | notStarted
  | preCommit
  | committing
  | committed
  | failed
  | outcomeUnknown
  | compensationRequired
  deriving DecidableEq, Repr

namespace ActionCommitState

def debug (state : ActionCommitState) : String :=
  match state with
  | .notStarted => "NotStarted"
  | .preCommit => "PreCommit"
  | .committing => "Committing"
  | .committed => "Committed"
  | .failed => "Failed"
  | .outcomeUnknown => "OutcomeUnknown"
  | .compensationRequired => "CompensationRequired"

def mayHaveCommitted (state : ActionCommitState) : Bool :=
  match state with
  | .notStarted | .preCommit | .failed => false
  | .committing | .committed | .outcomeUnknown | .compensationRequired => true

end ActionCommitState

namespace ActionCommitHandle

def invalidTransition (current next : ActionCommitState) : DataError :=
  .invalidActionState (current.debug ++ " -> " ++ next.debug)

def transition (state expected next : ActionCommitState) : Except DataError ActionCommitState :=
  if state ≠ expected then
    .error (invalidTransition state next)
  else
    .ok next

def enterPreCommit (state : ActionCommitState) : Except DataError ActionCommitState :=
  transition state .notStarted .preCommit

def beginCommit (state : ActionCommitState) : Except DataError ActionCommitState :=
  match state with
  | .notStarted | .preCommit => .ok .committing
  | current => .error (invalidTransition current .committing)

def committed (state : ActionCommitState) : Except DataError ActionCommitState :=
  transition state .committing .committed

def failed (state : ActionCommitState) : Except DataError ActionCommitState :=
  match state with
  | .notStarted | .preCommit | .committing => .ok .failed
  | current => .error (invalidTransition current .failed)

def outcomeUnknown (state : ActionCommitState) : Except DataError ActionCommitState :=
  transition state .committing .outcomeUnknown

def compensationRequired (state : ActionCommitState) : Except DataError ActionCommitState :=
  transition state .committed .compensationRequired

end ActionCommitHandle

structure ActionFailure where
  error : DataError
  commitState : ActionCommitState
  deriving DecidableEq

inductive ActionNavigation where
  | stay
  | seeOther (location : String)
  deriving DecidableEq, Repr

inductive ActionResponse (Output FieldErrors : Type) where
  | success (output : Output) (navigation : ActionNavigation)
  | invalid (fieldErrors : FieldErrors)
  deriving DecidableEq

structure ActionCodec (Input R : Type) where
  canonicalJsonBytes : Input → Except DataError (List UInt8)
  toVec : R → Option (List UInt8)
  fromSlice : List UInt8 → Option R

/--
How the `select!` of `act` ends. An interruption reads the commit state and may then poll the
future once more, for the grace period of the policy.
-/
inductive ActionEnd (R : Type) where
  | completed (result : Except DataError R)
  | interrupted (interruption : DataError) (commit : ActionCommitState)
    (grace : Option (Except DataError R))

structure ActionRun (R : Type) where
  ended : ActionEnd R
  commit : ActionCommitState

variable {Input R : Type}

def failWith (commit : ActionCommitState) (result : Except DataError R)
    : Except ActionFailure R :=
  match result with
  | .ok response => .ok response
  | .error error => .error ⟨error, commit⟩

def finishInterruptedAction (interruption : DataError) (commit final : ActionCommitState)
    (grace : Option (Except DataError R)) : Except ActionFailure R :=
  match commit with
  | .notStarted | .preCommit | .failed => .error ⟨interruption, final⟩
  | .committing => .error ⟨.actionOutcomeUnknown, final⟩
  | .committed | .compensationRequired =>
    match grace with
    | some result => failWith final result
    | none => .error ⟨.actionOutcomeUnknown, final⟩
  | .outcomeUnknown => .error ⟨.actionOutcomeUnknown, .outcomeUnknown⟩

def finishAct (codec : ActionCodec Input R) (policy : ActionPolicy) (run : ActionRun R)
    : Except ActionFailure R :=
  let result :=
    match run.ended with
    | .completed result => failWith run.commit result
    | .interrupted interruption commit grace =>
      finishInterruptedAction interruption commit run.commit grace
  match result with
  | .error failure => .error failure
  | .ok response =>
    match codec.toVec response with
    | none => .error ⟨.serialization, run.commit⟩
    | some bytes =>
      if bytes.length > policy.maxOutputBytes then
        .error ⟨.actionOutput bytes.length policy.maxOutputBytes, run.commit⟩
      else
        .ok response

def actAdmission (sha256 : Sha256) (context : DataContext) (policy : ActionPolicy)
    (admission : ActionAdmission) : Except DataError Unit :=
  match context.requireActionPolicy sha256 policy with
  | .error error => .error error
  | .ok () =>
    match admitRequest policy admission with
    | .error error => .error error
    | .ok () => if context.closed then .error .contextClosed else .ok ()

def act (sha256 : Sha256) (codec : ActionCodec Input R) (context : DataContext)
    (policy : ActionPolicy) (admission : ActionAdmission) (run : ActionRun R)
    : Except ActionFailure R :=
  match actAdmission sha256 context policy admission with
  | .error error => .error ⟨error, .notStarted⟩
  | .ok () => finishAct codec policy run

structure ActionIdempotency where
  policy : IdempotencyPolicy
  key : String
  partition : String
  deploymentEpoch : Nat
  deriving DecidableEq

def ActionIdempotency.scope (idempotency : ActionIdempotency) (policy : ActionPolicy)
    : IdempotencyScope :=
  {
    actionId := policy.id
    actionRevision := policy.semanticRevision
    deploymentEpoch := idempotency.deploymentEpoch
    key := idempotency.key
    partition := idempotency.partition
  }

def idempotencyDataError (error : IdempotencyError) : DataError :=
  match error with
  | .inputConflict => .actionIdempotencyConflict
  | .inProgress => .actionInProgress
  | .outcomeUnknown => .actionOutcomeUnknown
  | .resultTooLarge actual maximum => .actionOutput actual maximum
  | other => .actionFailure other.display

def settlePermit (codec : ActionCodec Input R) (permit : IdempotencyPermit)
    (store : InMemoryIdempotencyStore) (result : Except ActionFailure R)
    : InMemoryIdempotencyStore × Except ActionFailure R :=
  match result with
  | .ok response =>
    match codec.toVec response with
    | none => (store, .error ⟨.serialization, .committed⟩)
    | some bytes =>
      match permit.complete store bytes with
      | (store, .error error) => (store, .error ⟨idempotencyDataError error, .committed⟩)
      | (store, .ok ()) => (store, .ok response)
  | .error failure =>
    if failure.commitState.mayHaveCommitted then
      ((permit.markUnknown store).1, .error failure)
    else
      ((permit.abandon store).1, .error failure)

def actDecision (sha256 : Sha256) (codec : ActionCodec Input R) (context : DataContext)
    (policy : ActionPolicy) (input : Input) (idempotency : ActionIdempotency)
    (store : InMemoryIdempotencyStore) (clock : ClockReadings)
    : InMemoryIdempotencyStore × Except ActionFailure IdempotencyDecision :=
  match context.requireActionPolicy sha256 policy with
  | .error error => (store, .error ⟨error, .notStarted⟩)
  | .ok () =>
    if policy.idempotencyPolicyId ≠ some idempotency.policy.id then
      (store, .error ⟨.invalidActionState "action and idempotency policies do not match",
        .notStarted⟩)
    else
      match codec.canonicalJsonBytes input with
      | .error error => (store, .error ⟨error, .notStarted⟩)
      | .ok inputBytes =>
        let inputDigest := encodeHex (sha256 inputBytes).bytes
        match managerBegin sha256 idempotency.policy store clock (idempotency.scope policy)
            inputDigest with
        | (store, .error error) => (store, .error ⟨idempotencyDataError error, .notStarted⟩)
        | (store, .ok decision) => (store, .ok decision)

def actIdempotent (sha256 : Sha256) (codec : ActionCodec Input R) (context : DataContext)
    (policy : ActionPolicy) (admission : ActionAdmission) (input : Input)
    (idempotency : ActionIdempotency) (store : InMemoryIdempotencyStore) (clock : ClockReadings)
    (run : ActionRun R)
    : InMemoryIdempotencyStore × Except ActionFailure R :=
  match actDecision sha256 codec context policy input idempotency store clock with
  | (store, .error failure) => (store, .error failure)
  | (store, .ok (.replay bytes)) =>
    match codec.fromSlice bytes with
    | none => (store, .error ⟨.serialization, .committed⟩)
    | some response => (store, .ok response)
  | (store, .ok (.execute permit)) =>
    settlePermit codec permit store (act sha256 codec context policy admission run)

theorem actDecision_cases (sha256 : Sha256) (codec : ActionCodec Input R) (context : DataContext)
    (policy : ActionPolicy) (input : Input) (idempotency : ActionIdempotency)
    (store : InMemoryIdempotencyStore) (clock : ClockReadings)
    : (∃ failure,
        actDecision sha256 codec context policy input idempotency store clock
          =
        (store, .error failure))
      ∨ ∃ inputDigest,
        let begun := managerBegin sha256 idempotency.policy store clock (idempotency.scope policy)
          inputDigest
        (actDecision sha256 codec context policy input idempotency store clock).1 = begun.1
          ∧ ∀ decision,
            (actDecision sha256 codec context policy input idempotency store clock).2 = .ok decision
              ↔
            begun.2 = .ok decision := by
  unfold actDecision
  split
  . exact Or.inl ⟨_, rfl⟩
  . split
    . exact Or.inl ⟨_, rfl⟩
    . split
      . exact Or.inl ⟨_, rfl⟩
      . next inputBytes hinput =>
        refine Or.inr ⟨encodeHex (sha256 inputBytes).bytes, ?_⟩
        dsimp
        split
        all_goals
          next hbegin =>
          rw [hbegin]
          simp

/--
The condition under which the manager answers a call from a stored record: the call reaches the
store, and the record of its scope is live, completed with the same input, and decodes.
-/
def AnswersFromRecord (sha256 : Sha256) (codec : ActionCodec Input R) (context : DataContext)
    (policy : ActionPolicy) (input : Input) (idempotency : ActionIdempotency)
    (store : InMemoryIdempotencyStore) (clock : ClockReadings) : Prop :=
  context.requireActionPolicy sha256 policy = .ok ()
    ∧ policy.idempotencyPolicyId = some idempotency.policy.id
    ∧ ∃ inputBytes issued now record bytes,
      codec.canonicalJsonBytes input = .ok inputBytes
        ∧ validIdentity (idempotency.scope policy) (encodeHex (sha256 inputBytes).bytes) = true
        ∧ clock.manager = .ok issued
        ∧ clock.store = .ok now
        ∧ store (scopeDigest sha256 idempotency.policy (idempotency.scope policy)) = some record
        ∧ now < record.expiresAtMs
        ∧ record.inputDigest = toAsciiLowercase (encodeHex (sha256 inputBytes).bytes)
        ∧ record.state = .completed
        ∧ record.result = some bytes
        ∧ (codec.fromSlice bytes).isSome

theorem settlePermit_error (codec : ActionCodec Input R) (permit : IdempotencyPermit)
    (store : InMemoryIdempotencyStore) (failure : ActionFailure)
    : (settlePermit codec permit store (.error failure)).2 = .error failure := by
  unfold settlePermit
  dsimp
  split
  all_goals simp

theorem act_of_rejected (sha256 : Sha256) (codec : ActionCodec Input R) (context : DataContext)
    (policy : ActionPolicy) (admission : ActionAdmission) (run : ActionRun R) {error : DataError}
    (h : actAdmission sha256 context policy admission = .error error)
    : act sha256 codec context policy admission run = .error ⟨error, .notStarted⟩ := by
  unfold act
  rw [h]

theorem actIdempotent_ok_iff_of_rejected (sha256 : Sha256) (codec : ActionCodec Input R)
    (context : DataContext) (policy : ActionPolicy) (admission : ActionAdmission) (input : Input)
    (idempotency : ActionIdempotency) (store : InMemoryIdempotencyStore) (clock : ClockReadings)
    (run : ActionRun R) {error : DataError}
    (hreject : actAdmission sha256 context policy admission = .error error)
    : (∃ response,
        (actIdempotent sha256 codec context policy admission input idempotency store clock run).2
          =
        .ok response)
        ↔
      AnswersFromRecord sha256 codec context policy input idempotency store clock := by
  unfold actIdempotent actDecision AnswersFromRecord
  cases hgrant : context.requireActionPolicy sha256 policy with
  | error error => simp
  | ok granted =>
    by_cases hid : policy.idempotencyPolicyId = some idempotency.policy.id
    . cases hinput : codec.canonicalJsonBytes input with
      | error error => simp [hid]
      | ok inputBytes =>
        simp only [hid, ne_eq, not_true_eq_false, ↓reduceIte, Except.ok.injEq, true_and,
          exists_and_left, exists_eq_left']
        have hreplay := managerBegin_eq_replay_iff sha256 idempotency.policy store clock
          (idempotency.scope policy) (encodeHex (sha256 inputBytes).bytes)
        generalize managerBegin sha256 idempotency.policy store clock _ _ = answer at hreplay ⊢
        rcases answer with ⟨store', answer⟩
        cases answer with
        | error error =>
          simp only [reduceCtorEq, exists_false, false_iff] at hreplay ⊢
          rintro ⟨hidentity, issued, hissued, now, hnow, record, hrecord, hlive, hsame, hstate,
            bytes, hbytes, -⟩
          apply hreplay bytes
          exact ⟨hidentity, issued, now, record, hissued, hnow, hrecord, hlive, hsame, hstate,
            hbytes⟩
        | ok decision =>
          cases decision with
          | execute permit =>
            simp only [Except.ok.injEq, reduceCtorEq, false_iff] at hreplay
            rw [act_of_rejected sha256 codec context policy admission run hreject]
            simp only [settlePermit_error, reduceCtorEq, exists_false, false_iff]
            rintro ⟨hidentity, issued, hissued, now, hnow, record, hrecord, hlive, hsame, hstate,
              bytes, hbytes, -⟩
            apply hreplay bytes
            exact ⟨hidentity, issued, now, record, hissued, hnow, hrecord, hlive, hsame, hstate,
              hbytes⟩
          | replay stored =>
            simp only [Except.ok.injEq, IdempotencyDecision.replay.injEq] at hreplay
            have hstored := (hreplay stored).mp rfl
            rcases hstored with ⟨hidentity, issued, now, record, hissued, hnow, hrecord, hlive,
              hsame, hstate, hbytes⟩
            cases hdecode : codec.fromSlice stored with
            | none =>
              simp only [hdecode, reduceCtorEq, exists_false, false_iff]
              rintro ⟨-, issued', hissued', now', hnow', record', hrecord', -, -, -, bytes',
                hbytes', hsome⟩
              rw [hrecord] at hrecord'
              cases hrecord'
              rw [hbytes] at hbytes'
              cases hbytes'
              simp [hdecode] at hsome
            | some response =>
              simp only [hdecode, Except.ok.injEq, exists_eq', true_iff]
              refine ⟨hidentity, issued, hissued, now, hnow, record, hrecord, hlive, hsame, hstate,
                stored, hbytes, ?_⟩
              simp [hdecode]
    . simp [hid]

def AdmissionGatesReplay (sha256 : Sha256) (codec : ActionCodec Input R) (context : DataContext)
    (policy : ActionPolicy) (admission : ActionAdmission) (input : Input)
    (idempotency : ActionIdempotency) (store : InMemoryIdempotencyStore) (clock : ClockReadings)
    (run : ActionRun R) : Prop :=
  ∀ error,
    actAdmission sha256 context policy admission = .error error
      →
    ∃ failure,
      (actIdempotent sha256 codec context policy admission input idempotency store clock run).2
        =
      .error failure

/--
`act_idempotent` refuses every call that `act` refuses at admission, except the calls a stored
record answers: these are never shown to the admission checks.
-/
theorem admissionGatesReplay_iff (sha256 : Sha256) (codec : ActionCodec Input R)
    (context : DataContext) (policy : ActionPolicy) (admission : ActionAdmission) (input : Input)
    (idempotency : ActionIdempotency) (store : InMemoryIdempotencyStore) (clock : ClockReadings)
    (run : ActionRun R)
    : AdmissionGatesReplay sha256 codec context policy admission input idempotency store clock run
        ↔
      actAdmission sha256 context policy admission = .ok ()
        ∨ ¬ AnswersFromRecord sha256 codec context policy input idempotency store clock := by
  unfold AdmissionGatesReplay
  cases hadmission : actAdmission sha256 context policy admission with
  | ok admitted => simp
  | error error =>
    have hok := actIdempotent_ok_iff_of_rejected sha256 codec context policy admission input
      idempotency store clock run hadmission
    rw [← hok]
    simp only [Except.error.injEq, forall_eq', reduceCtorEq, false_or, not_exists]
    generalize (actIdempotent sha256 codec context policy admission input idempotency store clock
      run).2 = result
    cases result with
    | error failure => simp
    | ok response => simp

def orderPolicy : ActionPolicy where
  id := "place-order"
  semanticRevision := 1
  inputSchemaId := "order-input"
  fieldErrorSchemaId := "order-errors"
  outputSchemaId := "order-output"
  acceptedMediaTypes := [.formUrlencoded]
  acceptedContentEncodings := [.identity]
  maxEncodedBytes := 262144
  maxDecodedBytes := 262144
  maxFormFields := 256
  maxOutputBytes := 262144
  originPolicy := .sameOrigin
  csrfPolicy := .sessionBoundToken
  requireAuthentication := true
  requireAuthorization := true
  resources := []
  postCommitGraceMs := 2000
  idempotencyPolicyId := some "orders"
  invalidationIntents := []

def orderIdempotency : ActionIdempotency where
  policy := ⟨"orders", 60000, 65536⟩
  key := "order-key-000000"
  partition := "2bd806c97f0e00af1a1fc3328fa763a9269723c8db8fac4f93af71db186d6e90"
  deploymentEpoch := 1

def orderResponse : ActionResponse String String :=
  .success "ok" .stay

def orderResponseBytes : List UInt8 :=
  utf8 "\x7b\"kind\":\"success\",\"value\":\x7b\"output\":\"ok\",\"navigation\":\"stay\"\x7d\x7d"

def orderCodec : ActionCodec Nat (ActionResponse String String) where
  canonicalJsonBytes quantity := .ok (utf8 (toString quantity))
  toVec response := if response = orderResponse then some orderResponseBytes else none
  fromSlice bytes := if bytes = orderResponseBytes then some orderResponse else none

def placeOrder (admission : ActionAdmission) (store : InMemoryIdempotencyStore) (now : Nat)
    : InMemoryIdempotencyStore × Except ActionFailure (ActionResponse String String) :=
  actIdempotent sha256Digest orderCodec ⟨false, none⟩ orderPolicy admission 1 orderIdempotency store
    ⟨.ok now, .ok now⟩ ⟨.completed (.ok orderResponse), .committed⟩

/--
An order is placed by an admitted request, and the same key without any proof then reads its
response, although `act` refuses that request.
-/
theorem replay_without_admission
    : ¬ AdmissionGatesReplay sha256Digest orderCodec ⟨false, none⟩ orderPolicy
        ⟨.formUrlencoded, 10, false, false, false, false⟩ 1 orderIdempotency
        (placeOrder ⟨.formUrlencoded, 10, true, true, true, true⟩ (fun _ => none) 1000).1
        ⟨.ok 2000, .ok 2000⟩ ⟨.completed (.ok orderResponse), .committed⟩ := by
  intro h
  have hreject : actAdmission sha256Digest ⟨false, none⟩ orderPolicy
      ⟨.formUrlencoded, 10, false, false, false, false⟩
      = .error (.actionAdmission "same-origin proof is required") := by
    decide
  have hreplay : (placeOrder ⟨.formUrlencoded, 10, false, false, false, false⟩
      (placeOrder ⟨.formUrlencoded, 10, true, true, true, true⟩ (fun _ => none) 1000).1 2000).2
      = .ok orderResponse := by
    decide +kernel
  rcases h _ hreject with ⟨failure, hfailure⟩
  cases hreplay.symm.trans hfailure

end Data

end Pliego
