import Pliego.Data.Action
import Pliego.Lib.Reach

/-!
Concurrent `act_idempotent` calls over one in-memory store. The commit handle of an execution can be cloned and used
at any time, also after the call has returned.
-/

namespace Pliego

namespace Data

variable {Input R : Type}

inductive Settlement where
  | stored (bytes : List UInt8)
  | unknown
  | released
  | untouched
  deriving DecidableEq, Repr

inductive Phase (R : Type) where
  | running
  | interrupted (interruption : DataError) (commit : ActionCommitState)
  | returned (result : Except ActionFailure R)
  | settled (settlement : Settlement)
  | dropped

structure Execution (R : Type) where
  permit : IdempotencyPermit
  policy : ActionPolicy
  commit : ActionCommitState
  phase : Phase R

structure Calls (R : Type) where
  store : InMemoryIdempotencyStore
  executions : List (Execution R)

inductive CommitOp where
  | enterPreCommit
  | beginCommit
  | committed
  | failed
  | outcomeUnknown
  | compensationRequired
  deriving DecidableEq, Repr

def CommitOp.apply (op : CommitOp) (state : ActionCommitState) : Except DataError ActionCommitState :=
  match op with
  | .enterPreCommit => ActionCommitHandle.enterPreCommit state
  | .beginCommit => ActionCommitHandle.beginCommit state
  | .committed => ActionCommitHandle.committed state
  | .failed => ActionCommitHandle.failed state
  | .outcomeUnknown => ActionCommitHandle.outcomeUnknown state
  | .compensationRequired => ActionCommitHandle.compensationRequired state

def CommitOp.after (op : CommitOp) (state : ActionCommitState) : ActionCommitState :=
  match op.apply state with
  | .ok next => next
  | .error _ => state

inductive CallStep (Input R : Type) where
  | call (context : DataContext) (policy : ActionPolicy) (admission : ActionAdmission)
    (input : Input) (idempotency : ActionIdempotency) (clock : ClockReadings)
  | commitOp (i : Nat) (op : CommitOp)
  | complete (i : Nat) (result : Except DataError R)
  | interrupt (i : Nat) (interruption : DataError)
  | finish (i : Nat) (grace : Option (Except DataError R))
  | settle (i : Nat)
  | cancel (i : Nat)

def settlement (codec : ActionCodec Input R) (permit : IdempotencyPermit)
    (result : Except ActionFailure R) : Settlement :=
  match result with
  | .ok response =>
    match codec.toVec response with
    | none => .untouched
    | some bytes => if bytes.length > permit.maxResultBytes then .released else .stored bytes
  | .error failure => if failure.commitState.mayHaveCommitted then .unknown else .released

def startExecution (sha256 : Sha256) (context : DataContext) (policy : ActionPolicy)
    (admission : ActionAdmission) (permit : IdempotencyPermit) : Execution R :=
  {
    permit := permit
    policy := policy
    commit := .notStarted
    phase :=
      match actAdmission sha256 context policy admission with
      | .error error => .returned (.error ⟨error, .notStarted⟩)
      | .ok () => .running
  }

def Calls.set (calls : Calls R) (i : Nat) (execution : Execution R) : Calls R :=
  { calls with executions := calls.executions.set i execution }

def Calls.step (sha256 : Sha256) (codec : ActionCodec Input R) (calls : Calls R)
    (label : CallStep Input R) : Option (Calls R) :=
  match label with
  | .call context policy admission input idempotency clock =>
    match actDecision sha256 codec context policy input idempotency calls.store clock with
    | (store, .ok (.execute permit)) =>
      some
        {
          store := store
          executions :=
            calls.executions ++ [startExecution sha256 context policy admission permit]
        }
    | (store, _) => some { calls with store := store }
  | .commitOp i op =>
    match calls.executions[i]? with
    | none => none
    | some execution => some (calls.set i { execution with commit := op.after execution.commit })
  | .complete i result =>
    match calls.executions[i]? with
    | some ⟨permit, policy, commit, .running⟩ =>
      let result := finishAct codec policy ⟨.completed result, commit⟩
      some (calls.set i ⟨permit, policy, commit, .returned result⟩)
    | _ => none
  | .interrupt i interruption =>
    match calls.executions[i]? with
    | some ⟨permit, policy, commit, .running⟩ =>
      some (calls.set i ⟨permit, policy, commit, .interrupted interruption commit⟩)
    | _ => none
  | .finish i grace =>
    match calls.executions[i]? with
    | some ⟨permit, policy, commit, .interrupted interruption first⟩ =>
      -- the interruption of a commit in flight reports its outcome as unknown
      let commit := if first = .committing then CommitOp.outcomeUnknown.after commit else commit
      let result := finishAct codec policy ⟨.interrupted interruption first grace, commit⟩
      some (calls.set i ⟨permit, policy, commit, .returned result⟩)
    | _ => none
  | .settle i =>
    match calls.executions[i]? with
    | some ⟨permit, policy, commit, .returned result⟩ =>
      let store := (settlePermit codec permit calls.store result).1
      let settled := Phase.settled (settlement codec permit result)
      some (Calls.set { calls with store := store } i ⟨permit, policy, commit, settled⟩)
    | _ => none
  | .cancel i =>
    match calls.executions[i]? with
    | none => none
    | some ⟨_, _, _, .settled _⟩ => none
    | some ⟨permit, policy, commit, _⟩ =>
      -- a permit has no destructor: its record stays in progress
      some (calls.set i ⟨permit, policy, commit, .dropped⟩)

def Calls.initial (calls : Calls R) : Prop :=
  calls = ⟨fun _ => none, []⟩

def Phase.released (phase : Phase R) : Bool :=
  match phase with
  | .settled .released => true
  | _ => false

def Phase.releasing (phase : Phase R) : Bool :=
  match phase with
  | .settled .released => true
  | .returned (.error failure) => !failure.commitState.mayHaveCommitted
  | _ => false

def Phase.Describes (phase : Phase R) (record : IdempotencyStoreRecord) : Prop :=
  match phase with
  | .settled (.stored bytes) => record.state = .completed ∧ record.result = some bytes
  | .settled .unknown => record.state = .outcomeUnknown
  | _ => record.state = .inProgress

structure Execution.Sound (store : InMemoryIdempotencyStore) (execution : Execution R) : Prop where
  record : execution.phase.released = false
    → ∃ record, store execution.permit.scope = some record ∧ execution.phase.Describes record
  commit : execution.phase.releasing = true → execution.commit.mayHaveCommitted = false

structure Calls.Inv (digest : String) (calls : Calls R) : Prop where
  sound : ∀ {i : Nat} {execution : Execution R},
    calls.executions[i]? = some execution → execution.permit.scope = digest
      → execution.Sound calls.store
  unique : ∀ {i j : Nat} {left right : Execution R},
    calls.executions[i]? = some left → calls.executions[j]? = some right
      → left.permit.scope = digest → right.permit.scope = digest
      → left.phase.released = false → right.phase.released = false
      → i = j

/--
The steps that keep the record of an execution that may have committed: no call on this scope finds
its record expired, no response above the stored result limit is completed after the commit, and no
commit begins through a handle whose call has released, or is about to release, its record.
-/
def KeepsRecord (sha256 : Sha256) (codec : ActionCodec Input R) (digest : String)
    (calls : Calls R) (label : CallStep Input R) : Prop :=
  match label with
  | .call _ policy _ _ idempotency clock =>
    scopeDigest sha256 idempotency.policy (idempotency.scope policy) = digest
      → ∀ now, clock.store = .ok now → calls.store.expired now digest = false
  | .commitOp i .beginCommit =>
    ∀ execution,
      calls.executions[i]? = some execution → execution.permit.scope = digest
        → execution.phase.releasing = false
  | .settle i =>
    ∀ permit policy commit response bytes,
      calls.executions[i]? = some ⟨permit, policy, commit, .returned (.ok response)⟩
        → permit.scope = digest
        → codec.toVec response = some bytes
        → bytes.length > permit.maxResultBytes
        → commit.mayHaveCommitted = false
  | _ => True

theorem CommitOp.mayHaveCommitted_after {op : CommitOp} {state : ActionCommitState}
    (hop : op ≠ .beginCommit) (h : state.mayHaveCommitted = false)
    : (op.after state).mayHaveCommitted = false := by
  cases op with
  | beginCommit => contradiction
  | _ => cases state <;> first | rfl | cases h

theorem finishAct_commitState {codec : ActionCodec Input R} {policy : ActionPolicy}
    {run : ActionRun R} {failure : ActionFailure} (h : finishAct codec policy run = .error failure)
    : failure.commitState = run.commit ∨ failure.commitState = .outcomeUnknown := by
  have hfail : ∀ {result : Except DataError R} {failure : ActionFailure},
      failWith run.commit result = .error failure → failure.commitState = run.commit := by
    intro result failure h
    unfold failWith at h
    split at h
    . cases h
    . cases h
      rfl
  unfold finishAct at h
  dsimp at h
  split at h
  . next failure' hresult =>
    cases h
    split at hresult
    . exact Or.inl (hfail hresult)
    . unfold finishInterruptedAction at hresult
      split at hresult
      any_goals (cases hresult; simp)
      all_goals
        split at hresult
        . exact Or.inl (hfail hresult)
        . cases hresult
          exact Or.inl rfl
  . repeat' split at h
    all_goals cases h
    all_goals exact Or.inl rfl

theorem settlePermit_of_ne (codec : ActionCodec Input R) (permit : IdempotencyPermit)
    (store : InMemoryIdempotencyStore) (result : Except ActionFailure R) {key : String} (h : key ≠ permit.scope)
    : (settlePermit codec permit store result).1 key = store key := by
  cases result with
  | error failure =>
    unfold settlePermit
    dsimp
    split
    . apply IdempotencyPermit.markUnknown_of_ne _ _ h
    . apply IdempotencyPermit.abandon_of_ne _ _ h
  | ok response =>
    unfold settlePermit
    dsimp
    split
    . rfl
    . next bytes hbytes =>
      rw [← permit.complete_of_ne store bytes h]
      split
      all_goals
        next hcomplete =>
        rw [hcomplete]

theorem settlePermit_describes (codec : ActionCodec Input R) (permit : IdempotencyPermit)
    (store : InMemoryIdempotencyStore) (result : Except ActionFailure R)
    {record : IdempotencyStoreRecord} (hrecord : store permit.scope = some record)
    (hstate : record.state = .inProgress)
    (hkept : (Phase.settled (settlement codec permit result) : Phase R).released = false)
    : ∃ record,
        (settlePermit codec permit store result).1 permit.scope = some record
          ∧ (Phase.settled (settlement codec permit result) : Phase R).Describes record := by
  unfold settlePermit settlement at *
  cases result with
  | error failure =>
    dsimp at hkept ⊢
    split
    . refine ⟨{ record with state := .outcomeUnknown, result := none }, ?_, rfl⟩
      simp [IdempotencyPermit.markUnknown, InMemoryIdempotencyStore.markUnknown, hrecord]
    . next hfailed => simp [hfailed, Phase.released] at hkept
  | ok response =>
    cases hbytes : codec.toVec response with
    | none =>
      refine ⟨record, ?_, ?_⟩
      . simpa [hbytes] using hrecord
      . simpa [hbytes, Phase.Describes] using hstate
    | some bytes =>
      simp only [hbytes] at hkept ⊢
      by_cases hlarge : bytes.length > permit.maxResultBytes
      . simp [hlarge, Phase.released] at hkept
      . refine ⟨{ record with state := .completed, result := some bytes }, ?_, ?_⟩
        . simp [IdempotencyPermit.complete, InMemoryIdempotencyStore.complete, hrecord, hstate, hlarge]
        . simp [hlarge, Phase.Describes]

namespace Calls

variable {digest : String}

variable {calls : Calls R} {codec : ActionCodec Input R} {policy : ActionPolicy}

theorem Inv.set (hinv : calls.Inv digest) {i : Nat}
    {before after : Execution R} {store : InMemoryIdempotencyStore}
    (hbefore : calls.executions[i]? = some before) (hpermit : after.permit = before.permit)
    (hreleased : after.phase.released = false → before.phase.released = false)
    (hstore : store digest = calls.store digest
      ∨ before.permit.scope = digest ∧ before.phase.released = false)
    (hafter : before.permit.scope = digest → after.Sound store)
    : (Calls.set { calls with store := store } i after).Inv digest := by
  have hlen : i < calls.executions.length := (List.getElem?_eq_some_iff.mp hbefore).1
  have hget : ∀ {j execution},
      (Calls.set { calls with store := store } i after).executions[j]? = some execution
        → (j = i ∧ execution = after)
          ∨ (j ≠ i ∧ calls.executions[j]? = some execution) := by
    intro j execution h
    unfold Calls.set at h
    dsimp at h
    rw [List.getElem?_set] at h
    split at h
    . next heq =>
      simp only [Option.some.injEq] at h
      exact Or.inl ⟨heq.symm, h.symm⟩
    . next hne => exact Or.inr ⟨Ne.symm hne, h⟩
  constructor
  . intro j execution hexecution hscope
    rcases hget hexecution with ⟨-, rfl⟩ | ⟨hne, hold⟩
    . apply hafter
      rw [← hpermit]
      assumption
    . have hsound := hinv.sound hold hscope
      refine ⟨?_, hsound.commit⟩
      intro hheld
      cases hstore with
      | inl hsame =>
        rcases hsound.record hheld with ⟨record, hrecord, hdescribes⟩
        refine ⟨record, ?_, hdescribes⟩
        rw [hscope] at hrecord ⊢
        dsimp [Calls.set]
        rw [hsame]
        assumption
      | inr hheld' =>
        have := hinv.unique hold hbefore hscope hheld'.1 hheld hheld'.2
        contradiction
  . intro j k left right hleft hright hscope hscope' hheld hheld'
    rcases hget hleft with ⟨rfl, rfl⟩ | ⟨-, hleft'⟩
    . rcases hget hright with ⟨rfl, -⟩ | ⟨-, hright'⟩
      . rfl
      . rw [hpermit] at hscope
        exact hinv.unique hbefore hright' hscope hscope' (hreleased hheld) hheld'
    . rcases hget hright with ⟨rfl, rfl⟩ | ⟨-, hright'⟩
      . rw [hpermit] at hscope'
        exact hinv.unique hleft' hbefore hscope hscope' hheld (hreleased hheld')
      . exact hinv.unique hleft' hright' hscope hscope' hheld hheld'

theorem Inv.withStore (hinv : calls.Inv digest) {store : InMemoryIdempotencyStore}
    (hkept : ∀ record, calls.store digest = some record → store digest = some record)
    : Inv digest { calls with store := store } := by
  constructor
  . intro i execution hexecution hscope
    have hsound := hinv.sound hexecution hscope
    refine ⟨?_, hsound.commit⟩
    intro hheld
    rcases hsound.record hheld with ⟨record, hrecord, hdescribes⟩
    rw [hscope] at hrecord ⊢
    exact ⟨record, hkept record hrecord, hdescribes⟩
  . intro i j left right hleft hright hscope hscope' hheld hheld'
    exact hinv.unique hleft hright hscope hscope' hheld hheld'

theorem Inv.push (hinv : calls.Inv digest) {execution : Execution R} (hsound : execution.Sound calls.store)
    (hfree : execution.permit.scope = digest
      → ∀ (i : Nat) (other : Execution R), calls.executions[i]? = some other
        → other.permit.scope = digest → other.phase.released = true)
    : Inv digest { calls with executions := calls.executions ++ [execution] } := by
  have hget : ∀ {i : Nat} {other : Execution R},
      (calls.executions ++ [execution])[i]? = some other
        → calls.executions[i]? = some other ∨ i = calls.executions.length ∧ other = execution := by
    intro i other h
    rw [List.getElem?_append] at h
    split at h
    . exact Or.inl h
    . next hle =>
      rcases List.getElem?_eq_some_iff.mp h with ⟨hbound, hvalue⟩
      simp only [List.length_singleton] at hbound
      simp only [List.getElem_singleton] at hvalue
      exact Or.inr ⟨by omega, hvalue.symm⟩
  constructor
  . intro i other hother hscope
    rcases hget hother with hold | ⟨-, rfl⟩
    . exact hinv.sound hold hscope
    . assumption
  . intro i j left right hleft hright hscope hscope' hheld hheld'
    rcases hget hleft with hleft' | ⟨hi, rfl⟩
    . rcases hget hright with hright' | ⟨hj, rfl⟩
      . exact hinv.unique hleft' hright' hscope hscope' hheld hheld'
      . simp [hfree hscope' i left hleft' hscope] at hheld
    . rcases hget hright with hright' | ⟨hj, rfl⟩
      . simp [hfree hscope j right hright' hscope'] at hheld'
      . rw [hi, hj]

theorem Inv.call {sha256 : Sha256} {calls after : Calls R}
    {context : DataContext} {admission : ActionAdmission} {input : Input}
    {idempotency : ActionIdempotency} {clock : ClockReadings} (hinv : calls.Inv digest)
    (hlive : scopeDigest sha256 idempotency.policy (idempotency.scope policy) = digest
      → ∀ now, clock.store = .ok now → calls.store.expired now digest = false)
    (hstep : calls.step sha256 codec (.call context policy admission input idempotency clock)
      = some after)
    : after.Inv digest := by
  have hcases := actDecision_cases sha256 codec context policy input idempotency calls.store clock
  unfold Calls.step at hstep
  dsimp at hstep
  generalize actDecision sha256 codec context policy input idempotency calls.store clock = decision
    at hcases hstep
  have hkept : ∀ record, calls.store digest = some record → decision.1 digest = some record := by
    intro record hrecord
    rcases hcases with ⟨failure, rfl⟩ | ⟨inputDigest, hstore, -⟩
    . assumption
    . rw [hstore]
      by_cases hscope : scopeDigest sha256 idempotency.policy (idempotency.scope policy) = digest
      . subst hscope
        rw [managerBegin_of_live inputDigest hrecord (hlive rfl)]
        assumption
      . rw [managerBegin_of_ne]
        . assumption
        . exact Ne.symm hscope
  have hinv' := hinv.withStore hkept
  split at hstep
  . next store permit =>
    cases hstep
    rcases hcases with ⟨failure, hfailure⟩ | ⟨inputDigest, hstore, hdecide⟩
    . cases hfailure
    . have hexecute := managerBegin_execute ((hdecide (.execute permit)).mp rfl)
      rcases hexecute with ⟨rfl, ⟨record, hrecord, hstate⟩, now, hnow, hfree⟩
      dsimp at hstore
      rw [← hstore] at hrecord
      apply hinv'.push
      . refine ⟨?_, fun _ => rfl⟩
        intro _
        refine ⟨record, hrecord, ?_⟩
        unfold startExecution
        dsimp
        split
        all_goals exact hstate
      . intro hscope i other hother hsame
        unfold startExecution at hscope
        dsimp at hscope
        rw [← Bool.not_eq_false]
        intro hheld
        -- a record still held on this scope would have stopped the call
        rcases (hinv.sound hother hsame).record hheld with ⟨record, hrecord, -⟩
        rw [hsame] at hrecord
        rw [hscope] at hfree
        cases hfree with
        | inl hnone => simp [hrecord] at hnone
        | inr hexpired => simp [hlive hscope now hnow] at hexpired
  . cases hstep
    exact hinv'

theorem Inv.commitOp (hinv : calls.Inv digest) {i : Nat}
    {execution : Execution R} (op : CommitOp) (hexecution : calls.executions[i]? = some execution)
    (hguard : op = .beginCommit → execution.permit.scope = digest
      → execution.phase.releasing = false)
    : (calls.set i { execution with commit := op.after execution.commit }).Inv digest := by
  refine hinv.set hexecution rfl (fun h => h) (Or.inl rfl) ?_
  intro hscope
  have hsound := hinv.sound hexecution hscope
  refine ⟨hsound.record, ?_⟩
  dsimp
  intro hreleasing
  apply CommitOp.mayHaveCommitted_after
  . intro hop
    simp [hguard hop hscope] at hreleasing
  . exact hsound.commit hreleasing

theorem Inv.advance (hinv : calls.Inv digest) {i : Nat}
    {permit : IdempotencyPermit} {before after : ActionCommitState} {phase phase' : Phase R}
    (hexecution : calls.executions[i]? = some ⟨permit, policy, before, phase⟩) (hheld : phase.released = false)
    (hdescribes : ∀ record, phase.Describes record → phase'.Describes record)
    (hcommit : phase'.releasing = true → after.mayHaveCommitted = false)
    : (calls.set i ⟨permit, policy, after, phase'⟩).Inv digest := by
  refine hinv.set hexecution rfl (fun _ => hheld) (Or.inl rfl) ?_
  intro hscope
  refine ⟨?_, hcommit⟩
  intro _
  rcases (hinv.sound hexecution hscope).record hheld with ⟨record, hrecord, hphase⟩
  exact ⟨record, hrecord, hdescribes record hphase⟩

theorem releasing_finishAct
    {run : ActionRun R} (h : (Phase.returned (finishAct codec policy run)).releasing = true)
    : run.commit.mayHaveCommitted = false := by
  cases hresult : finishAct codec policy run with
  | ok response => simp [hresult, Phase.releasing] at h
  | error failure =>
    simp only [hresult, Phase.releasing, Bool.not_eq_true'] at h
    cases finishAct_commitState hresult with
    | inl hcommit => rwa [hcommit] at h
    | inr hunknown => simp [hunknown, ActionCommitState.mayHaveCommitted] at h

theorem Inv.settle (hinv : calls.Inv digest) {i : Nat} {permit : IdempotencyPermit} {commit : ActionCommitState}
    {result : Except ActionFailure R}
    (hexecution : calls.executions[i]? = some ⟨permit, policy, commit, .returned result⟩)
    (hguard : ∀ response bytes, result = .ok response → permit.scope = digest
      → codec.toVec response = some bytes → bytes.length > permit.maxResultBytes
      → commit.mayHaveCommitted = false)
    : (Calls.set { calls with store := (settlePermit codec permit calls.store result).1 } i
        ⟨permit, policy, commit, .settled (settlement codec permit result)⟩).Inv digest := by
  refine hinv.set hexecution rfl (fun _ => rfl) ?_ ?_
  . by_cases hscope : permit.scope = digest
    . exact Or.inr ⟨hscope, rfl⟩
    . exact Or.inl (settlePermit_of_ne codec permit calls.store result (Ne.symm hscope))
  . intro hscope
    have hsound := hinv.sound hexecution hscope
    constructor
    . intro hkept
      rcases hsound.record rfl with ⟨record, hrecord, hstate⟩
      exact settlePermit_describes codec permit calls.store result hrecord hstate hkept
    . intro hreleased
      cases result with
      | error failure =>
        apply hsound.commit
        unfold settlement at hreleased
        dsimp at hreleased
        split at hreleased
        . cases hreleased
        . next hfailed =>
          simpa [Phase.releasing] using hfailed
      | ok response =>
        unfold settlement at hreleased
        dsimp at hreleased
        split at hreleased
        . cases hreleased
        . next bytes hbytes =>
          split at hreleased
          . next hlarge => exact hguard response bytes rfl hscope hbytes hlarge
          . cases hreleased

theorem Inv.step {sha256 : Sha256} {calls after : Calls R} {label : CallStep Input R} (hinv : calls.Inv digest)
    (hguard : KeepsRecord sha256 codec digest calls label) (hstep : calls.step sha256 codec label = some after)
    : after.Inv digest := by
  cases label with
  | call context policy admission input idempotency clock => exact hinv.call hguard hstep
  | commitOp i op =>
    unfold Calls.step at hstep
    dsimp at hstep
    split at hstep
    . cases hstep
    . next execution hexecution =>
      cases hstep
      apply hinv.commitOp op hexecution
      intro hop
      subst hop
      exact hguard execution hexecution
  | complete i result =>
    unfold Calls.step at hstep
    dsimp at hstep
    split at hstep
    . next permit policy commit hexecution =>
      cases hstep
      exact hinv.advance hexecution rfl (fun record h => h) releasing_finishAct
    . cases hstep
  | interrupt i interruption =>
    unfold Calls.step at hstep
    dsimp at hstep
    split at hstep
    . next permit policy commit hexecution =>
      cases hstep
      refine hinv.advance hexecution rfl (fun record h => h) ?_
      intro h
      cases h
    . cases hstep
  | finish i grace =>
    unfold Calls.step at hstep
    dsimp at hstep
    split at hstep
    . next permit policy commit interruption first hexecution =>
      cases hstep
      exact hinv.advance hexecution rfl (fun record h => h) releasing_finishAct
    . cases hstep
  | settle i =>
    unfold Calls.step at hstep
    dsimp at hstep
    split at hstep
    . next permit policy commit result hexecution =>
      cases hstep
      apply hinv.settle hexecution
      intro response bytes hresult
      subst hresult
      exact hguard permit policy commit response bytes hexecution
    . cases hstep
  | cancel i =>
    unfold Calls.step at hstep
    dsimp at hstep
    split at hstep
    . cases hstep
    . cases hstep
    . next permit policy commit phase hphase hexecution =>
      cases hstep
      cases phase with
      | settled settlement => exact absurd rfl (hphase settlement)
      | _ =>
        refine hinv.advance hexecution rfl (fun record h => h) ?_
        intro h
        cases h

theorem Inv.initial (h : calls.initial) : calls.Inv digest := by
  unfold Calls.initial at h
  subst h
  constructor
  . intro i execution hexecution
    simp at hexecution
  . intro i j left right hleft
    simp at hleft

end Calls

/--
The answers a retry may get once an execution may have committed: the response that execution
stored, or an error. Errors of the call itself aside, the record says which.
-/
def Answered (execution : Execution R) (clock : ClockReadings) (scope : IdempotencyScope)
    (inputDigest : String) (answer : Except IdempotencyError IdempotencyDecision) : Prop :=
  match answer with
  | .ok (.execute _) => False
  | .ok (.replay bytes) => execution.phase = .settled (.stored bytes)
  | .error error =>
    error = .inProgress
      ∨ error = .outcomeUnknown
      ∨ error = .inputConflict
      ∨ error = .invalidIdentity ∧ validIdentity scope inputDigest = false
      ∨ clock.manager = .error error
      ∨ clock.store = .error error

def AtMostOnce (sha256 : Sha256) (digest : String) (calls : Calls R) : Prop :=
  ∀ (i : Nat) (execution : Execution R),
    calls.executions[i]? = some execution
      → execution.permit.scope = digest
      → execution.commit.mayHaveCommitted = true
      → ∀ (policy : IdempotencyPolicy) (scope : IdempotencyScope) (clock : ClockReadings)
          (inputDigest : String),
        scopeDigest sha256 policy scope = digest
          → (∀ now, clock.store = .ok now → calls.store.expired now digest = false)
          → Answered execution clock scope inputDigest
            (managerBegin sha256 policy calls.store clock scope inputDigest).2

theorem managerBegin_answered {sha256 : Sha256} {policy : IdempotencyPolicy}
    {store : InMemoryIdempotencyStore} {clock : ClockReadings} {scope : IdempotencyScope}
    {record : IdempotencyStoreRecord} {execution : Execution R} (inputDigest : String)
    (hrecord : store (scopeDigest sha256 policy scope) = some record)
    (hdescribes : execution.phase.Describes record) (hlive : ∀ now, clock.store = .ok now
      → store.expired now (scopeDigest sha256 policy scope) = false)
    : Answered execution clock scope inputDigest
        (managerBegin sha256 policy store clock scope inputDigest).2 := by
  have hphase : record.state = .completed
      → ∃ bytes, execution.phase = .settled (.stored bytes) ∧ record.result = some bytes := by
    intro hstate
    unfold Phase.Describes at hdescribes
    split at hdescribes
    . next bytes hsettled => exact ⟨bytes, hsettled, hdescribes.2⟩
    . simp [hstate] at hdescribes
    . simp [hstate] at hdescribes
  unfold managerBegin
  dsimp
  split
  . next hidentity => simp_all [Answered]
  . split
    . next hissued => simp [Answered, hissued]
    . next issued hissued =>
      split
      . next hnow => simp [Answered, hnow]
      . next now hnow =>
        have hresult : record.state = .completed → record.result ≠ none := by
          intro hstate
          rcases hphase hstate with ⟨bytes, -, hbytes⟩
          simp [hbytes]
        have hbegin := InMemoryIdempotencyStore.begin_of_described (toAsciiLowercase inputDigest)
          (min (issued + policy.retentionMs) (2 ^ 64 - 1)) hrecord (hlive now hnow) hresult
        have hreplay := InMemoryIdempotencyStore.begin_eq_replay_iff store now
          (scopeDigest sha256 policy scope) (toAsciiLowercase inputDigest)
          (min (issued + policy.retentionMs) (2 ^ 64 - 1))
        generalize store.begin now _ _ _ = begun at hbegin hreplay
        rcases begun with ⟨store', begun⟩
        dsimp at hbegin hreplay
        rcases hbegin with ⟨bytes, rfl⟩ | rfl | rfl | rfl
        . rcases (hreplay bytes).mp rfl with ⟨record', hrecord', -, -, hstate, hbytes⟩
          rw [hrecord] at hrecord'
          cases hrecord'
          rcases hphase hstate with ⟨bytes', hsettled, hbytes'⟩
          rw [hbytes] at hbytes'
          cases hbytes'
          exact hsettled
        all_goals simp [Answered]

/--
Along every run whose steps keep the record of an execution that may have committed, no later call
on its scope executes, and a replay is the response that execution stored.
-/
theorem atMostOnce_of_keepsRecord (sha256 : Sha256) (codec : ActionCodec Input R)
    (digest : String) (calls : Calls R)
    (hreach : Reach.Under Calls.initial (Calls.step sha256 codec) (KeepsRecord sha256 codec digest)
      calls)
    : AtMostOnce sha256 digest calls := by
  have hinv : calls.Inv digest :=
    hreach.invariant (fun _ => Calls.Inv.initial) (fun _ _ _ hinv hguard => hinv.step hguard)
  intro i execution hexecution hscope hcommit policy scope clock inputDigest hdigest hlive
  have hsound := hinv.sound hexecution hscope
  have hheld : execution.phase.released = false := by
    rw [← Bool.not_eq_true]
    intro hreleased
    have hreleasing : execution.phase.releasing = true := by
      unfold Phase.released at hreleased
      split at hreleased
      . next hphase => simp [hphase, Phase.releasing]
      . cases hreleased
    simp [hsound.commit hreleasing] at hcommit
  rcases hsound.record hheld with ⟨record, hrecord, hdescribes⟩
  rw [hscope, ← hdigest] at hrecord
  rw [← hdigest] at hlive
  exact managerBegin_answered inputDigest hrecord hdescribes hlive

theorem not_atMostOnce {sha256 : Sha256} {digest : String} {calls : Calls R} {i : Nat}
    {execution : Execution R} {policy : IdempotencyPolicy} {scope : IdempotencyScope} {now : Nat}
    {inputDigest : String} {permit : IdempotencyPermit}
    (hexecution : calls.executions[i]? = some execution) (hscope : execution.permit.scope = digest)
    (hcommit : execution.commit.mayHaveCommitted = true) (hdigest : scopeDigest sha256 policy scope = digest)
    (hlive : calls.store.expired now digest = false)
    (hbegin : (managerBegin sha256 policy calls.store ⟨.ok now, .ok now⟩ scope inputDigest).2
      = .ok (.execute permit))
    : ¬ AtMostOnce sha256 digest calls := by
  intro honce
  have hanswered := honce i execution hexecution hscope hcommit policy scope ⟨.ok now, .ok now⟩
    inputDigest hdigest (by intro now' hnow; cases hnow; exact hlive)
  rw [hbegin] at hanswered
  exact hanswered

def smallIdempotency : ActionIdempotency :=
  { orderIdempotency with policy := ⟨"orders", 60000, 16⟩ }

def smallScope : String :=
  scopeDigest sha256Digest smallIdempotency.policy (smallIdempotency.scope orderPolicy)

def orderInputDigest : String :=
  Bytes.encodeHex (sha256Digest (Bytes.utf8 "1")).bytes

def orderLabels (idempotency : ActionIdempotency)
    : List (CallStep Nat (ActionResponse String String)) :=
  [ .call ⟨false, none⟩ orderPolicy ⟨.formUrlencoded, 10, true, true, true, true⟩ 1 idempotency
      ⟨.ok 1000, .ok 1000⟩,
    .commitOp 0 .beginCommit,
    .commitOp 0 .committed,
    .complete 0 (.ok orderResponse),
    .settle 0 ]

/--
An order commits and answers with more bytes than its idempotency policy stores: its record is
dropped, and the retry of the same request executes again.
-/
theorem committed_order_executes_again
    : ∃ calls : Calls (ActionResponse String String),
        Reach.Any Calls.initial (Calls.step sha256Digest orderCodec) calls
          ∧ ¬ AtMostOnce sha256Digest smallScope calls := by
  have hrun : ((Reach.exec (Calls.step sha256Digest orderCodec) ⟨fun _ => none, []⟩
      (orderLabels smallIdempotency)).map
        (fun calls => (calls.executions.map (fun e => (e.permit.scope, e.commit)),
          calls.store.expired 2000 smallScope,
          (managerBegin sha256Digest smallIdempotency.policy calls.store ⟨.ok 2000, .ok 2000⟩
            (smallIdempotency.scope orderPolicy) orderInputDigest).2)))
      = some ([(smallScope, .committed)], false, .ok (.execute ⟨smallScope, 16⟩)) := by
    decide +kernel
  cases hexec : Reach.exec (Calls.step sha256Digest orderCodec) ⟨fun _ => none, []⟩
      (orderLabels smallIdempotency) with
  | none => simp [hexec] at hrun
  | some calls =>
    simp only [hexec, Option.map_some, Option.some.injEq, Prod.mk.injEq] at hrun
    rcases hrun with ⟨hexecutions, hlive, hbegin⟩
    refine ⟨calls, Reach.exec_any (orderLabels smallIdempotency) (.init rfl) hexec, ?_⟩
    rcases List.map_eq_cons_iff.mp hexecutions with ⟨execution, rest, hcalls, hfirst, -⟩
    simp only [Prod.mk.injEq] at hfirst
    have hexecution : calls.executions[0]? = some execution := by simp [hcalls]
    have hcommit : execution.commit.mayHaveCommitted = true := by
      rw [hfirst.2]
      rfl
    have hscope : scopeDigest sha256Digest smallIdempotency.policy
        (smallIdempotency.scope orderPolicy) = smallScope := by
      unfold smallScope
      rfl
    exact not_atMostOnce hexecution hfirst.1 hcommit hscope hlive hbegin

theorem committing_order_executes_once
    : ∃ calls : Calls (ActionResponse String String),
        calls.executions.map (fun execution => execution.commit) = [.committing]
          ∧ AtMostOnce sha256Digest
            (scopeDigest sha256Digest orderIdempotency.policy (orderIdempotency.scope orderPolicy))
            calls := by
  have hrun : ((Reach.exec (Calls.step sha256Digest orderCodec) ⟨fun _ => none, []⟩
      (List.take 2 (orderLabels orderIdempotency))).map
        (fun calls => calls.executions.map (fun execution => execution.commit)))
      = some [.committing] := by
    decide +kernel
  have hrunning : ((Reach.exec (Calls.step sha256Digest orderCodec) ⟨fun _ => none, []⟩
      (List.take 1 (orderLabels orderIdempotency))).map
        (fun calls => calls.executions.all (fun execution => !execution.phase.releasing)))
      = some true := by
    decide +kernel
  have hinit : Reach.Under Calls.initial (Calls.step sha256Digest orderCodec)
      (KeepsRecord sha256Digest orderCodec
        (scopeDigest sha256Digest orderIdempotency.policy (orderIdempotency.scope orderPolicy)))
      ⟨fun _ => none, []⟩ :=
    .init rfl
  unfold orderLabels at hrun hrunning
  simp only [List.take_succ_cons, List.take_zero, Reach.exec] at hrun hrunning
  split at hrun
  . cases hrun
  . next called hcall =>
    split at hrun
    . cases hrun
    . next committing hcommit =>
      refine ⟨committing, by simpa using hrun, ?_⟩
      apply atMostOnce_of_keepsRecord sha256Digest orderCodec
      refine .step (.step hinit ?_ hcall) ?_ hcommit
      . intro _ now _
        rfl
      . intro execution hexecution _
        simp only [hcall, Option.map_some, Option.some.injEq, List.all_eq_true, Bool.not_eq_true'] at hrunning
        exact hrunning execution (List.mem_of_getElem? hexecution)

end Data

end Pliego
