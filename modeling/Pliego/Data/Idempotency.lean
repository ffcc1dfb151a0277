import Pliego.Data.Policy

/-!
The idempotency manager of `pliego-data` over its in-memory store. Time is in milliseconds since
the Unix epoch; a clock reading may fail.
-/

namespace Pliego

open Bytes

namespace Data

inductive IdempotencyError where
  | invalidIdentity
  | inputConflict
  | inProgress
  | outcomeUnknown
  | resultTooLarge (actual maximum : Nat)
  | storeConflict
  | storeFailure
  | clock
  deriving DecidableEq, Repr

def IdempotencyError.display (error : IdempotencyError) : String :=
  match error with
  | .invalidIdentity => "invalid idempotency identity"
  | .inputConflict => "idempotency key was reused with different admitted input"
  | .inProgress => "idempotent action is already in progress"
  | .outcomeUnknown => "idempotent action outcome is unknown"
  | .resultTooLarge actual maximum =>
    "idempotency result reached " ++ toString actual ++ " bytes; maximum is " ++ toString maximum
  | .storeConflict => "idempotency store conflict"
  | .storeFailure => "idempotency store failed"
  | .clock => "idempotency clock is unavailable"

structure IdempotencyPolicy where
  id : String
  retentionMs : Nat
  maxResultBytes : Nat
  deriving DecidableEq

structure IdempotencyScope where
  actionId : String
  actionRevision : Nat
  deploymentEpoch : Nat
  key : String
  partition : String
  deriving DecidableEq

def scopePreimage (policy : IdempotencyPolicy) (scope : IdempotencyScope) : List UInt8 :=
  utf8 "pliego-action-idempotency-v1" ++ [0]
    ++ [ utf8 policy.id,
         utf8 scope.actionId,
         beBytes 4 scope.actionRevision,
         beBytes 4 scope.deploymentEpoch,
         utf8 scope.key,
         utf8 scope.partition ].flatMap lenPrefixed

def scopeDigest (sha256 : Sha256) (policy : IdempotencyPolicy) (scope : IdempotencyScope)
    : String :=
  encodeHex (sha256 (scopePreimage policy scope)).bytes

inductive StoredState where
  | inProgress
  | completed
  | outcomeUnknown
  deriving DecidableEq, Repr

structure IdempotencyStoreRecord where
  inputDigest : String
  state : StoredState
  result : Option (List UInt8)
  expiresAtMs : Nat
  deriving DecidableEq

inductive IdempotencyBegin where
  | acquired
  | replay (result : List UInt8)
  | inProgress
  | outcomeUnknown
  | conflict
  deriving DecidableEq, Repr

abbrev InMemoryIdempotencyStore := String → Option IdempotencyStoreRecord

namespace InMemoryIdempotencyStore

def insert (store : InMemoryIdempotencyStore) (scope : String) (record : IdempotencyStoreRecord)
    : InMemoryIdempotencyStore :=
  fun key => if key = scope then some record else store key

def remove (store : InMemoryIdempotencyStore) (scope : String) : InMemoryIdempotencyStore :=
  fun key => if key = scope then none else store key

variable (store : InMemoryIdempotencyStore)

@[simp]
theorem insert_self (scope : String) (record : IdempotencyStoreRecord)
    : store.insert scope record scope = some record := by
  simp [insert]

@[simp]
theorem remove_self (scope : String)
    : store.remove scope scope = none := by
  simp [remove]

theorem insert_of_ne {scope key : String} (record : IdempotencyStoreRecord) (h : key ≠ scope)
    : store.insert scope record key = store key := by
  simp [insert, h]

theorem remove_of_ne {scope key : String} (h : key ≠ scope)
    : store.remove scope key = store key := by
  simp [remove, h]

def expired (store : InMemoryIdempotencyStore) (now : Nat) (scope : String) : Bool :=
  match store scope with
  | none => false
  | some record => record.expiresAtMs ≤ now

def begin (store : InMemoryIdempotencyStore) (now : Nat) (scope inputDigest : String) (expiresAtMs : Nat)
    : InMemoryIdempotencyStore × Except IdempotencyError IdempotencyBegin :=
  let store := if store.expired now scope then store.remove scope else store
  match store scope with
  | none =>
    let record : IdempotencyStoreRecord :=
      {
        inputDigest := inputDigest
        state := .inProgress
        result := none
        expiresAtMs := expiresAtMs
      }
    (store.insert scope record, .ok .acquired)
  | some record =>
    if record.inputDigest ≠ inputDigest then
      (store, .ok .conflict)
    else
      match record.state with
      | .inProgress => (store, .ok .inProgress)
      | .outcomeUnknown => (store, .ok .outcomeUnknown)
      | .completed =>
        match record.result with
        | none => (store, .error .storeFailure)
        | some result => (store, .ok (.replay result))

def complete (store : InMemoryIdempotencyStore) (scope : String) (result : List UInt8)
    : InMemoryIdempotencyStore × Except IdempotencyError Unit :=
  match store scope with
  | none => (store, .error .storeFailure)
  | some record =>
    if record.state ≠ .inProgress then
      (store, .error .storeConflict)
    else
      (store.insert scope { record with state := .completed, result := some result }, .ok ())

def abandon (store : InMemoryIdempotencyStore) (scope : String)
    : InMemoryIdempotencyStore × Except IdempotencyError Unit :=
  (store.remove scope, .ok ())

def markUnknown (store : InMemoryIdempotencyStore) (scope : String)
    : InMemoryIdempotencyStore × Except IdempotencyError Unit :=
  match store scope with
  | none => (store, .error .storeFailure)
  | some record =>
    (store.insert scope { record with state := .outcomeUnknown, result := none }, .ok ())

theorem begin_eq_acquired_iff (now : Nat) (scope inputDigest : String) (expiresAtMs : Nat)
    : (store.begin now scope inputDigest expiresAtMs).2 = .ok .acquired
        ↔
      store scope = none ∨ store.expired now scope = true := by
  unfold begin expired
  cases hrecord : store scope with
  | none => simp [hrecord]
  | some record =>
    by_cases hexpired : record.expiresAtMs ≤ now
    . simp [hexpired]
    . simp only [hexpired, decide_false, Bool.false_eq_true, ↓reduceIte, hrecord]
      repeat' split
      all_goals simp

theorem begin_eq_replay_iff (now : Nat) (scope inputDigest : String) (expiresAtMs : Nat) (result : List UInt8)
    : (store.begin now scope inputDigest expiresAtMs).2 = .ok (.replay result)
        ↔
      ∃ record,
        store scope = some record
          ∧ now < record.expiresAtMs
          ∧ record.inputDigest = inputDigest
          ∧ record.state = .completed
          ∧ record.result = some result := by
  unfold begin expired
  cases hrecord : store scope with
  | none => simp [hrecord]
  | some record =>
    by_cases hexpired : record.expiresAtMs ≤ now
    . have hlive : ¬ now < record.expiresAtMs := by omega
      simp [hexpired, hlive]
    . have hlive : now < record.expiresAtMs := by omega
      simp only [hexpired, decide_false, Bool.false_eq_true, ↓reduceIte, hrecord,
        Option.some.injEq, exists_eq_left', hlive, true_and]
      by_cases hinput : record.inputDigest = inputDigest
      . cases hstate : record.state with
        | inProgress => simp [hinput]
        | outcomeUnknown => simp [hinput]
        | completed =>
          cases hresult : record.result with
          | none => simp [hinput]
          | some stored => simp [hinput]
      . simp [hinput]

theorem begin_of_ne (now : Nat) {scope key : String} (inputDigest : String) (expiresAtMs : Nat) (h : key ≠ scope)
    : (store.begin now scope inputDigest expiresAtMs).1 key = store key := by
  have hpruned : (if store.expired now scope then store.remove scope else store) key
      = store key := by
    split
    . apply remove_of_ne _ h
    . rfl
  unfold begin
  dsimp only
  generalize (if store.expired now scope then store.remove scope else store) = pruned at hpruned ⊢
  split
  . dsimp
    rw [insert_of_ne _ _ h]
    assumption
  . repeat' split
    all_goals assumption

theorem begin_of_live {store : InMemoryIdempotencyStore} {now : Nat} {scope : String}
    {record : IdempotencyStoreRecord} (inputDigest : String) (expiresAtMs : Nat)
    (hrecord : store scope = some record) (hlive : store.expired now scope = false)
    : (store.begin now scope inputDigest expiresAtMs).1 = store := by
  unfold begin
  simp only [hlive, Bool.false_eq_true, ↓reduceIte, hrecord]
  repeat' split
  all_goals rfl

theorem begin_acquired_record {store : InMemoryIdempotencyStore} {now : Nat}
    {scope inputDigest : String} {expiresAtMs : Nat}
    (h : (store.begin now scope inputDigest expiresAtMs).2 = .ok .acquired)
    : (store.begin now scope inputDigest expiresAtMs).1 scope
        = some ⟨inputDigest, .inProgress, none, expiresAtMs⟩ := by
  unfold begin at h ⊢
  dsimp at h ⊢
  split
  . simp
  . next hrecord =>
    simp only [hrecord] at h
    repeat' split at h
    all_goals cases h

theorem begin_of_described {store : InMemoryIdempotencyStore} {now : Nat}
    {scope : String} {record : IdempotencyStoreRecord} (inputDigest : String) (expiresAtMs : Nat)
    (hrecord : store scope = some record) (hlive : store.expired now scope = false)
    (hresult : record.state = .completed → record.result ≠ none)
    : (∃ bytes, (store.begin now scope inputDigest expiresAtMs).2 = .ok (.replay bytes))
        ∨ (store.begin now scope inputDigest expiresAtMs).2 = .ok .inProgress
        ∨ (store.begin now scope inputDigest expiresAtMs).2 = .ok .outcomeUnknown
        ∨ (store.begin now scope inputDigest expiresAtMs).2 = .ok .conflict := by
  unfold begin
  simp only [hlive, Bool.false_eq_true, ↓reduceIte, hrecord]
  split
  . simp
  . cases hstate : record.state with
    | inProgress => simp
    | outcomeUnknown => simp
    | completed =>
      cases hbytes : record.result with
      | none =>
        have := hresult hstate
        contradiction
      | some bytes => simp

end InMemoryIdempotencyStore

structure IdempotencyPermit where
  scope : String
  maxResultBytes : Nat
  deriving DecidableEq

namespace IdempotencyPermit

def complete (permit : IdempotencyPermit) (store : InMemoryIdempotencyStore) (result : List UInt8)
    : InMemoryIdempotencyStore × Except IdempotencyError Unit :=
  if result.length > permit.maxResultBytes then
    ((store.abandon permit.scope).1, .error (.resultTooLarge result.length permit.maxResultBytes))
  else
    store.complete permit.scope result

def abandon (permit : IdempotencyPermit) (store : InMemoryIdempotencyStore)
    : InMemoryIdempotencyStore × Except IdempotencyError Unit :=
  store.abandon permit.scope

def markUnknown (permit : IdempotencyPermit) (store : InMemoryIdempotencyStore)
    : InMemoryIdempotencyStore × Except IdempotencyError Unit :=
  store.markUnknown permit.scope

theorem complete_of_ne (permit : IdempotencyPermit) (store : InMemoryIdempotencyStore)
    (result : List UInt8) {key : String} (h : key ≠ permit.scope)
    : (permit.complete store result).1 key = store key := by
  unfold complete InMemoryIdempotencyStore.complete InMemoryIdempotencyStore.abandon
  split
  . apply InMemoryIdempotencyStore.remove_of_ne _ h
  . split
    . rfl
    . split
      . rfl
      . apply InMemoryIdempotencyStore.insert_of_ne _ _ h

theorem abandon_of_ne (permit : IdempotencyPermit) (store : InMemoryIdempotencyStore)
    {key : String} (h : key ≠ permit.scope)
    : (permit.abandon store).1 key = store key := by
  apply InMemoryIdempotencyStore.remove_of_ne _ h

theorem markUnknown_of_ne (permit : IdempotencyPermit) (store : InMemoryIdempotencyStore)
    {key : String} (h : key ≠ permit.scope)
    : (permit.markUnknown store).1 key = store key := by
  unfold markUnknown InMemoryIdempotencyStore.markUnknown
  split
  . rfl
  . apply InMemoryIdempotencyStore.insert_of_ne _ _ h

end IdempotencyPermit

inductive IdempotencyDecision where
  | execute (permit : IdempotencyPermit)
  | replay (result : List UInt8)
  deriving DecidableEq

def toAsciiLowercase (value : String) : String :=
  String.ofList (value.toList.map Char.toLower)

def isAsciiHexdigit (byte : UInt8) : Bool :=
  isAsciiDigit byte || (97 ≤ byte && byte ≤ 102) || (65 ≤ byte && byte ≤ 70)

def validIdentity (scope : IdempotencyScope) (inputDigest : String) : Bool :=
  validateStableId scope.actionId
    && scope.actionRevision != 0
    && scope.deploymentEpoch != 0
    && (utf8 inputDigest).length == 64
    && (utf8 inputDigest).all isAsciiHexdigit

/--
The two clock readings of one `IdempotencyManager::begin`: the manager's, for the expiry it asks
for, and the store's, for the expiry it checks.
-/
structure ClockReadings where
  manager : Except IdempotencyError Nat
  store : Except IdempotencyError Nat

def managerBegin (sha256 : Sha256) (policy : IdempotencyPolicy) (store : InMemoryIdempotencyStore)
    (clock : ClockReadings) (scope : IdempotencyScope) (inputDigest : String)
    : InMemoryIdempotencyStore × Except IdempotencyError IdempotencyDecision :=
  if !validIdentity scope inputDigest then
    (store, .error .invalidIdentity)
  else
    let digest := scopeDigest sha256 policy scope
    match clock.manager with
    | .error error => (store, .error error)
    | .ok issued =>
      -- `saturating_add` on `u64`
      let expiresAtMs := min (issued + policy.retentionMs) (2 ^ 64 - 1)
      match clock.store with
      | .error error => (store, .error error)
      | .ok now =>
        match store.begin now digest (toAsciiLowercase inputDigest) expiresAtMs with
        | (store, .error error) => (store, .error error)
        | (store, .ok .acquired) => (store, .ok (.execute ⟨digest, policy.maxResultBytes⟩))
        | (store, .ok (.replay result)) => (store, .ok (.replay result))
        | (store, .ok .conflict) => (store, .error .inputConflict)
        | (store, .ok .inProgress) => (store, .error .inProgress)
        | (store, .ok .outcomeUnknown) => (store, .error .outcomeUnknown)

theorem managerBegin_eq_replay_iff (sha256 : Sha256) (policy : IdempotencyPolicy)
    (store : InMemoryIdempotencyStore) (clock : ClockReadings) (scope : IdempotencyScope)
    (inputDigest : String) (result : List UInt8)
    : (managerBegin sha256 policy store clock scope inputDigest).2 = .ok (.replay result)
        ↔
      validIdentity scope inputDigest = true
        ∧ ∃ issued now record,
          clock.manager = .ok issued
            ∧ clock.store = .ok now
            ∧ store (scopeDigest sha256 policy scope) = some record
            ∧ now < record.expiresAtMs
            ∧ record.inputDigest = toAsciiLowercase inputDigest
            ∧ record.state = .completed
            ∧ record.result = some result := by
  unfold managerBegin
  by_cases hidentity : validIdentity scope inputDigest = true
  . simp only [hidentity, Bool.not_true, Bool.false_eq_true, ↓reduceIte, true_and]
    cases hissued : clock.manager with
    | error error => simp
    | ok issued =>
      cases hnow : clock.store with
      | error error => simp
      | ok now =>
        have hreplay := InMemoryIdempotencyStore.begin_eq_replay_iff store now
          (scopeDigest sha256 policy scope) (toAsciiLowercase inputDigest)
          (min (issued + policy.retentionMs) (2 ^ 64 - 1)) result
        simp only [Except.ok.injEq, exists_and_left, exists_eq_left']
        rw [← hreplay]
        generalize store.begin now _ _ _ = answer
        split
        all_goals simp
  . simp [hidentity]

theorem managerBegin_of_ne (sha256 : Sha256) (policy : IdempotencyPolicy)
    (store : InMemoryIdempotencyStore) (clock : ClockReadings) (scope : IdempotencyScope)
    (inputDigest : String) {key : String} (h : key ≠ scopeDigest sha256 policy scope)
    : (managerBegin sha256 policy store clock scope inputDigest).1 key = store key := by
  unfold managerBegin
  dsimp
  repeat' split
  all_goals first | rfl | skip
  all_goals
    next hbegin =>
    rw [← InMemoryIdempotencyStore.begin_of_ne store _ _ _ h, hbegin]

theorem managerBegin_of_live {sha256 : Sha256} {policy : IdempotencyPolicy}
    {store : InMemoryIdempotencyStore} {clock : ClockReadings} {scope : IdempotencyScope}
    {record : IdempotencyStoreRecord} (inputDigest : String)
    (hrecord : store (scopeDigest sha256 policy scope) = some record) (hlive : ∀ now, clock.store = .ok now
      → store.expired now (scopeDigest sha256 policy scope) = false)
    : (managerBegin sha256 policy store clock scope inputDigest).1 = store := by
  unfold managerBegin
  dsimp
  split
  . rfl
  . split
    . rfl
    . split
      . rfl
      . next now hnow =>
        have hkeep := fun digest expires =>
          InMemoryIdempotencyStore.begin_of_live digest expires hrecord (hlive now hnow)
        split
        all_goals
          next hbegin =>
          have := congrArg Prod.fst hbegin
          rw [hkeep] at this
          exact this.symm

theorem managerBegin_execute {sha256 : Sha256} {policy : IdempotencyPolicy}
    {store : InMemoryIdempotencyStore} {clock : ClockReadings} {scope : IdempotencyScope}
    {inputDigest : String} {permit : IdempotencyPermit}
    (h : (managerBegin sha256 policy store clock scope inputDigest).2 = .ok (.execute permit))
    : permit = ⟨scopeDigest sha256 policy scope, policy.maxResultBytes⟩
        ∧ (∃ record,
          (managerBegin sha256 policy store clock scope inputDigest).1
              (scopeDigest sha256 policy scope)
            =
          some record
            ∧ record.state = .inProgress)
        ∧ ∃ now,
          clock.store = .ok now
            ∧ (store (scopeDigest sha256 policy scope) = none
              ∨ store.expired now (scopeDigest sha256 policy scope) = true) := by
  unfold managerBegin at h ⊢
  dsimp at h ⊢
  split at h
  . cases h
  . next hidentity =>
    split at h
    . cases h
    . next issued hissued =>
      split at h
      . cases h
      . next now hnow =>
        simp only [hidentity, hnow]
        split at h
        any_goals cases h
        next store' hbegin =>
        have hacquired := congrArg Prod.snd hbegin
        have hrecord := InMemoryIdempotencyStore.begin_acquired_record hacquired
        rw [hbegin] at hrecord
        refine ⟨rfl, ⟨_, hrecord, rfl⟩, now, rfl, ?_⟩
        exact (InMemoryIdempotencyStore.begin_eq_acquired_iff store now _ _ _).mp hacquired

end Data

end Pliego
