import Pliego.Data.Cache

/-!
The cache manager and the invalidation coordinator, each operation as what it does between two accesses
of shared state. The clock is an argument of the operations that read it.
-/

namespace Pliego

open Bytes

namespace Data

structure CacheCodec (V : Type) where
  toVec : V → Option (List UInt8)
  fromSlice : List UInt8 → Option V

inductive CacheOutcome where
  | hit
  | miss
  | stale
  | bypass
  | privateHit
  | invalidated
  | rejected
  deriving DecidableEq, Repr

inductive CacheSizeBucket where
  | none
  | under1Kibibyte
  | under16Kibibytes
  | under256Kibibytes
  | atLeast256Kibibytes
  deriving DecidableEq, Repr

def CacheSizeBucket.fromBytes (bytes : Nat) : CacheSizeBucket :=
  if bytes = 0 then
    .none
  else if bytes ≤ 1023 then
    .under1Kibibyte
  else if bytes ≤ 16383 then
    .under16Kibibytes
  else if bytes ≤ 262143 then
    .under256Kibibytes
  else
    .atLeast256Kibibytes

structure CacheReceipt where
  contract : String
  policyId : String
  semanticRevision : Nat
  nameSpace : String
  compatibilityEpoch : Nat
  keyDigest : String
  domain : CacheDomain
  outcome : CacheOutcome
  valueSizeBucket : CacheSizeBucket
  invalidationSequence : Option Nat
  deriving DecidableEq, Repr

structure CacheLookup (V : Type) where
  value : Option V
  receipt : CacheReceipt

def saturatingAdd (a b : Nat) : Nat := min (a + b) (2 ^ 64 - 1)

def durationMillis (nanos : Nat) : Except CacheError Nat :=
  if asMillis nanos ≥ 2 ^ 64 then
    .error (.invalidPolicy "duration is too large")
  else
    .ok (asMillis nanos)

def recordMatches (record : CacheStoreRecord) (policy : CachePolicy) : Bool :=
  record.policyId == policy.id
    && record.policyRevision == policy.semanticRevision
    && record.nameSpace == policy.nameSpace
    && record.compatibilityEpoch == policy.compatibilityEpoch
    && record.domain == policy.domain

namespace CachePolicy

variable {V Ω : Type}

def validateKey (policy : CachePolicy) (key : CacheKey) : Except CacheError Unit :=
  if key.policyId ≠ policy.id
      || key.policyRevision ≠ policy.semanticRevision
      || key.nameSpace ≠ policy.nameSpace
      || key.compatibilityEpoch ≠ policy.compatibilityEpoch
      || key.domain ≠ policy.domain then
    .error .versionMismatch
  else
    .ok ()

def receipt (policy : CachePolicy) (key : CacheKey) (outcome : CacheOutcome) (bytes : Nat)
    (invalidationSequence : Option Nat) : CacheReceipt :=
  { contract := "dev.pliegors.cache-receipt/v1"
    policyId := policy.id
    semanticRevision := policy.semanticRevision
    nameSpace := policy.nameSpace
    compatibilityEpoch := policy.compatibilityEpoch
    keyDigest := key.digest
    domain := policy.domain
    outcome := outcome
    valueSizeBucket := .fromBytes bytes
    invalidationSequence := invalidationSequence }

/--
What a lookup does with the entry it has read: it returns, or it first removes the key, whose record is
expired or, with an error, of another policy.
-/
inductive Looked (V Ω : Type) where
  | returns (result : Except CacheError (CacheLookup V)) (entry : Option (CacheEntry Ω))
  | removes (mismatch : Option CacheError)

def removed (policy : CachePolicy) (key : CacheKey) (mismatch : Option CacheError)
    : Except CacheError (CacheLookup V) :=
  match mismatch with
  | some error => .error error
  | none => .ok ⟨none, policy.receipt key .miss 0 none⟩

def lookup (codec : CacheCodec V) (policy : CachePolicy) (key : CacheKey)
    (store : InMemoryCacheStore Ω) (clock : Except CacheError Nat) : Looked V Ω :=
  match policy.validateKey key with
  | .error error => .returns (.error error) none
  | .ok () =>
    match store.get key with
    | none => .returns (.ok ⟨none, policy.receipt key .miss 0 none⟩) none
    | some entry =>
      if !recordMatches entry.record policy then
        .removes (some .versionMismatch)
      else
        match clock with
        | .error error => .returns (.error error) none
        | .ok now =>
          if now ≥ entry.record.staleUntilMs then
            .removes none
          else
            match codec.fromSlice entry.record.value with
            | none => .returns (.error .invalidValue) none
            | some value =>
              let outcome :=
                if policy.domain.requiresPartition then
                  CacheOutcome.privateHit
                else if now < entry.record.freshUntilMs then
                  .hit
                else
                  .stale
              .returns
                (.ok ⟨some value, policy.receipt key outcome entry.record.value.length none⟩)
                (some entry)

def record (codec : CacheCodec V) (policy : CachePolicy) (key : CacheKey) (value : V)
    (tags : List String) (clock : Except CacheError Nat) : Except CacheError CacheStoreRecord := do
  policy.validateKey key
  match codec.toVec value with
  | none => .error .invalidValue
  | some bytes =>
    if bytes.length > policy.maxValueBytes then
      .error (.valueTooLarge bytes.length policy.maxValueBytes)
    else
      let tags := tags.foldl (fun set tag => setInsert tag set) []
      if tags.length > policy.maxTags then
        .error (.tooManyTags tags.length policy.maxTags)
      else
        let now ← clock
        let freshUntilMs := saturatingAdd now (← durationMillis policy.freshFor)
        let staleUntilMs := saturatingAdd freshUntilMs (← durationMillis policy.staleFor)
        .ok {
          policyId := policy.id
          policyRevision := policy.semanticRevision
          nameSpace := policy.nameSpace
          compatibilityEpoch := policy.compatibilityEpoch
          domain := policy.domain
          value := bytes
          tags := tags
          createdAtMs := now
          freshUntilMs := freshUntilMs
          staleUntilMs := staleUntilMs }

def insert (codec : CacheCodec V) (policy : CachePolicy) (key : CacheKey) (value : V)
    (tags : List String) (origin : Ω) (store : InMemoryCacheStore Ω) (clock : Except CacheError Nat)
    : Except CacheError (InMemoryCacheStore Ω × CacheReceipt) := do
  let record ← policy.record codec key value tags clock
  let store ← store.put key ⟨record, origin⟩
  .ok (store, policy.receipt key .miss record.value.length none)

theorem lookup_cases {codec : CacheCodec V} {policy : CachePolicy} {key : CacheKey}
    {store : InMemoryCacheStore Ω} {clock : Except CacheError Nat}
    {looked : Looked V Ω} (h : policy.lookup codec key store clock = looked)
    : (∃ mismatch, looked = .removes mismatch) ∨
      (∃ result, looked = .returns result none ∧ ∀ l, result = .ok l → l.value = none) ∨
      ∃ entry value receipt, looked = .returns (.ok ⟨some value, receipt⟩) (some entry) ∧
        (key.digest, entry) ∈ store.entries ∧ codec.fromSlice entry.record.value = some value := by
  unfold lookup at h
  split at h
  . exact .inr (.inl ⟨_, h.symm, by simp⟩)
  . split at h
    . refine .inr (.inl ⟨_, h.symm, ?_⟩)
      rintro _ ⟨⟩
      rfl
    . next entry hget =>
      split at h
      . exact .inl ⟨_, h.symm⟩
      . split at h
        . exact .inr (.inl ⟨_, h.symm, by simp⟩)
        . split at h
          . exact .inl ⟨_, h.symm⟩
          . split at h
            . exact .inr (.inl ⟨_, h.symm, by simp⟩)
            . next value hvalue =>
              exact .inr (.inr ⟨entry, value, _, h.symm, InMemoryCacheStore.mem_of_get hget, hvalue⟩)

theorem record_ok {codec : CacheCodec V} {policy : CachePolicy} {key : CacheKey} {value : V}
    {tags : List String} {clock : Except CacheError Nat} {record : CacheStoreRecord}
    (h : policy.record codec key value tags clock = .ok record)
    : policy.validateKey key = .ok () ∧ codec.toVec value = some record.value ∧
        record.nameSpace = policy.nameSpace ∧
        record.compatibilityEpoch = policy.compatibilityEpoch ∧
        record.tags = tags.foldl (fun set tag => setInsert tag set) [] := by
  unfold CachePolicy.record at h
  cases hkey : policy.validateKey key with
  | error error =>
    rw [hkey] at h
    cases h
  | ok _ =>
    rw [hkey] at h
    dsimp only [bind, Except.bind] at h
    split at h
    . cases h
    . next bytes hbytes =>
      split at h
      . cases h
      . split at h
        . cases h
        . split at h
          . cases h
          . split at h
            . cases h
            . split at h
              . cases h
              . cases h
                exact ⟨rfl, hbytes, rfl, rfl, rfl⟩

theorem insert_ok {codec : CacheCodec V} {policy : CachePolicy} {key : CacheKey} {value : V}
    {tags : List String} {origin : Ω} {store store' : InMemoryCacheStore Ω}
    {clock : Except CacheError Nat} {receipt : CacheReceipt}
    (h : policy.insert codec key value tags origin store clock = .ok (store', receipt))
    : ∃ record, policy.record codec key value tags clock = .ok record ∧
        store.put key ⟨record, origin⟩ = .ok store' := by
  unfold insert at h
  dsimp only [bind, Except.bind] at h
  split at h
  . cases h
  . next record hrecord =>
    split at h
    . cases h
    . next put hput =>
      cases h
      exact ⟨record, hrecord, hput⟩

end CachePolicy

inductive InvalidationTargetKind where
  | tags
  | exactKey
  deriving DecidableEq, Repr

structure InvalidationEvent where
  contract : String
  sequence : Nat
  policyId : String
  nameSpace : String
  compatibilityEpoch : Nat
  targetKind : InvalidationTargetKind
  targetDigest : String
  causeReceipt : String
  expectedAcknowledgements : Nat
  acknowledgedReplicas : Nat
  removedEntries : Nat
  deriving DecidableEq, Repr

structure InvalidationRequest where
  policy : CachePolicy
  tags : List String
  exactKey : Option String
  causeReceipt : String
  deriving DecidableEq

namespace InvalidationRequest

def ofTags (policy : CachePolicy) (tags : List String) (causeReceipt : String)
    : Except CacheError InvalidationRequest :=
  let tags := tags.foldl (fun set tag => setInsert tag set) []
  if tags.isEmpty || tags.length > policy.maxTags then
    .error (.tooManyTags tags.length policy.maxTags)
  else
    .ok ⟨policy, tags, none, causeReceipt⟩

def ofKey (policy : CachePolicy) (key : CacheKey) (causeReceipt : String)
    : Except CacheError InvalidationRequest :=
  if key.policyId ≠ policy.id || key.compatibilityEpoch ≠ policy.compatibilityEpoch then
    .error .versionMismatch
  else
    .ok ⟨policy, [], some key.digest, causeReceipt⟩

inductive Built (sha256 : Sha256) : InvalidationRequest → Prop where
  | ofTags {policy : CachePolicy} {tags : List String} {cause : String}
    {request : InvalidationRequest} (hpolicy : policy.Built)
    (htags : ∀ tag ∈ tags, validateStableId tag = true) (h : ofTags policy tags cause = .ok request) :
    Built sha256 request
  | ofKey {policy : CachePolicy} {key : MadeKey sha256} {cause : String}
    {request : InvalidationRequest} (hpolicy : policy.Built)
    (h : ofKey policy key.key cause = .ok request) : Built sha256 request

def targetPreimage (request : InvalidationRequest) : List UInt8 :=
  utf8 "pliego-cache-invalidation-target-v1" ++ [0] ++
    match request.exactKey with
    | some key => utf8 "exact-key" ++ [0] ++ lenPrefixed (utf8 key)
    | none => utf8 "tags" ++ [0] ++ request.tags.flatMap (fun tag => lenPrefixed (utf8 tag))

def targetDigest (sha256 : Sha256) (request : InvalidationRequest) : String :=
  encodeHex (sha256 request.targetPreimage).bytes

def replayHead (request : InvalidationRequest) : List (List UInt8) :=
  [ utf8 request.policy.id,
    beBytes 4 request.policy.semanticRevision,
    utf8 request.policy.nameSpace,
    beBytes 4 request.policy.compatibilityEpoch,
    utf8 request.causeReceipt,
    utf8 (request.exactKey.getD "") ]

def replayPreimage (request : InvalidationRequest) : List UInt8 :=
  utf8 "pliego-cache-invalidation-delivery-v1" ++ [0]
    ++ request.replayHead.flatMap lenPrefixed
    ++ request.tags.flatMap (fun tag => lenPrefixed (utf8 tag))

def replayId (sha256 : Sha256) (request : InvalidationRequest) : String :=
  encodeHex (sha256 request.replayPreimage).bytes

def hits (request : InvalidationRequest) (digest : String) (record : CacheStoreRecord) : Bool :=
  InMemoryCacheStore.hit request.policy.nameSpace request.policy.compatibilityEpoch request.tags
    request.exactKey digest record

end InvalidationRequest

def maxInvalidationReplayEvents : Nat := 4096

structure InvalidationReplayWindow where
  events : List (String × InvalidationEvent)
  order : List String

namespace InvalidationReplayWindow

def expire (fuel : Nat) (window : InvalidationReplayWindow) : InvalidationReplayWindow :=
  match fuel, window.order with
  | fuel + 1, expired :: order =>
    if window.order.length > maxInvalidationReplayEvents then
      expire fuel { events := window.events.filter (fun kept => kept.1 != expired), order := order }
    else
      window
  | _, _ => window

def record (window : InvalidationReplayWindow) (replayId : String) (event : InvalidationEvent)
    : InvalidationReplayWindow :=
  let order := window.order ++ [replayId]
  expire order.length
    { events := (replayId, event) :: window.events.filter (fun kept => kept.1 != replayId)
      order := order }

end InvalidationReplayWindow

end Data

end Pliego
