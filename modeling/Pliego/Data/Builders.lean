import Pliego.Data.Idempotency

/-!
The builders of resource requirements, invalidation intents and of the three kinds of policies. A
`BTreeSet` is its elements in order. A duration is a number of nanoseconds.
-/

namespace Pliego

open Bytes

namespace Data

def setInsert (x : String) (set : List String) : List String :=
  if x ∈ set then set else set.orderedInsert (· ≤ ·) x

namespace ResourceRequirement

def new (id : String) : Except DataError ResourceRequirement :=
  if !validateStableId id then
    .error (.invalidStableId id)
  else
    .ok { id := id, capabilities := [] }

def requiring (requirement : ResourceRequirement) (capability : String)
    : Except DataError ResourceRequirement :=
  if !validateStableId capability then
    .error (.invalidStableId capability)
  else
    .ok { requirement with capabilities := setInsert capability requirement.capabilities }

inductive Built : ResourceRequirement → Prop where
  | new {id : String} {requirement : ResourceRequirement} (h : new id = .ok requirement) :
    Built requirement
  | requiring {requirement requirement' : ResourceRequirement} {capability : String}
    (hbuilt : Built requirement) (h : requirement.requiring capability = .ok requirement') :
    Built requirement'

end ResourceRequirement

namespace ActionInvalidationIntent

-- The tags are admitted `CacheTag`s; they are sorted and each is kept once.
def ofTags (cachePolicyId : String) (tags : List String)
    : Except DataError ActionInvalidationIntent :=
  let sorted := tags.foldl (fun set tag => setInsert tag set) []
  if !validateStableId cachePolicyId then
    .error (.invalidStableId cachePolicyId)
  else if sorted.isEmpty || sorted.length > 32 then
    .error (.invalidActionState "an invalidation intent requires between 1 and 32 tags")
  else
    .ok { cachePolicyId := cachePolicyId, tags := sorted, consistency := .eventual }

def readYourWrites (intent : ActionInvalidationIntent) : ActionInvalidationIntent :=
  { intent with consistency := .readYourWrites }

inductive Built : ActionInvalidationIntent → Prop where
  | ofTags {cachePolicyId : String} {tags : List String} {intent : ActionInvalidationIntent}
    (htags : ∀ tag ∈ tags, validateStableId tag = true) (h : ofTags cachePolicyId tags = .ok intent) :
    Built intent
  | readYourWrites {intent : ActionInvalidationIntent} (hbuilt : Built intent) :
    Built intent.readYourWrites

end ActionInvalidationIntent

def ActionMediaType.rank (mediaType : ActionMediaType) : Nat :=
  match mediaType with
  | .formUrlencoded => 0
  | .json => 1
  | .multipartFormData => 2

def ActionContentEncoding.rank (encoding : ActionContentEncoding) : Nat :=
  match encoding with
  | .identity => 0
  | .gzip => 1

namespace ActionPolicy

def new (id : String) (semanticRevision : Nat)
    (inputSchemaId fieldErrorSchemaId outputSchemaId : String) : Except DataError ActionPolicy :=
  match [id, inputSchemaId, fieldErrorSchemaId, outputSchemaId].find? (!validateStableId ·) with
  | some value => .error (.invalidStableId value)
  | none =>
    if semanticRevision = 0 then
      .error (.invalidActionState "semantic revision must be greater than zero")
    else
      .ok {
        id := id
        semanticRevision := semanticRevision
        inputSchemaId := inputSchemaId
        fieldErrorSchemaId := fieldErrorSchemaId
        outputSchemaId := outputSchemaId
        acceptedMediaTypes := [.formUrlencoded]
        acceptedContentEncodings := [.identity]
        maxEncodedBytes := 256 * 1024
        maxDecodedBytes := 256 * 1024
        maxFormFields := 256
        maxOutputBytes := 256 * 1024
        originPolicy := .sameOrigin
        csrfPolicy := .sessionBoundToken
        requireAuthentication := true
        requireAuthorization := true
        resources := []
        postCommitGraceMs := 2000
        idempotencyPolicyId := none
        invalidationIntents := [] }

def acceptMediaType (policy : ActionPolicy) (mediaType : ActionMediaType) : ActionPolicy :=
  if policy.acceptedMediaTypes.contains mediaType then
    policy
  else
    { policy with
      acceptedMediaTypes := (policy.acceptedMediaTypes ++ [mediaType]).mergeSort
        (fun left right => left.rank ≤ right.rank) }

def acceptContentEncoding (policy : ActionPolicy) (encoding : ActionContentEncoding)
    : ActionPolicy :=
  if policy.acceptedContentEncodings.contains encoding then
    policy
  else
    { policy with
      acceptedContentEncodings := (policy.acceptedContentEncodings ++ [encoding]).mergeSort
        (fun left right => left.rank ≤ right.rank) }

def withMaxEncodedBytes (policy : ActionPolicy) (maximum : Nat) : Except DataError ActionPolicy :=
  if maximum = 0 || maximum > 64 * 1024 * 1024 then
    .error (.invalidActionState "max encoded bytes must be between 1 and 67108864")
  else
    .ok { policy with maxEncodedBytes := maximum }

def withMaxDecodedBytes (policy : ActionPolicy) (maximum : Nat) : Except DataError ActionPolicy :=
  if maximum = 0 || maximum > 64 * 1024 * 1024 then
    .error (.invalidActionState "max decoded bytes must be between 1 and 67108864")
  else
    .ok { policy with maxDecodedBytes := maximum }

def withMaxOutputBytes (policy : ActionPolicy) (maximum : Nat) : Except DataError ActionPolicy :=
  if maximum = 0 || maximum > 16 * 1024 * 1024 then
    .error (.invalidActionState "max output bytes must be between 1 and 16777216")
  else
    .ok { policy with maxOutputBytes := maximum }

def withMaxFormFields (policy : ActionPolicy) (maximum : Nat) : Except DataError ActionPolicy :=
  if maximum = 0 || maximum > 4096 then
    .error (.invalidActionState "max form fields must be between 1 and 4096")
  else
    .ok { policy with maxFormFields := maximum }

def resource (policy : ActionPolicy) (requirement : ResourceRequirement)
    : Except DataError ActionPolicy :=
  if policy.resources.any (fun current => current.id == requirement.id) then
    .error (.duplicateResource requirement.id)
  else if policy.resources.length ≥ 32 then
    .error (.invalidActionState "an action may require at most 32 resources")
  else
    .ok { policy with resources := policy.resources ++ [requirement] }

def postCommitGrace (policy : ActionPolicy) (nanos : Nat) : Except DataError ActionPolicy :=
  let millis := nanos / 1000000
  if millis ≥ 2 ^ 64 then
    .error (.invalidActionState "post-commit grace is too large")
  else if millis = 0 || millis > 30000 then
    .error (.invalidActionState "post-commit grace must be between 1 and 30000 ms")
  else
    .ok { policy with postCommitGraceMs := millis }

def idempotency (policy : ActionPolicy) (idempotencyPolicy : IdempotencyPolicy) : ActionPolicy :=
  { policy with idempotencyPolicyId := some idempotencyPolicy.id }

def invalidation (policy : ActionPolicy) (intent : ActionInvalidationIntent)
    : Except DataError ActionPolicy :=
  if policy.invalidationIntents.any (fun current => current.cachePolicyId == intent.cachePolicyId)
  then
    .error (.invalidActionState ("duplicate invalidation policy " ++ intent.cachePolicyId))
  else if policy.invalidationIntents.length ≥ 16 then
    .error (.invalidActionState "an action may declare at most 16 invalidation intents")
  else
    .ok { policy with
      invalidationIntents := (policy.invalidationIntents ++ [intent]).mergeSort
        (fun left right => left.cachePolicyId ≤ right.cachePolicyId) }

/--
The policies the public builders produce. A revision is a `u32`, and an idempotency policy has an
admitted id.
-/
inductive Built : ActionPolicy → Prop where
  | new {id : String} {revision : Nat} {input fieldError output : String} {policy : ActionPolicy}
    (hrevision : revision < 256 ^ 4) (h : new id revision input fieldError output = .ok policy) :
    Built policy
  | acceptMediaType {policy : ActionPolicy} (hbuilt : Built policy) (mediaType : ActionMediaType) :
    Built (policy.acceptMediaType mediaType)
  | acceptContentEncoding {policy : ActionPolicy} (hbuilt : Built policy)
    (encoding : ActionContentEncoding) : Built (policy.acceptContentEncoding encoding)
  | withMaxEncodedBytes {policy policy' : ActionPolicy} {maximum : Nat} (hbuilt : Built policy)
    (h : policy.withMaxEncodedBytes maximum = .ok policy') : Built policy'
  | withMaxDecodedBytes {policy policy' : ActionPolicy} {maximum : Nat} (hbuilt : Built policy)
    (h : policy.withMaxDecodedBytes maximum = .ok policy') : Built policy'
  | withMaxOutputBytes {policy policy' : ActionPolicy} {maximum : Nat} (hbuilt : Built policy)
    (h : policy.withMaxOutputBytes maximum = .ok policy') : Built policy'
  | withMaxFormFields {policy policy' : ActionPolicy} {maximum : Nat} (hbuilt : Built policy)
    (h : policy.withMaxFormFields maximum = .ok policy') : Built policy'
  | originPolicy {policy : ActionPolicy} (hbuilt : Built policy) (origin : OriginPolicy) :
    Built { policy with originPolicy := origin }
  | csrfPolicy {policy : ActionPolicy} (hbuilt : Built policy) (csrf : CsrfPolicy) :
    Built { policy with csrfPolicy := csrf }
  | requireAuthentication {policy : ActionPolicy} (hbuilt : Built policy) (required : Bool) :
    Built { policy with requireAuthentication := required }
  | requireAuthorization {policy : ActionPolicy} (hbuilt : Built policy) (required : Bool) :
    Built { policy with requireAuthorization := required }
  | resource {policy policy' : ActionPolicy} {requirement : ResourceRequirement}
    (hbuilt : Built policy) (hrequirement : requirement.Built)
    (h : policy.resource requirement = .ok policy') : Built policy'
  | postCommitGrace {policy policy' : ActionPolicy} {nanos : Nat} (hbuilt : Built policy)
    (h : policy.postCommitGrace nanos = .ok policy') : Built policy'
  | idempotency {policy : ActionPolicy} {idempotencyPolicy : IdempotencyPolicy}
    (hbuilt : Built policy) (hid : validateStableId idempotencyPolicy.id = true) :
    Built (policy.idempotency idempotencyPolicy)
  | invalidation {policy policy' : ActionPolicy} {intent : ActionInvalidationIntent}
    (hbuilt : Built policy) (hintent : intent.Built) (h : policy.invalidation intent = .ok policy') :
    Built policy'

end ActionPolicy

structure LoaderPolicy where
  id : String
  semanticRevision : Nat
  inputSchemaId : String
  outputSchemaId : String
  resources : List ResourceRequirement
  cachePolicyId : Option String
  maxOutputBytes : Nat
  deduplicateInRequest : Bool
  deriving DecidableEq

namespace LoaderPolicy

def new (id : String) (semanticRevision : Nat) (inputSchemaId outputSchemaId : String)
    : Except DataError LoaderPolicy :=
  match [id, inputSchemaId, outputSchemaId].find? (!validateStableId ·) with
  | some value => .error (.invalidStableId value)
  | none =>
    if semanticRevision = 0 then
      .error (.invalidLoaderPolicy "semantic revision must be greater than zero")
    else
      .ok {
        id := id
        semanticRevision := semanticRevision
        inputSchemaId := inputSchemaId
        outputSchemaId := outputSchemaId
        resources := []
        cachePolicyId := none
        maxOutputBytes := 256 * 1024
        deduplicateInRequest := true }

def resource (policy : LoaderPolicy) (requirement : ResourceRequirement)
    : Except DataError LoaderPolicy :=
  if policy.resources.any (fun current => current.id == requirement.id) then
    .error (.duplicateResource requirement.id)
  else if policy.resources.length ≥ 32 then
    .error (.invalidLoaderPolicy "a loader may require at most 32 resources")
  else
    .ok { policy with resources := policy.resources ++ [requirement] }

def cachePolicy (policy : LoaderPolicy) (id : String) : Except DataError LoaderPolicy :=
  if !validateStableId id then
    .error (.invalidStableId id)
  else
    .ok { policy with cachePolicyId := some id }

def withMaxOutputBytes (policy : LoaderPolicy) (maximum : Nat) : Except DataError LoaderPolicy :=
  if maximum = 0 || maximum > 16 * 1024 * 1024 then
    .error (.invalidLoaderPolicy "max output bytes must be between 1 and 16777216")
  else
    .ok { policy with maxOutputBytes := maximum }

inductive Built : LoaderPolicy → Prop where
  | new {id : String} {revision : Nat} {input output : String} {policy : LoaderPolicy}
    (hrevision : revision < 256 ^ 4) (h : new id revision input output = .ok policy) : Built policy
  | resource {policy policy' : LoaderPolicy} {requirement : ResourceRequirement}
    (hbuilt : Built policy) (hrequirement : requirement.Built)
    (h : policy.resource requirement = .ok policy') : Built policy'
  | cachePolicy {policy policy' : LoaderPolicy} {id : String} (hbuilt : Built policy)
    (h : policy.cachePolicy id = .ok policy') : Built policy'
  | withMaxOutputBytes {policy policy' : LoaderPolicy} {maximum : Nat} (hbuilt : Built policy)
    (h : policy.withMaxOutputBytes maximum = .ok policy') : Built policy'
  | deduplicateInRequest {policy : LoaderPolicy} (hbuilt : Built policy) (enabled : Bool) :
    Built { policy with deduplicateInRequest := enabled }

end LoaderPolicy

inductive CacheError where
  | invalidPolicy (message : String)
  | invalidKey (message : String)
  | invalidPartition
  | invalidTag
  | invalidCause
  | missingVary
  | partitionMismatch
  | policyNotGranted
  | keyTooLarge (actual maximum : Nat)
  | valueTooLarge (actual maximum : Nat)
  | tooManyTags (actual maximum : Nat)
  | versionMismatch
  | invalidValue
  | storeCapacity
  | storeFailure
  | cancelled
  | deadline
  | fillPanicked
  | fillTimeout
  | acknowledgementBarrier
  | clock
  deriving DecidableEq, Repr

inductive CacheDomain where
  | publicRuntime
  | privateRequest
  | privateSession
  deriving DecidableEq, Repr

def CacheDomain.asStr (domain : CacheDomain) : String :=
  match domain with
  | .publicRuntime => "public-runtime"
  | .privateRequest => "private-request"
  | .privateSession => "private-session"

def CacheDomain.requiresPartition (domain : CacheDomain) : Bool :=
  match domain with
  | .publicRuntime => false
  | _ => true

structure CachePolicy where
  id : String
  semanticRevision : Nat
  nameSpace : String
  compatibilityEpoch : Nat
  domain : CacheDomain
  requiredVary : List String
  freshFor : Nat
  staleFor : Nat
  maxKeyBytes : Nat
  maxValueBytes : Nat
  maxTags : Nat
  coalesceFills : Bool
  fillTimeout : Nat
  deriving DecidableEq

def secs (seconds : Nat) : Nat := seconds * 1000000000

def asMillis (nanos : Nat) : Nat := nanos / 1000000

namespace CachePolicy

def new (id : String) (semanticRevision : Nat) (nameSpace : String) (compatibilityEpoch : Nat)
    (domain : CacheDomain) : Except CacheError CachePolicy :=
  match [id, nameSpace].find? (!validateStableId ·) with
  | some value => .error (.invalidPolicy ("invalid stable ID " ++ value.quote))
  | none =>
    if semanticRevision = 0 || compatibilityEpoch = 0 then
      .error (.invalidPolicy "semantic revision and compatibility epoch must be non-zero")
    else
      .ok {
        id := id
        semanticRevision := semanticRevision
        nameSpace := nameSpace
        compatibilityEpoch := compatibilityEpoch
        domain := domain
        requiredVary := []
        freshFor := secs 60
        staleFor := 0
        maxKeyBytes := 8 * 1024
        maxValueBytes := 1024 * 1024
        maxTags := 32
        coalesceFills := true
        fillTimeout := secs 10 }

def vary (policy : CachePolicy) (name : String) : Except CacheError CachePolicy :=
  if !validateStableId name then
    .error (.invalidPolicy "invalid Vary ID")
  else if policy.requiredVary.length ≥ 32 then
    .error (.invalidPolicy "a cache policy may require at most 32 Vary inputs")
  else
    .ok { policy with requiredVary := setInsert name policy.requiredVary }

def freshness (policy : CachePolicy) (freshFor staleFor : Nat) : Except CacheError CachePolicy :=
  if freshFor = 0 || freshFor > secs (365 * 24 * 60 * 60) || staleFor > secs (24 * 60 * 60) then
    .error (.invalidPolicy "cache freshness or stale window is invalid")
  else
    .ok { policy with freshFor := freshFor, staleFor := staleFor }

def bounds (policy : CachePolicy) (maxKeyBytes maxValueBytes maxTags : Nat)
    : Except CacheError CachePolicy :=
  if maxKeyBytes = 0 || maxKeyBytes > 64 * 1024 || maxValueBytes = 0
      || maxValueBytes > 64 * 1024 * 1024 || maxTags = 0 || maxTags > 256 then
    .error (.invalidPolicy "cache key, value, or tag bounds are invalid")
  else
    .ok { policy with
      maxKeyBytes := maxKeyBytes
      maxValueBytes := maxValueBytes
      maxTags := maxTags }

def stampede (policy : CachePolicy) (coalesceFills : Bool) (fillTimeout : Nat)
    : Except CacheError CachePolicy :=
  if fillTimeout = 0 || fillTimeout > secs 60 then
    .error (.invalidPolicy "cache fill timeout must be between 1 ms and 60 seconds")
  else
    .ok { policy with coalesceFills := coalesceFills, fillTimeout := fillTimeout }

inductive Built : CachePolicy → Prop where
  | new {id : String} {revision : Nat} {nameSpace : String} {epoch : Nat} {domain : CacheDomain}
    {policy : CachePolicy} (hrevision : revision < 256 ^ 4) (hepoch : epoch < 256 ^ 4)
    (h : new id revision nameSpace epoch domain = .ok policy) : Built policy
  | vary {policy policy' : CachePolicy} {name : String} (hbuilt : Built policy)
    (h : policy.vary name = .ok policy') : Built policy'
  | freshness {policy policy' : CachePolicy} {freshFor staleFor : Nat} (hbuilt : Built policy)
    (h : policy.freshness freshFor staleFor = .ok policy') : Built policy'
  | bounds {policy policy' : CachePolicy} {maxKeyBytes maxValueBytes maxTags : Nat}
    (hbuilt : Built policy) (h : policy.bounds maxKeyBytes maxValueBytes maxTags = .ok policy') :
    Built policy'
  | stampede {policy policy' : CachePolicy} {coalesceFills : Bool} {fillTimeout : Nat}
    (hbuilt : Built policy) (h : policy.stampede coalesceFills fillTimeout = .ok policy') :
    Built policy'

end CachePolicy

end Data

end Pliego
