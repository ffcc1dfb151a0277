import Pliego.Data.Contract

/-!
Keys, records and the in-memory store of the runtime cache. A `BTreeMap` is its entries in the order of
their keys. An entry of a store also has an origin, which no operation reads: what wrote it.
-/

namespace Pliego

open Bytes

namespace Data

def isControl (c : Char) : Bool :=
  c.toNat < 32 || (127 ≤ c.toNat && c.toNat < 160)

inductive CachePartitionKind where
  | request
  | session
  deriving DecidableEq, Repr

@[ext]
structure CachePartition where
  digest : String
  kind : CachePartitionKind
  deriving DecidableEq, Repr

inductive PartitionSource where
  | identity (identity : String)
  | request (requestId : String)
  | tenant (tenant identity : String)
  deriving DecidableEq, Repr

namespace CachePartition

def admitted (value : String) : Bool :=
  !(value.isEmpty || (utf8 value).length > 512 || value.toList.any isControl)

def identityPreimage (identity : String) : List UInt8 :=
  utf8 "pliego-cache-session-partition-v1" ++ [0] ++ lenPrefixed (utf8 identity)

def requestPreimage (requestId : String) : List UInt8 :=
  utf8 "pliego-cache-request-partition-v1" ++ [0] ++ lenPrefixed (utf8 requestId)

def tenantPreimage (tenant identity : String) : List UInt8 :=
  utf8 "pliego-cache-tenant-partition-v1" ++ [0] ++ [utf8 tenant, utf8 identity].flatMap lenPrefixed

def fromIdentity (sha256 : Sha256) (identity : String) : Except CacheError CachePartition :=
  if !admitted identity then
    .error .invalidPartition
  else
    .ok { digest := encodeHex (sha256 (identityPreimage identity)).bytes, kind := .session }

def fromRequest (sha256 : Sha256) (requestId : String) : Except CacheError CachePartition :=
  if !admitted requestId then
    .error .invalidPartition
  else
    .ok { digest := encodeHex (sha256 (requestPreimage requestId)).bytes, kind := .request }

def fromTenantAndIdentity (sha256 : Sha256) (tenant identity : String)
    : Except CacheError CachePartition :=
  if !([tenant, identity].all admitted) then
    .error .invalidPartition
  else
    .ok { digest := encodeHex (sha256 (tenantPreimage tenant identity)).bytes, kind := .session }

end CachePartition

namespace PartitionSource

def preimage (source : PartitionSource) : List UInt8 :=
  match source with
  | .identity user => CachePartition.identityPreimage user
  | .request requestId => CachePartition.requestPreimage requestId
  | .tenant tenantId user => CachePartition.tenantPreimage tenantId user

def partition (sha256 : Sha256) (source : PartitionSource) : Except CacheError CachePartition :=
  match source with
  | .identity user => CachePartition.fromIdentity sha256 user
  | .request requestId => CachePartition.fromRequest sha256 requestId
  | .tenant tenantId user => CachePartition.fromTenantAndIdentity sha256 tenantId user

end PartitionSource

structure CacheKeyInput where
  operationId : String
  operationRevision : Nat
  inputDigest : String
  vary : List (String × String)
  partition : Option CachePartition
  deriving DecidableEq, Repr

namespace CacheKeyInput

def new (operationId : String) (operationRevision : Nat) (inputDigest : String)
    : Except CacheError CacheKeyInput :=
  if !validateStableId operationId || operationRevision = 0 then
    .error (.invalidKey "invalid operation identity")
  else if (utf8 inputDigest).length ≠ 64 || !(utf8 inputDigest).all isAsciiHexdigit then
    .error (.invalidKey "invalid input digest")
  else
    .ok {
      operationId := operationId
      operationRevision := operationRevision
      inputDigest := toAsciiLowercase inputDigest
      vary := []
      partition := none }

def addVary (input : CacheKeyInput) (name value : String) : Except CacheError CacheKeyInput :=
  if !validateStableId name || (utf8 value).length > 2 * 1024 || value.toList.any isControl then
    .error (.invalidKey "invalid Vary input")
  else if input.vary.any (fun entry => entry.1 == name) then
    .error (.invalidKey ("duplicate Vary input " ++ name))
  else
    .ok { input with
      vary := input.vary.orderedInsert (fun left right => left.1 ≤ right.1) (name, value) }

def inPartition (input : CacheKeyInput) (partition : CachePartition) : CacheKeyInput :=
  { input with partition := some partition }

inductive Built (sha256 : Sha256) : CacheKeyInput → Option PartitionSource → Prop where
  | new {operationId : String} {revision : Nat} {inputDigest : String} {input : CacheKeyInput}
    (hrevision : revision < 256 ^ 4) (h : new operationId revision inputDigest = .ok input) :
    Built sha256 input none
  | addVary {input input' : CacheKeyInput} {source : Option PartitionSource} {name value : String}
    (hbuilt : Built sha256 input source) (h : input.addVary name value = .ok input') :
    Built sha256 input' source
  | inPartition {input : CacheKeyInput} {source : Option PartitionSource}
    {source' : PartitionSource} {partition : CachePartition} (hbuilt : Built sha256 input source)
    (h : source'.partition sha256 = .ok partition) :
    Built sha256 (input.inPartition partition) (some source')

end CacheKeyInput

structure CacheKey where
  digest : String
  policyId : String
  policyRevision : Nat
  nameSpace : String
  compatibilityEpoch : Nat
  domain : CacheDomain
  deriving DecidableEq, Repr

namespace CachePolicy

def keyHead (policy : CachePolicy) (input : CacheKeyInput) : List (List UInt8) :=
  [ utf8 policy.id,
    beBytes 4 policy.semanticRevision,
    utf8 policy.nameSpace,
    beBytes 4 policy.compatibilityEpoch,
    utf8 policy.domain.asStr,
    utf8 input.operationId,
    beBytes 4 input.operationRevision,
    utf8 input.inputDigest ]

def keyPreimage (policy : CachePolicy) (input : CacheKeyInput) : List UInt8 :=
  (policy.keyHead input).flatMap lenPrefixed
    ++ input.vary.flatMap (fun entry => [utf8 entry.1, utf8 entry.2].flatMap lenPrefixed)
    ++ (match input.partition with
        | none => []
        | some partition => lenPrefixed (utf8 partition.digest))

def partitionMatches (domain : CacheDomain) (partition : Option CachePartition) : Bool :=
  match domain, partition with
  | .publicRuntime, none => true
  | .privateRequest, some partition => partition.kind = .request
  | .privateSession, some partition => partition.kind = .session
  | _, _ => false

def key (sha256 : Sha256) (policy : CachePolicy) (input : CacheKeyInput)
    : Except CacheError CacheKey :=
  if input.vary.map (·.1) ≠ policy.requiredVary then
    .error .missingVary
  else if !partitionMatches policy.domain input.partition then
    .error .partitionMismatch
  else if (policy.keyPreimage input).length > policy.maxKeyBytes then
    .error (.keyTooLarge (policy.keyPreimage input).length policy.maxKeyBytes)
  else
    .ok {
      digest := encodeHex (sha256 (policy.keyPreimage input)).bytes
      policyId := policy.id
      policyRevision := policy.semanticRevision
      nameSpace := policy.nameSpace
      compatibilityEpoch := policy.compatibilityEpoch
      domain := policy.domain }

end CachePolicy

namespace CachePolicy

def keyFields (policy : CachePolicy) (input : CacheKeyInput) : List (List UInt8) :=
  policy.keyHead input
    ++ (input.vary.flatMap (fun entry => [utf8 entry.1, utf8 entry.2])
      ++ (input.partition.map (fun partition => utf8 partition.digest)).toList)

theorem keyPreimage_eq (policy : CachePolicy) (input : CacheKeyInput)
    : policy.keyPreimage input = (policy.keyFields input).flatMap lenPrefixed := by
  unfold keyPreimage keyFields
  rw [List.flatMap_append, List.flatMap_append, List.append_assoc, List.flatMap_assoc]
  cases input.partition with
  | none => simp
  | some partition => simp

theorem length_of_mem_keyFields {policy : CachePolicy} {input : CacheKeyInput} {field : List UInt8}
    (h : field ∈ policy.keyFields input)
    : field.length ≤ (policy.keyPreimage input).length := by
  rw [keyPreimage_eq]
  obtain ⟨before, after, hsplit⟩ := List.append_of_mem h
  rw [hsplit, List.flatMap_append, List.flatMap_cons]
  simp only [lenPrefixed, List.length_append]
  omega

theorem key_cases {sha256 : Sha256} {policy : CachePolicy} {input : CacheKeyInput} {key : CacheKey}
    (h : policy.key sha256 input = .ok key)
    : input.vary.map (·.1) = policy.requiredVary ∧
        partitionMatches policy.domain input.partition = true ∧
        (policy.keyPreimage input).length ≤ policy.maxKeyBytes ∧
        key = {
          digest := encodeHex (sha256 (policy.keyPreimage input)).bytes
          policyId := policy.id
          policyRevision := policy.semanticRevision
          nameSpace := policy.nameSpace
          compatibilityEpoch := policy.compatibilityEpoch
          domain := policy.domain } := by
  unfold CachePolicy.key at h
  split at h
  . cases h
  . next hvary =>
    split at h
    . cases h
    . next hpartition =>
      split at h
      . cases h
      . next hlen =>
        cases h
        exact ⟨not_not.mp hvary, by simpa using hpartition, not_lt.mp hlen, rfl⟩

theorem isSome_of_partitionMatches {domain : CacheDomain} {partition : Option CachePartition}
    (h : partitionMatches domain partition = true)
    : partition.isSome = domain.requiresPartition := by
  revert h
  cases domain <;> cases partition <;> simp [partitionMatches, CacheDomain.requiresPartition]

theorem kind_of_partitionMatches {domain : CacheDomain} {a b : CachePartition}
    (ha : partitionMatches domain (some a) = true) (hb : partitionMatches domain (some b) = true)
    : a.kind = b.kind := by
  cases domain with
  | publicRuntime => cases ha
  | privateRequest => exact (of_decide_eq_true ha).trans (of_decide_eq_true hb).symm
  | privateSession => exact (of_decide_eq_true ha).trans (of_decide_eq_true hb).symm

theorem varyFields_inj {v w : List (String × String)} {x y : List (List UInt8)} (hlen : x.length = y.length)
    (h : v.flatMap (fun entry => [utf8 entry.1, utf8 entry.2]) ++ x
      = w.flatMap (fun entry => [utf8 entry.1, utf8 entry.2]) ++ y)
    : v = w ∧ x = y := by
  induction v generalizing w with
  | nil =>
    cases w with
    | nil => exact ⟨rfl, h⟩
    | cons entry w =>
      have := congrArg List.length h
      simp only [List.flatMap_nil, List.flatMap_cons, List.length_append, List.length_cons,
        List.length_nil] at this
      omega
  | cons entry v ih =>
    cases w with
    | nil =>
      have := congrArg List.length h
      simp only [List.flatMap_nil, List.flatMap_cons, List.length_append, List.length_cons,
        List.length_nil] at this
      omega
    | cons entry' w =>
      simp only [List.flatMap_cons, List.cons_append, List.nil_append, List.cons.injEq] at h
      obtain ⟨hname, hvalue, hrest⟩ := h
      obtain ⟨hv, hx⟩ := ih hrest
      exact ⟨by rw [Prod.ext (utf8_inj hname) (utf8_inj hvalue), hv], hx⟩

theorem eq_of_keyFields_eq {p q : CachePolicy} {i j : CacheKeyInput} (hp : p.Valid) (hq : q.Valid)
    (hi : i.operationRevision < 256 ^ 4) (hj : j.operationRevision < 256 ^ 4)
    (hpi : partitionMatches p.domain i.partition = true)
    (hqj : partitionMatches q.domain j.partition = true) (h : p.keyFields i = q.keyFields j)
    : (p.id = q.id ∧ p.semanticRevision = q.semanticRevision ∧ p.nameSpace = q.nameSpace ∧
        p.compatibilityEpoch = q.compatibilityEpoch ∧ p.domain = q.domain) ∧ i = j := by
  obtain ⟨hhead, hrest⟩ := List.append_inj h (by simp [keyHead])
  simp only [keyHead, List.cons.injEq, and_true] at hhead
  obtain ⟨hid, hrevision, hname, hepoch, hdomain, hoperation, hoperationRevision, hinput⟩ := hhead
  have hdomain := CacheDomain.asStr_inj (utf8_inj hdomain)
  refine ⟨⟨utf8_inj hid, beBytes_inj hp.semanticRevision hq.semanticRevision hrevision,
    utf8_inj hname, beBytes_inj hp.compatibilityEpoch hq.compatibilityEpoch hepoch, hdomain⟩, ?_⟩
  rw [← hdomain] at hqj
  have hpresent := (isSome_of_partitionMatches hpi).trans (isSome_of_partitionMatches hqj).symm
  obtain ⟨hvary, hdigest⟩ := varyFields_inj (by simp [Option.length_toList, hpresent]) hrest
  have hpartition : i.partition = j.partition := by
    cases hi : i.partition with
    | none =>
      rw [hi] at hpresent
      exact (Option.not_isSome_iff_eq_none.mp (by simp [← hpresent])).symm
    | some partition =>
      rw [hi] at hpresent
      obtain ⟨partition', hj⟩ := Option.isSome_iff_exists.mp hpresent.symm
      rw [hi, hj] at hdigest
      rw [hi] at hpi
      rw [hj] at hqj
      simp only [Option.map_some, Option.toList_some, List.cons.injEq, and_true] at hdigest
      rw [hj, CachePartition.ext (utf8_inj hdigest) (kind_of_partitionMatches hpi hqj)]
  obtain ⟨operationId, operationRevision, inputDigest, vary, partition⟩ := i
  obtain ⟨operationId', operationRevision', inputDigest', vary', partition'⟩ := j
  dsimp only at hi hj hoperation hoperationRevision hinput hvary hpartition
  rw [utf8_inj hoperation, beBytes_inj hi hj hoperationRevision, utf8_inj hinput, hvary, hpartition]

end CachePolicy

theorem CachePartition.length_of_admitted {value : String} (h : CachePartition.admitted value = true)
    : (utf8 value).length < 256 ^ 8 := by
  simp only [CachePartition.admitted, Bool.not_eq_true', Bool.or_eq_false_iff, decide_eq_false_iff_not] at h
  omega

namespace PartitionSource

def tag (source : PartitionSource) : String :=
  match source with
  | .identity _ => "pliego-cache-session-partition-v1"
  | .request _ => "pliego-cache-request-partition-v1"
  | .tenant _ _ => "pliego-cache-tenant-partition-v1"

def parts (source : PartitionSource) : List String :=
  match source with
  | .identity user => [user]
  | .request requestId => [requestId]
  | .tenant tenantId user => [tenantId, user]

theorem preimage_eq (source : PartitionSource)
    : source.preimage = utf8 source.tag ++ 0 :: (source.parts.map utf8).flatMap lenPrefixed := by
  cases source with
  | identity user =>
    simp [preimage, CachePartition.identityPreimage, tag, parts]
  | request requestId =>
    simp [preimage, CachePartition.requestPreimage, tag, parts]
  | tenant tenantId user =>
    simp [preimage, CachePartition.tenantPreimage, tag, parts]

theorem plain_tag (source : PartitionSource) : ∀ byte ∈ utf8 source.tag, ¬ byte = 0 := by
  cases source <;> dsimp only [tag] <;> decide +kernel

theorem eq_of_tag_parts {a b : PartitionSource} (htag : a.tag = b.tag) (hparts : a.parts = b.parts)
    : a = b := by
  cases a <;> cases b <;> simp_all [tag, parts]

theorem partition_cases {sha256 : Sha256} {source : PartitionSource} {partition : CachePartition}
    (h : source.partition sha256 = .ok partition)
    : partition.digest = encodeHex (sha256 source.preimage).bytes ∧
        ∀ part ∈ source.parts, CachePartition.admitted part = true := by
  cases source with
  | identity user =>
    simp only [PartitionSource.partition, CachePartition.fromIdentity] at h
    split at h
    . cases h
    . next hadmitted =>
      cases h
      exact ⟨rfl, by simpa [parts] using hadmitted⟩
  | request requestId =>
    simp only [PartitionSource.partition, CachePartition.fromRequest] at h
    split at h
    . cases h
    . next hadmitted =>
      cases h
      exact ⟨rfl, by simpa [parts] using hadmitted⟩
  | tenant tenantId user =>
    simp only [PartitionSource.partition, CachePartition.fromTenantAndIdentity] at h
    split at h
    . cases h
    . next hadmitted =>
      cases h
      exact ⟨rfl, by simpa [parts] using hadmitted⟩

theorem partition_inj {sha256 : Sha256} {a b : PartitionSource} {partition : CachePartition}
    (hsha : sha256 a.preimage = sha256 b.preimage → a.preimage = b.preimage)
    (ha : a.partition sha256 = .ok partition) (hb : b.partition sha256 = .ok partition)
    : a = b := by
  obtain ⟨hdigest, hparts⟩ := partition_cases ha
  obtain ⟨hdigest', hparts'⟩ := partition_cases hb
  have hpre := eq_of_hex_sha256_eq hsha (hdigest.symm.trans hdigest')
  rw [preimage_eq, preimage_eq] at hpre
  obtain ⟨htag, -, hrest⟩ := append_mark_inj a.plain_tag b.plain_tag rfl rfl hpre
  have hlen : ∀ {source : PartitionSource},
      (∀ part ∈ source.parts, CachePartition.admitted part = true) →
      ∀ field ∈ source.parts.map utf8, field.length < 256 ^ 8 := by
    intro source h field hfield
    obtain ⟨part, hpart, rfl⟩ := List.mem_map.mp hfield
    exact CachePartition.length_of_admitted (h part hpart)
  have hfields := flatMap_lenPrefixed_inj (hlen hparts) (hlen hparts') hrest
  apply eq_of_tag_parts (utf8_inj htag)
  exact List.map_injective_iff.mpr (fun _ _ h => utf8_inj h) hfields

end PartitionSource

theorem CacheKeyInput.Built.operationRevision {sha256 : Sha256} {input : CacheKeyInput}
    {source : Option PartitionSource} (h : Built sha256 input source)
    : input.operationRevision < 256 ^ 4 := by
  induction h with
  | new hrevision h =>
    unfold CacheKeyInput.new at h
    split at h
    . cases h
    . split at h
      . cases h
      . cases h
        exact hrevision
  | addVary _ h ih =>
    unfold CacheKeyInput.addVary at h
    split at h
    . cases h
    . split at h
      . cases h
      . cases h
        exact ih
  | inPartition _ _ ih => exact ih

theorem CacheKeyInput.Built.partition {sha256 : Sha256} {input : CacheKeyInput}
    {source : Option PartitionSource} (h : Built sha256 input source)
    : Option.Rel (fun source partition => source.partition sha256 = .ok partition) source
        input.partition := by
  induction h with
  | new _ h =>
    unfold CacheKeyInput.new at h
    split at h
    . cases h
    . split at h
      . cases h
      . cases h
        exact .none
  | addVary _ h ih =>
    unfold CacheKeyInput.addVary at h
    split at h
    . cases h
    . split at h
      . cases h
      . cases h
        exact ih
  | inPartition _ h => exact .some h

structure MadeKey (sha256 : Sha256) where
  policy : CachePolicy
  input : CacheKeyInput
  source : Option PartitionSource
  key : CacheKey
  policyBuilt : policy.Built
  inputBuilt : CacheKeyInput.Built sha256 input source
  made : policy.key sha256 input = .ok key
  deriving DecidableEq

namespace MadeKey

variable {sha256 : Sha256}

def preimage (key : MadeKey sha256) : List UInt8 :=
  key.policy.keyPreimage key.input

def hashed (keys : List (MadeKey sha256)) : Set (List UInt8) :=
  { x | ∃ key ∈ keys, x = key.preimage ∨ ∃ source ∈ key.source, x = source.preimage }

structure SameInputs (a b : MadeKey sha256) : Prop where
  id : a.policy.id = b.policy.id
  semanticRevision : a.policy.semanticRevision = b.policy.semanticRevision
  nameSpace : a.policy.nameSpace = b.policy.nameSpace
  compatibilityEpoch : a.policy.compatibilityEpoch = b.policy.compatibilityEpoch
  domain : a.policy.domain = b.policy.domain
  input : a.input = b.input
  source : a.source = b.source

theorem digest_eq (key : MadeKey sha256)
    : key.key.digest = encodeHex (sha256 key.preimage).bytes := by
  rw [(CachePolicy.key_cases key.made).2.2.2]
  rfl

theorem sameInputs_of_digest_eq {a b : MadeKey sha256} {keys : List (MadeKey sha256)}
    (hsha : Set.InjOn sha256 (hashed keys)) (ha : a ∈ keys) (hb : b ∈ keys) (h : a.key.digest = b.key.digest)
    : SameInputs a b := by
  obtain ⟨-, hpartition, hlen, -⟩ := CachePolicy.key_cases a.made
  obtain ⟨-, hpartition', hlen', -⟩ := CachePolicy.key_cases b.made
  rw [digest_eq, digest_eq] at h
  have hpre := eq_of_hex_sha256_eq (hsha ⟨a, ha, .inl rfl⟩ ⟨b, hb, .inl rfl⟩) h
  unfold preimage at hpre
  rw [CachePolicy.keyPreimage_eq, CachePolicy.keyPreimage_eq] at hpre
  have hfields := flatMap_lenPrefixed_inj
    (fun field hfield => lt_of_le_of_lt ((CachePolicy.length_of_mem_keyFields hfield).trans hlen)
      a.policyBuilt.valid.maxKeyBytes)
    (fun field hfield => lt_of_le_of_lt ((CachePolicy.length_of_mem_keyFields hfield).trans hlen')
      b.policyBuilt.valid.maxKeyBytes) hpre
  obtain ⟨⟨hid, hrevision, hname, hepoch, hdomain⟩, hinput⟩ := CachePolicy.eq_of_keyFields_eq
    a.policyBuilt.valid b.policyBuilt.valid a.inputBuilt.operationRevision
    b.inputBuilt.operationRevision hpartition hpartition' hfields
  refine ⟨hid, hrevision, hname, hepoch, hdomain, hinput, ?_⟩
  have hsource := a.inputBuilt.partition
  have hsource' := b.inputBuilt.partition
  rw [← hinput] at hsource'
  cases has : a.source with
  | none =>
    cases hbs : b.source with
    | none => rfl
    | some source =>
      rw [has] at hsource
      rw [hbs] at hsource'
      cases hp : a.input.partition <;> rw [hp] at hsource hsource' <;> nomatch hsource, hsource'
  | some source =>
    cases hbs : b.source with
    | none =>
      rw [has] at hsource
      rw [hbs] at hsource'
      cases hp : a.input.partition <;> rw [hp] at hsource hsource' <;> nomatch hsource, hsource'
    | some source' =>
      rw [has] at hsource
      rw [hbs] at hsource'
      cases hp : a.input.partition with
      | none =>
        rw [hp] at hsource
        nomatch hsource
      | some partition =>
        rw [hp] at hsource hsource'
        cases hsource with
        | some hsource =>
          cases hsource' with
          | some hsource' =>
            have hinj := hsha ⟨a, ha, .inr ⟨source, has, rfl⟩⟩ ⟨b, hb, .inr ⟨source', hbs, rfl⟩⟩
            rw [PartitionSource.partition_inj hinj hsource hsource']

end MadeKey

structure CacheStoreRecord where
  policyId : String
  policyRevision : Nat
  nameSpace : String
  compatibilityEpoch : Nat
  domain : CacheDomain
  value : List UInt8
  tags : List String
  createdAtMs : Nat
  freshUntilMs : Nat
  staleUntilMs : Nat
  deriving DecidableEq, Repr

structure CacheEntry (Ω : Type) where
  record : CacheStoreRecord
  origin : Ω

structure InMemoryCacheStore (Ω : Type) where
  entries : List (String × CacheEntry Ω)
  maxEntries : Nat

namespace InMemoryCacheStore

variable {Ω : Type}

def new (maxEntries : Nat) : Except CacheError (InMemoryCacheStore Ω) :=
  if maxEntries = 0 || maxEntries > 1000000 then
    .error (.invalidPolicy "memory cache entry bound is invalid")
  else
    .ok { entries := [], maxEntries := maxEntries }

def get (store : InMemoryCacheStore Ω) (key : CacheKey) : Option (CacheEntry Ω) :=
  store.entries.lookup key.digest

def put (store : InMemoryCacheStore Ω) (key : CacheKey) (entry : CacheEntry Ω)
    : Except CacheError (InMemoryCacheStore Ω) :=
  if (store.entries.lookup key.digest).isNone && store.entries.length ≥ store.maxEntries then
    .error .storeCapacity
  else
    .ok { store with
      entries := (key.digest, entry) :: store.entries.filter (fun kept => kept.1 != key.digest) }

def remove (store : InMemoryCacheStore Ω) (key : CacheKey) : InMemoryCacheStore Ω :=
  { store with entries := store.entries.filter (fun kept => kept.1 != key.digest) }

def hit (nameSpace : String) (compatibilityEpoch : Nat) (tags : List String)
    (exactKey : Option String) (digest : String) (record : CacheStoreRecord) : Bool :=
  let exactMatch := exactKey == some digest
  let tagMatch := !tags.isEmpty && record.nameSpace == nameSpace
    && record.compatibilityEpoch == compatibilityEpoch && record.tags.any (tags.contains ·)
  exactMatch || tagMatch

def invalidate (store : InMemoryCacheStore Ω) (nameSpace : String) (compatibilityEpoch : Nat)
    (tags : List String) (exactKey : Option String) : InMemoryCacheStore Ω × Nat :=
  let entries := store.entries.filter (fun kept =>
    !hit nameSpace compatibilityEpoch tags exactKey kept.1 kept.2.record)
  ({ store with entries := entries }, store.entries.length - entries.length)

theorem mem_of_get {store : InMemoryCacheStore Ω} {key : CacheKey} {entry : CacheEntry Ω}
    (h : store.get key = some entry)
    : (key.digest, entry) ∈ store.entries := by
  obtain ⟨before, after, hsplit, -⟩ := List.lookup_eq_some_iff.mp h
  rw [hsplit]
  simp

theorem put_cases {store store' : InMemoryCacheStore Ω} {key : CacheKey} {entry : CacheEntry Ω}
    (h : store.put key entry = .ok store')
    : ∀ kept ∈ store'.entries, kept = (key.digest, entry) ∨ kept ∈ store.entries := by
  unfold put at h
  split at h
  . cases h
  . cases h
    intro kept hkept
    rw [List.mem_cons, List.mem_filter] at hkept
    exact hkept.imp_right And.left

theorem mem_remove {store : InMemoryCacheStore Ω} {key : CacheKey}
    {kept : String × CacheEntry Ω} (h : kept ∈ (store.remove key).entries)
    : kept ∈ store.entries :=
  (List.mem_filter.mp h).1

theorem mem_invalidate {store : InMemoryCacheStore Ω} {nameSpace : String} {epoch : Nat}
    {tags : List String} {exactKey : Option String} {kept : String × CacheEntry Ω}
    : kept ∈ (store.invalidate nameSpace epoch tags exactKey).1.entries
        ↔
      kept ∈ store.entries ∧ hit nameSpace epoch tags exactKey kept.1 kept.2.record = false := by
  simp [invalidate]

end InMemoryCacheStore

end Data

end Pliego
