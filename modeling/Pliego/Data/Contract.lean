import Pliego.Data.Builders

/-!
The contract digests of the three kinds of policies and the grants that are checked against them.
-/

namespace Pliego

open Bytes

namespace Data

theorem eq_of_hex_sha256_eq {sha256 : Sha256} {x y : List UInt8} (hsha : sha256 x = sha256 y → x = y)
    (h : encodeHex (sha256 x).bytes = encodeHex (sha256 y).bytes)
    : x = y :=
  hsha (Hash.ext (encodeHex_inj h))

theorem ActionMediaType.asStr_inj {a b : ActionMediaType} (h : a.asStr = b.asStr) : a = b := by
  revert h
  cases a <;> cases b <;> decide

theorem ActionContentEncoding.asStr_inj {a b : ActionContentEncoding} (h : a.asStr = b.asStr)
    : a = b := by
  revert h
  cases a <;> cases b <;> decide

theorem ActionMediaType.asStr_ne (mediaType : ActionMediaType) (encoding : ActionContentEncoding)
    : mediaType.asStr ≠ encoding.asStr := by
  cases mediaType <;> cases encoding <;> decide

theorem OriginPolicy.toByte_inj {a b : OriginPolicy} (h : a.toByte = b.toByte) : a = b := by
  revert h
  cases a <;> cases b <;> decide

theorem CsrfPolicy.toByte_inj {a b : CsrfPolicy} (h : a.toByte = b.toByte) : a = b := by
  revert h
  cases a <;> cases b <;> decide

theorem InvalidationConsistency.toByte_inj {a b : InvalidationConsistency} (h : a.toByte = b.toByte)
    : a = b := by
  revert h
  cases a <;> cases b <;> decide

theorem flagByte_inj {a b : Bool} (h : flagByte a = flagByte b) : a = b := by
  revert h
  revert a b
  decide

def IsMark (byte : UInt8) : Prop := byte = 0 ∨ byte = 1

theorem OriginPolicy.isMark_toByte (policy : OriginPolicy) : IsMark policy.toByte := by
  cases policy with
  | sameOrigin => exact .inl rfl
  | explicitlyNonBrowser => exact .inr rfl

theorem CsrfPolicy.isMark_toByte (policy : CsrfPolicy) : IsMark policy.toByte := by
  cases policy with
  | sameOrigin => exact .inl rfl
  | sessionBoundToken => exact .inr rfl

theorem isMark_flagByte (flag : Bool) : IsMark (flagByte flag) := by
  cases flag with
  | false => exact .inl rfl
  | true => exact .inr rfl

def Plain (s : String) : Prop := ∀ byte ∈ utf8 s, ¬ IsMark byte

theorem plain_empty : Plain "" := by
  intro byte h
  cases h

theorem Plain.append {s t : String} (hs : Plain s) (ht : Plain t) : Plain (s ++ t) := by
  intro byte h
  rw [utf8_append, List.mem_append] at h
  exact h.elim (hs byte) (ht byte)

theorem plain_of_validateStableId {s : String} (h : validateStableId s = true) : Plain s := by
  intro byte hbyte hmark
  have hnot : (isAsciiLowercase byte || isAsciiDigit byte || byte == 45) = false := by
    cases hmark with
    | inl h =>
      subst h
      decide
    | inr h =>
      subst h
      decide
  unfold validateStableId at h
  dsimp only at h
  split at h
  . cases h
  . next first rest heq =>
    simp only [Bool.and_eq_true, List.all_eq_true] at h
    rw [heq, List.mem_cons] at hbyte
    cases hbyte with
    | inl hbyte =>
      subst hbyte
      have := h.1.1.1.2
      simp [this] at hnot
    | inr hbyte =>
      have := h.1.1.2 byte hbyte
      rw [hnot] at this
      cases this

theorem length_of_validateStableId {s : String} (h : validateStableId s = true)
    : (utf8 s).length < 256 ^ 8 ∧ s ≠ "" := by
  unfold validateStableId at h
  dsimp only at h
  split at h
  . cases h
  . next first rest heq =>
    simp only [Bool.and_eq_true] at h
    have hle := of_decide_eq_true h.1.1.1.1
    unfold maxStableIdBytes at hle
    refine ⟨by omega, ?_⟩
    rintro rfl
    cases heq

def sortedResources (resources : List ResourceRequirement) : List ResourceRequirement :=
  resources.mergeSort (fun left right => left.id ≤ right.id)

def resourceWords (resources : List ResourceRequirement) : List (String × UInt8) :=
  resources.flatMap (fun resource =>
    (resource.id, 0) :: resource.capabilities.map (fun capability => (capability, 0)))

def spell (words : List (String × UInt8)) : List UInt8 :=
  marked (words.map (fun word => (utf8 word.1, word.2)))

theorem spell_append (ws vs : List (String × UInt8)) : spell (ws ++ vs) = spell ws ++ spell vs := by
  simp [spell, marked]

theorem spell_inj {ws vs : List (String × UInt8)} {s t : String}
    (hw : ∀ w ∈ ws, Plain w.1 ∧ IsMark w.2) (hv : ∀ v ∈ vs, Plain v.1 ∧ IsMark v.2)
    (hs : Plain s) (ht : Plain t) (h : spell ws ++ utf8 s = spell vs ++ utf8 t)
    : ws = vs ∧ s = t := by
  have hmap : ∀ {ws : List (String × UInt8)}, (∀ w ∈ ws, Plain w.1 ∧ IsMark w.2) →
      ∀ w ∈ ws.map (fun word => (utf8 word.1, word.2)), (∀ b ∈ w.1, ¬ IsMark b) ∧ IsMark w.2 := by
    intro ws hw w hmem
    obtain ⟨word, hword, rfl⟩ := List.mem_map.mp hmem
    exact hw word hword
  obtain ⟨hwords, hrest⟩ := marked_append_inj (hmap hw) (hmap hv) hs ht h
  refine ⟨?_, utf8_inj hrest⟩
  apply List.map_injective_iff.mpr _ hwords
  intro a b hab
  simp only [Prod.mk.injEq] at hab
  exact Prod.ext (utf8_inj hab.1) hab.2

theorem spell_resourceWords (resources : List ResourceRequirement)
    : spell (resourceWords resources)
        =
      resources.flatMap (fun resource => utf8 resource.id ++ [0]
        ++ resource.capabilities.flatMap (fun capability => utf8 capability ++ [0])) := by
  induction resources with
  | nil => rfl
  | cons resource resources ih =>
    have hsplit : resourceWords (resource :: resources)
        = ((resource.id, 0) :: resource.capabilities.map (fun capability => (capability, 0)))
          ++ resourceWords resources := rfl
    rw [hsplit, spell_append, ih, List.flatMap_cons]
    congr 1
    simp [spell, marked, List.flatMap_map]

def resourceLayout (resources : List ResourceRequirement) : List Nat :=
  resources.map (fun resource => resource.capabilities.length)

theorem length_resourceWords (resources : List ResourceRequirement)
    : (resourceWords resources).length = ((resourceLayout resources).map (· + 1)).sum := by
  simp [resourceWords, resourceLayout, List.length_flatMap, Function.comp_def]

theorem eq_of_resourceWords_eq {rs qs : List ResourceRequirement}
    (hlayout : resourceLayout rs = resourceLayout qs) (h : resourceWords rs = resourceWords qs)
    : rs = qs := by
  induction rs generalizing qs with
  | nil =>
    cases qs with
    | nil => rfl
    | cons q qs => simp [resourceLayout] at hlayout
  | cons r rs ih =>
    cases qs with
    | nil => simp [resourceLayout] at hlayout
    | cons q qs =>
      simp only [resourceLayout, List.map_cons, List.cons.injEq] at hlayout
      simp only [resourceWords, List.flatMap_cons, List.cons_append, List.cons.injEq,
        Prod.mk.injEq, and_true] at h
      obtain ⟨hid, hwords⟩ := h
      obtain ⟨hcaps, hrest⟩ := List.append_inj hwords (by simp [hlayout.1])
      have hinj : Function.Injective (fun capability : String => (capability, (0 : UInt8))) :=
        fun _ _ h => (Prod.mk.inj h).1
      have hcaps := List.map_injective_iff.mpr hinj hcaps
      have hhead : r = q := by
        obtain ⟨id, caps⟩ := r
        obtain ⟨id', caps'⟩ := q
        simp_all
      rw [hhead, ih hlayout.2 hrest]

structure ResourceRequirement.Valid (requirement : ResourceRequirement) : Prop where
  id : validateStableId requirement.id = true
  capabilities : ∀ capability ∈ requirement.capabilities, validateStableId capability = true

theorem mem_setInsert {x y : String} {set : List String}
    : y ∈ setInsert x set ↔ y = x ∨ y ∈ set := by
  unfold setInsert
  split
  . next h =>
    constructor
    . exact .inr
    . rintro (rfl | h')
      . exact h
      . exact h'
  . exact List.mem_orderedInsert _

theorem validateStableId_foldl_setInsert {tags set : List String}
    (htags : ∀ tag ∈ tags, validateStableId tag = true) (hset : ∀ tag ∈ set, validateStableId tag = true)
    : ∀ tag ∈ tags.foldl (fun set tag => setInsert tag set) set, validateStableId tag = true := by
  induction tags generalizing set with
  | nil => exact hset
  | cons first tags ih =>
    apply ih
    . exact fun tag htag => htags tag (by simp [htag])
    . intro tag htag
      rw [mem_setInsert] at htag
      cases htag with
      | inl h =>
        rw [h]
        exact htags first (by simp)
      | inr h => exact hset tag h

theorem ResourceRequirement.Built.valid {requirement : ResourceRequirement} (h : requirement.Built)
    : requirement.Valid := by
  induction h with
  | new h =>
    unfold ResourceRequirement.new at h
    split at h
    . cases h
    . next hid =>
      cases h
      exact ⟨by simpa using hid, by simp⟩
  | requiring _ h ih =>
    unfold ResourceRequirement.requiring at h
    split at h
    . cases h
    . next hcap =>
      cases h
      refine ⟨ih.id, ?_⟩
      intro capability hmem
      rw [mem_setInsert] at hmem
      cases hmem with
      | inl h =>
        rw [h]
        simpa using hcap
      | inr h => exact ih.capabilities capability h

structure ValidResources (resources : List ResourceRequirement) : Prop where
  valid : ∀ resource ∈ resources, resource.Valid
  nodup : (resources.map (·.id)).Nodup

theorem ValidResources.concat {resources : List ResourceRequirement}
    {requirement : ResourceRequirement} (h : ValidResources resources) (hvalid : requirement.Valid)
    (hnew : resources.any (fun current => current.id == requirement.id) = false)
    : ValidResources (resources ++ [requirement]) where
  valid := by
    intro resource hmem
    rw [List.mem_append, List.mem_singleton] at hmem
    cases hmem with
    | inl hmem => exact h.valid resource hmem
    | inr hmem =>
      rw [hmem]
      exact hvalid
  nodup := by
    rw [List.map_append, List.nodup_append]
    refine ⟨h.nodup, by simp, ?_⟩
    intro id hid id' hid' heq
    simp only [List.map_cons, List.map_nil, List.mem_singleton] at hid'
    obtain ⟨resource, hmem, rfl⟩ := List.mem_map.mp hid
    rw [List.any_eq_false] at hnew
    apply hnew resource hmem
    simp [heq, hid']

theorem sortedResources_eq_of_perm {rs qs : List ResourceRequirement} (hrs : ValidResources rs) (h : rs.Perm qs)
    : sortedResources rs = sortedResources qs := by
  have hsorted : ∀ l : List ResourceRequirement,
      (sortedResources l).Pairwise (fun a b => a.id ≤ b.id) := by
    intro l
    have htrans : ∀ a b c : ResourceRequirement, decide (a.id ≤ b.id) = true →
        decide (b.id ≤ c.id) = true → decide (a.id ≤ c.id) = true := by
      intro a b c hab hbc
      simp only [decide_eq_true_eq] at hab hbc ⊢
      exact le_trans hab hbc
    have htotal : ∀ a b : ResourceRequirement,
        (decide (a.id ≤ b.id) || decide (b.id ≤ a.id)) = true := by
      intro a b
      simp only [Bool.or_eq_true, decide_eq_true_eq]
      exact le_total a.id b.id
    simpa [sortedResources] using List.pairwise_mergeSort htrans htotal l
  apply List.Perm.eq_of_pairwise _ (hsorted rs) (hsorted qs)
  . exact ((List.mergeSort_perm rs _).trans h).trans (List.mergeSort_perm qs _).symm
  . intro a b ha hb hab hba
    have ha := List.mem_mergeSort.mp ha
    have hb := h.symm.mem_iff.mp (List.mem_mergeSort.mp hb)
    exact List.inj_on_of_nodup_map hrs.nodup ha hb (le_antisymm hab hba)

theorem perm_of_sortedResources_eq {rs qs : List ResourceRequirement}
    (h : sortedResources rs = sortedResources qs)
    : rs.Perm qs :=
  (List.mergeSort_perm rs _).symm.trans ((List.Perm.of_eq h).trans (List.mergeSort_perm qs _))

theorem ValidResources.words {resources : List ResourceRequirement} (h : ValidResources resources)
    : ∀ word ∈ resourceWords (sortedResources resources), Plain word.1 ∧ IsMark word.2 := by
  intro word hword
  obtain ⟨resource, hmem, hword⟩ := List.mem_flatMap.mp hword
  have hvalid := h.valid resource (List.mem_mergeSort.mp hmem)
  rw [List.mem_cons] at hword
  cases hword with
  | inl hword =>
    rw [hword]
    exact ⟨plain_of_validateStableId hvalid.id, .inl rfl⟩
  | inr hword =>
    obtain ⟨capability, hcap, rfl⟩ := List.mem_map.mp hword
    exact ⟨plain_of_validateStableId (hvalid.capabilities capability hcap), .inl rfl⟩

namespace LoaderPolicy

def contractHead (policy : LoaderPolicy) : List (List UInt8) :=
  [ utf8 policy.id,
    beBytes 4 policy.semanticRevision,
    utf8 policy.inputSchemaId,
    utf8 policy.outputSchemaId,
    utf8 (policy.cachePolicyId.getD ""),
    beBytes 8 policy.maxOutputBytes,
    [flagByte policy.deduplicateInRequest] ]

def contractPreimage (policy : LoaderPolicy) : List UInt8 :=
  utf8 "pliego-loader-policy-v1" ++ [0]
    ++ policy.contractHead.flatMap lenPrefixed
    ++ (policy.resources.mergeSort (fun left right => left.id ≤ right.id)).flatMap
        (fun resource => utf8 resource.id ++ [0]
          ++ resource.capabilities.flatMap (fun capability => utf8 capability ++ [0]))

def contractDigest (sha256 : Sha256) (policy : LoaderPolicy) : String :=
  encodeHex (sha256 policy.contractPreimage).bytes

def SameContract (p q : LoaderPolicy) : Prop :=
  { p with resources := [] } = { q with resources := [] } ∧ p.resources.Perm q.resources

def SameWords (p q : LoaderPolicy) : Prop :=
  { p with resources := [] } = { q with resources := [] } ∧
    resourceWords (sortedResources p.resources) = resourceWords (sortedResources q.resources)

def layout (policy : LoaderPolicy) : List Nat :=
  resourceLayout (sortedResources policy.resources)

structure Valid (policy : LoaderPolicy) : Prop where
  id : validateStableId policy.id = true
  inputSchemaId : validateStableId policy.inputSchemaId = true
  outputSchemaId : validateStableId policy.outputSchemaId = true
  cachePolicyId : ∀ id, policy.cachePolicyId = some id → validateStableId id = true
  semanticRevision : policy.semanticRevision < 256 ^ 4
  maxOutputBytes : policy.maxOutputBytes < 256 ^ 8
  resources : ValidResources policy.resources

theorem Built.valid {policy : LoaderPolicy} (h : policy.Built) : policy.Valid := by
  induction h with
  | new hrevision h =>
    unfold LoaderPolicy.new at h
    split at h
    . cases h
    . next hids =>
      simp only [List.find?_eq_none, Bool.not_eq_true', Bool.not_eq_false] at hids
      split at h
      . cases h
      . cases h
        exact ⟨hids _ (by simp), hids _ (by simp), hids _ (by simp), by simp, hrevision, by simp,
          by simp, by simp⟩
  | resource _ hrequirement h ih =>
    unfold LoaderPolicy.resource at h
    split at h
    . cases h
    . next hnew =>
      split at h
      . cases h
      . cases h
        rw [Bool.not_eq_true] at hnew
        exact ⟨ih.id, ih.inputSchemaId, ih.outputSchemaId, ih.cachePolicyId, ih.semanticRevision,
          ih.maxOutputBytes, ih.resources.concat hrequirement.valid hnew⟩
  | cachePolicy _ h ih =>
    unfold LoaderPolicy.cachePolicy at h
    split at h
    . cases h
    . next hid =>
      cases h
      refine ⟨ih.id, ih.inputSchemaId, ih.outputSchemaId, ?_, ih.semanticRevision,
        ih.maxOutputBytes, ih.resources⟩
      rintro _ ⟨⟩
      simpa using hid
  | withMaxOutputBytes _ h ih =>
    unfold LoaderPolicy.withMaxOutputBytes at h
    split at h
    . cases h
    . next hbound =>
      cases h
      simp only [Bool.or_eq_true, decide_eq_true_eq, not_or] at hbound
      exact ⟨ih.id, ih.inputSchemaId, ih.outputSchemaId, ih.cachePolicyId, ih.semanticRevision,
        by dsimp only; omega, ih.resources⟩
  | deduplicateInRequest _ _ ih =>
    exact ⟨ih.id, ih.inputSchemaId, ih.outputSchemaId, ih.cachePolicyId, ih.semanticRevision,
      ih.maxOutputBytes, ih.resources⟩

theorem Valid.head_length {policy : LoaderPolicy} (h : policy.Valid)
    : ∀ field ∈ policy.contractHead, field.length < 256 ^ 8 := by
  have hcache : (utf8 (policy.cachePolicyId.getD "")).length < 256 ^ 8 := by
    cases hid : policy.cachePolicyId with
    | none => decide
    | some id => exact (length_of_validateStableId (h.cachePolicyId id hid)).1
  intro field hfield
  simp only [contractHead, List.mem_cons, List.not_mem_nil, or_false] at hfield
  rcases hfield with rfl | rfl | rfl | rfl | rfl | rfl | rfl
  . exact (length_of_validateStableId h.id).1
  . simp
  . exact (length_of_validateStableId h.inputSchemaId).1
  . exact (length_of_validateStableId h.outputSchemaId).1
  . exact hcache
  . simp
  . simp

theorem Valid.eq_of_head {p q : LoaderPolicy} (hp : p.Valid) (hq : q.Valid) (h : p.contractHead = q.contractHead)
    : { p with resources := [] } = { q with resources := [] } := by
  simp only [contractHead, List.cons.injEq, and_true] at h
  obtain ⟨hid, hrevision, hinput, houtput, hcache, hmax, hflag⟩ := h
  have hcache : p.cachePolicyId = q.cachePolicyId := by
    have := utf8_inj hcache
    cases hpid : p.cachePolicyId with
    | none =>
      cases hqid : q.cachePolicyId with
      | none => rfl
      | some id =>
        simp only [hpid, hqid, Option.getD_none, Option.getD_some] at this
        exact absurd this.symm (length_of_validateStableId (hq.cachePolicyId id hqid)).2
    | some id =>
      cases hqid : q.cachePolicyId with
      | none =>
        simp only [hpid, hqid, Option.getD_none, Option.getD_some] at this
        exact absurd this (length_of_validateStableId (hp.cachePolicyId id hpid)).2
      | some id' =>
        simp only [hpid, hqid, Option.getD_some] at this
        rw [this]
  rw [utf8_inj hid, beBytes_inj hp.semanticRevision hq.semanticRevision hrevision, utf8_inj hinput,
    utf8_inj houtput, hcache, beBytes_inj hp.maxOutputBytes hq.maxOutputBytes hmax,
    flagByte_inj hflag]

theorem Valid.contractPreimage_eq_iff {p q : LoaderPolicy} (hp : p.Valid) (hq : q.Valid)
    : p.contractPreimage = q.contractPreimage ↔ p.SameWords q := by
  have hspell : ∀ policy : LoaderPolicy, policy.contractPreimage
      = (utf8 "pliego-loader-policy-v1" ++ [0]) ++ (policy.contractHead.flatMap lenPrefixed
        ++ spell (resourceWords (sortedResources policy.resources))) := by
    intro policy
    rw [spell_resourceWords]
    simp only [contractPreimage, sortedResources, List.append_assoc]
  rw [hspell, hspell, List.append_cancel_left_eq]
  constructor
  . intro h
    have hlen : p.contractHead.length = q.contractHead.length := by simp [contractHead]
    obtain ⟨hhead, hwords⟩ := flatMap_lenPrefixed_append_inj hlen hp.head_length hq.head_length h
    refine ⟨hp.eq_of_head hq hhead, ?_⟩
    have hwords : spell (resourceWords (sortedResources p.resources)) ++ utf8 ""
        = spell (resourceWords (sortedResources q.resources)) ++ utf8 "" := by rw [hwords]
    exact (spell_inj hp.resources.words hq.resources.words plain_empty plain_empty hwords).1
  . rintro ⟨hsame, hwords⟩
    have hhead := congrArg contractHead hsame
    have hhead : p.contractHead = q.contractHead := hhead
    rw [hhead, hwords]

theorem Valid.sameContract_iff {p q : LoaderPolicy} (hp : p.Valid)
    : p.SameContract q ↔ p.SameWords q ∧ p.layout = q.layout := by
  constructor
  . rintro ⟨hsame, hperm⟩
    have hsorted := sortedResources_eq_of_perm hp.resources hperm
    exact ⟨⟨hsame, by rw [hsorted]⟩, by rw [layout, layout, hsorted]⟩
  . rintro ⟨⟨hsame, hwords⟩, hlayout⟩
    exact ⟨hsame, perm_of_sortedResources_eq (eq_of_resourceWords_eq hlayout hwords)⟩

end LoaderPolicy

theorem CacheDomain.asStr_inj {a b : CacheDomain} (h : a.asStr = b.asStr) : a = b := by
  revert h
  cases a <;> cases b <;> decide

namespace CachePolicy

def contractHead (policy : CachePolicy) : List (List UInt8) :=
  [ utf8 policy.id,
    beBytes 4 policy.semanticRevision,
    utf8 policy.nameSpace,
    beBytes 4 policy.compatibilityEpoch,
    utf8 policy.domain.asStr,
    beBytes 16 (asMillis policy.freshFor),
    beBytes 16 (asMillis policy.staleFor),
    beBytes 8 policy.maxKeyBytes,
    beBytes 8 policy.maxValueBytes,
    beBytes 8 policy.maxTags,
    [flagByte policy.coalesceFills],
    beBytes 16 (asMillis policy.fillTimeout) ]

def contractPreimage (policy : CachePolicy) : List UInt8 :=
  utf8 "pliego-cache-policy-v1" ++ [0]
    ++ policy.contractHead.flatMap lenPrefixed
    ++ policy.requiredVary.flatMap (fun name => utf8 name ++ [0])

def contractDigest (sha256 : Sha256) (policy : CachePolicy) : String :=
  encodeHex (sha256 policy.contractPreimage).bytes

def wholeMillis (policy : CachePolicy) : CachePolicy :=
  { policy with
    freshFor := asMillis policy.freshFor
    staleFor := asMillis policy.staleFor
    fillTimeout := asMillis policy.fillTimeout }

def SameDurations (p q : CachePolicy) : Prop :=
  p.freshFor = q.freshFor ∧ p.staleFor = q.staleFor ∧ p.fillTimeout = q.fillTimeout

structure Valid (policy : CachePolicy) : Prop where
  id : validateStableId policy.id = true
  nameSpace : validateStableId policy.nameSpace = true
  semanticRevision : policy.semanticRevision < 256 ^ 4
  compatibilityEpoch : policy.compatibilityEpoch < 256 ^ 4
  requiredVary : ∀ name ∈ policy.requiredVary, validateStableId name = true
  freshFor : policy.freshFor < 256 ^ 16
  staleFor : policy.staleFor < 256 ^ 16
  fillTimeout : policy.fillTimeout < 256 ^ 16
  maxKeyBytes : policy.maxKeyBytes < 256 ^ 8
  maxValueBytes : policy.maxValueBytes < 256 ^ 8
  maxTags : policy.maxTags < 256 ^ 8

theorem Built.valid {policy : CachePolicy} (h : policy.Built) : policy.Valid := by
  induction h with
  | new hrevision hepoch h =>
    unfold CachePolicy.new at h
    split at h
    . cases h
    . next hids =>
      simp only [List.find?_eq_none, Bool.not_eq_true', Bool.not_eq_false] at hids
      split at h
      . cases h
      . cases h
        exact ⟨hids _ (by simp), hids _ (by simp), hrevision, hepoch, by simp, by simp [secs],
          by simp, by simp [secs], by simp, by simp, by simp⟩
  | vary _ h ih =>
    unfold CachePolicy.vary at h
    split at h
    . cases h
    . next hname =>
      split at h
      . cases h
      . cases h
        refine ⟨ih.id, ih.nameSpace, ih.semanticRevision, ih.compatibilityEpoch, ?_, ih.freshFor,
          ih.staleFor, ih.fillTimeout, ih.maxKeyBytes, ih.maxValueBytes, ih.maxTags⟩
        intro name hmem
        rw [mem_setInsert] at hmem
        cases hmem with
        | inl h =>
          rw [h]
          simpa using hname
        | inr h => exact ih.requiredVary name h
  | freshness _ h ih =>
    unfold CachePolicy.freshness at h
    split at h
    . cases h
    . next hbound =>
      cases h
      simp only [Bool.or_eq_true, decide_eq_true_eq, not_or] at hbound
      unfold secs at hbound
      exact ⟨ih.id, ih.nameSpace, ih.semanticRevision, ih.compatibilityEpoch, ih.requiredVary,
        by dsimp only; omega, by dsimp only; omega, ih.fillTimeout, ih.maxKeyBytes,
        ih.maxValueBytes, ih.maxTags⟩
  | bounds _ h ih =>
    unfold CachePolicy.bounds at h
    split at h
    . cases h
    . next hbound =>
      cases h
      simp only [Bool.or_eq_true, decide_eq_true_eq, not_or] at hbound
      exact ⟨ih.id, ih.nameSpace, ih.semanticRevision, ih.compatibilityEpoch, ih.requiredVary,
        ih.freshFor, ih.staleFor, ih.fillTimeout, by dsimp only; omega, by dsimp only; omega,
        by dsimp only; omega⟩
  | stampede _ h ih =>
    unfold CachePolicy.stampede at h
    split at h
    . cases h
    . next hbound =>
      cases h
      simp only [Bool.or_eq_true, decide_eq_true_eq, not_or] at hbound
      unfold secs at hbound
      exact ⟨ih.id, ih.nameSpace, ih.semanticRevision, ih.compatibilityEpoch, ih.requiredVary,
        ih.freshFor, ih.staleFor, by dsimp only; omega, ih.maxKeyBytes, ih.maxValueBytes,
        ih.maxTags⟩

theorem Valid.head_length {policy : CachePolicy} (h : policy.Valid)
    : ∀ field ∈ policy.contractHead, field.length < 256 ^ 8 := by
  intro field hfield
  simp only [contractHead, List.mem_cons, List.not_mem_nil, or_false] at hfield
  rcases hfield with rfl | rfl | rfl | rfl | rfl | rfl | rfl | rfl | rfl | rfl | rfl | rfl
  . exact (length_of_validateStableId h.id).1
  . simp
  . exact (length_of_validateStableId h.nameSpace).1
  . simp
  . cases policy.domain <;> decide
  all_goals simp

theorem asMillis_lt {nanos bound : Nat} (h : nanos < bound) : asMillis nanos < bound := by
  unfold asMillis
  omega

theorem Valid.contractPreimage_eq_iff {p q : CachePolicy} (hp : p.Valid) (hq : q.Valid)
    : p.contractPreimage = q.contractPreimage ↔ p.wholeMillis = q.wholeMillis := by
  have hspell : ∀ policy : CachePolicy, policy.contractPreimage
      = (utf8 "pliego-cache-policy-v1" ++ [0]) ++ (policy.contractHead.flatMap lenPrefixed
        ++ (spell (policy.requiredVary.map (fun name => (name, 0))) ++ utf8 "")) := by
    intro policy
    have hempty : utf8 "" = [] := rfl
    simp [contractPreimage, spell, marked, List.flatMap_map, hempty]
  have hplain : ∀ {policy : CachePolicy}, policy.Valid →
      ∀ word ∈ policy.requiredVary.map (fun name => (name, (0 : UInt8))),
        Plain word.1 ∧ IsMark word.2 := by
    intro policy h word hword
    obtain ⟨name, hname, rfl⟩ := List.mem_map.mp hword
    exact ⟨plain_of_validateStableId (h.requiredVary name hname), .inl rfl⟩
  rw [hspell, hspell, List.append_cancel_left_eq]
  constructor
  . intro h
    have hlen : p.contractHead.length = q.contractHead.length := by simp [contractHead]
    obtain ⟨hhead, hwords⟩ := flatMap_lenPrefixed_append_inj hlen hp.head_length hq.head_length h
    have hvary := (spell_inj (hplain hp) (hplain hq) plain_empty plain_empty hwords).1
    have hinj : Function.Injective (fun name : String => (name, (0 : UInt8))) :=
      fun _ _ h => (Prod.mk.inj h).1
    have hvary := List.map_injective_iff.mpr hinj hvary
    simp only [contractHead, List.cons.injEq, and_true] at hhead
    obtain ⟨hid, hrevision, hname, hepoch, hdomain, hfresh, hstale, hkey, hvalue, htags, hflag,
      hfill⟩ := hhead
    unfold wholeMillis
    rw [utf8_inj hid, beBytes_inj hp.semanticRevision hq.semanticRevision hrevision,
      utf8_inj hname, beBytes_inj hp.compatibilityEpoch hq.compatibilityEpoch hepoch,
      CacheDomain.asStr_inj (utf8_inj hdomain),
      beBytes_inj (asMillis_lt hp.freshFor) (asMillis_lt hq.freshFor) hfresh,
      beBytes_inj (asMillis_lt hp.staleFor) (asMillis_lt hq.staleFor) hstale,
      beBytes_inj hp.maxKeyBytes hq.maxKeyBytes hkey,
      beBytes_inj hp.maxValueBytes hq.maxValueBytes hvalue, beBytes_inj hp.maxTags hq.maxTags htags,
      flagByte_inj hflag,
      beBytes_inj (asMillis_lt hp.fillTimeout) (asMillis_lt hq.fillTimeout) hfill, hvary]
  . intro h
    simp only [wholeMillis, CachePolicy.mk.injEq] at h
    obtain ⟨hid, hrevision, hname, hepoch, hdomain, hvary, hfresh, hstale, hkey, hvalue, htags,
      hflag, hfill⟩ := h
    unfold contractHead
    rw [hid, hrevision, hname, hepoch, hdomain, hvary, hfresh, hstale, hkey, hvalue, htags, hflag, hfill]

theorem eq_iff_wholeMillis {p q : CachePolicy}
    : p = q ↔ p.wholeMillis = q.wholeMillis ∧ p.SameDurations q := by
  constructor
  . rintro rfl
    exact ⟨rfl, rfl, rfl, rfl⟩
  . rintro ⟨h, hfresh, hstale, hfill⟩
    obtain ⟨⟩ := p
    obtain ⟨⟩ := q
    simp_all [wholeMillis]

end CachePolicy

structure ActionInvalidationIntent.Valid (intent : ActionInvalidationIntent) : Prop where
  cachePolicyId : validateStableId intent.cachePolicyId = true
  tags : ∀ tag ∈ intent.tags, validateStableId tag = true

theorem ActionInvalidationIntent.Built.valid {intent : ActionInvalidationIntent} (h : intent.Built)
    : intent.Valid := by
  induction h with
  | ofTags htags h =>
    unfold ActionInvalidationIntent.ofTags at h
    dsimp only at h
    split at h
    . cases h
    . next hid =>
      split at h
      . cases h
      . cases h
        refine ⟨by simpa using hid, ?_⟩
        exact validateStableId_foldl_setInsert htags (by simp)
  | readYourWrites _ ih => exact ⟨ih.cachePolicyId, ih.tags⟩

def intentWords (intent : ActionInvalidationIntent) : List (String × UInt8) :=
  (intent.cachePolicyId, intent.consistency.toByte) :: intent.tags.map (fun tag => (tag, 0))

theorem intentWords_inj {i j : ActionInvalidationIntent} (htags : i.tags.length = j.tags.length)
    {ws vs : List (String × UInt8)} (h : intentWords i ++ ws = intentWords j ++ vs)
    : i = j ∧ ws = vs := by
  obtain ⟨hwords, hrest⟩ := List.append_inj h (by simp [intentWords, htags])
  refine ⟨?_, hrest⟩
  simp only [intentWords, List.cons.injEq, Prod.mk.injEq] at hwords
  obtain ⟨⟨hid, hconsistency⟩, hwords⟩ := hwords
  have hinj : Function.Injective (fun tag : String => (tag, (0 : UInt8))) :=
    fun _ _ h => (Prod.mk.inj h).1
  have hwords := List.map_injective_iff.mpr hinj hwords
  have hconsistency := InvalidationConsistency.toByte_inj hconsistency
  obtain ⟨id, tags, consistency⟩ := i
  obtain ⟨id', tags', consistency'⟩ := j
  simp_all

theorem eq_of_intentWords_eq {is js : List ActionInvalidationIntent}
    (htags : is.map (fun intent => intent.tags.length) = js.map (fun intent => intent.tags.length))
    (h : is.flatMap intentWords = js.flatMap intentWords)
    : is = js := by
  induction is generalizing js with
  | nil =>
    cases js with
    | nil => rfl
    | cons j js => simp at htags
  | cons i is ih =>
    cases js with
    | nil => simp at htags
    | cons j js =>
      rw [List.map_cons, List.map_cons, List.cons.injEq] at htags
      rw [List.flatMap_cons, List.flatMap_cons] at h
      obtain ⟨hhead, hrest⟩ := intentWords_inj htags.1 h
      rw [hhead, ih htags.2 hrest]

theorem append_inj_of_length {a b c d : String} (hlen : a.length = c.length) (h : a ++ b = c ++ d)
    : a = c ∧ b = d := by
  have h := congrArg String.toList h
  rw [String.toList_append, String.toList_append] at h
  obtain ⟨hfst, hsnd⟩ := List.append_inj h hlen
  exact ⟨String.toList_inj.mp hfst, String.toList_inj.mp hsnd⟩

namespace ActionPolicy

def contractHead (policy : ActionPolicy) : List (List UInt8) :=
  [ utf8 policy.id,
    beBytes 4 policy.semanticRevision,
    utf8 policy.inputSchemaId,
    utf8 policy.fieldErrorSchemaId,
    utf8 policy.outputSchemaId,
    beBytes 8 policy.maxEncodedBytes,
    beBytes 8 policy.maxDecodedBytes,
    beBytes 8 policy.maxFormFields,
    beBytes 8 policy.maxOutputBytes,
    beBytes 8 policy.postCommitGraceMs ]

def acceptWords (policy : ActionPolicy) : List (String × UInt8) :=
  policy.acceptedMediaTypes.map (fun mediaType => (mediaType.asStr, 0))
    ++ policy.acceptedContentEncodings.map (fun encoding => (encoding.asStr, 0))

-- The first intent goes on where the idempotency id, which nothing ends, has stopped.
def scopeWords (policy : ActionPolicy) : List (String × UInt8) :=
  resourceWords (sortedResources policy.resources) ++
    match policy.invalidationIntents with
    | [] => []
    | intent :: intents =>
      (policy.idempotencyPolicyId.getD "" ++ intent.cachePolicyId, intent.consistency.toByte)
        :: intent.tags.map (fun tag => (tag, 0)) ++ intents.flatMap intentWords

def openWord (policy : ActionPolicy) : String :=
  match policy.invalidationIntents with
  | [] => policy.idempotencyPolicyId.getD ""
  | _ => ""

def unscoped (policy : ActionPolicy) : ActionPolicy :=
  { policy with resources := [], idempotencyPolicyId := none, invalidationIntents := [] }

def SameContract (p q : ActionPolicy) : Prop :=
  { p with resources := [] } = { q with resources := [] } ∧ p.resources.Perm q.resources

def SameWords (p q : ActionPolicy) : Prop :=
  p.unscoped = q.unscoped ∧ p.scopeWords = q.scopeWords ∧ p.openWord = q.openWord

def layout (policy : ActionPolicy) : List Nat × Option Nat × List Nat :=
  (resourceLayout (sortedResources policy.resources),
    policy.idempotencyPolicyId.map String.length,
    policy.invalidationIntents.map (fun intent => intent.tags.length))

structure Valid (policy : ActionPolicy) : Prop where
  id : validateStableId policy.id = true
  inputSchemaId : validateStableId policy.inputSchemaId = true
  fieldErrorSchemaId : validateStableId policy.fieldErrorSchemaId = true
  outputSchemaId : validateStableId policy.outputSchemaId = true
  semanticRevision : policy.semanticRevision < 256 ^ 4
  maxEncodedBytes : policy.maxEncodedBytes < 256 ^ 8
  maxDecodedBytes : policy.maxDecodedBytes < 256 ^ 8
  maxFormFields : policy.maxFormFields < 256 ^ 8
  maxOutputBytes : policy.maxOutputBytes < 256 ^ 8
  postCommitGraceMs : policy.postCommitGraceMs < 256 ^ 8
  resources : ValidResources policy.resources
  idempotencyPolicyId : ∀ id, policy.idempotencyPolicyId = some id → validateStableId id = true
  invalidationIntents : ∀ intent ∈ policy.invalidationIntents, intent.Valid

theorem contractPreimage_eq (policy : ActionPolicy)
    : policy.contractPreimage
        =
      (utf8 "pliego-action-policy-v1" ++ [0]) ++ (policy.contractHead.flatMap lenPrefixed
        ++ (spell (policy.acceptWords
          ++ ("", policy.originPolicy.toByte) :: ("", policy.csrfPolicy.toByte)
            :: ("", flagByte policy.requireAuthentication)
            :: ("", flagByte policy.requireAuthorization) :: policy.scopeWords)
          ++ utf8 policy.openWord)) := by
  have hempty : utf8 "" = [] := rfl
  have hcons : ∀ (byte : UInt8) (words : List (String × UInt8)),
      spell (("", byte) :: words) = byte :: spell words := fun _ _ => rfl
  have haccept : spell policy.acceptWords
      = policy.acceptedMediaTypes.flatMap (fun mediaType => utf8 mediaType.asStr ++ [0])
        ++ policy.acceptedContentEncodings.flatMap (fun encoding => utf8 encoding.asStr ++ [0]) := by
    simp [acceptWords, spell, marked, List.flatMap_map]
  have hintents : ∀ intents : List ActionInvalidationIntent, spell (intents.flatMap intentWords)
      = intents.flatMap (fun intent => utf8 intent.cachePolicyId ++ [intent.consistency.toByte]
        ++ intent.tags.flatMap (fun tag => utf8 tag ++ [0])) := by
    intro intents
    induction intents with
    | nil => rfl
    | cons intent intents ih =>
      rw [List.flatMap_cons, spell_append, ih, List.flatMap_cons]
      congr 1
      simp [intentWords, spell, marked, List.flatMap_map]
  have hscope : spell policy.scopeWords ++ utf8 policy.openWord
      = (sortedResources policy.resources).flatMap (fun resource => utf8 resource.id ++ [0]
          ++ resource.capabilities.flatMap (fun capability => utf8 capability ++ [0]))
        ++ utf8 (policy.idempotencyPolicyId.getD "")
        ++ policy.invalidationIntents.flatMap (fun intent => utf8 intent.cachePolicyId
          ++ [intent.consistency.toByte] ++ intent.tags.flatMap (fun tag => utf8 tag ++ [0])) := by
    unfold scopeWords openWord
    rw [spell_append, spell_resourceWords]
    cases policy.invalidationIntents with
    | nil => simp [spell, marked]
    | cons intent intents =>
      rw [List.flatMap_cons, ← hintents, spell_append]
      simp [spell, marked, List.flatMap_map, hempty]
  rw [spell_append, hcons, hcons, hcons, hcons, haccept]
  simp only [List.append_assoc, List.cons_append, List.nil_append]
  rw [hscope]
  cases hid : policy.idempotencyPolicyId <;>
    simp only [contractPreimage, contractHead, sortedResources, hid, hempty, Option.getD_none,
      Option.getD_some, List.append_assoc, List.cons_append, List.nil_append]

variable {policy : ActionPolicy} {p q : ActionPolicy}

theorem Built.valid (h : policy.Built) : policy.Valid := by
  induction h with
  | new hrevision h =>
    unfold ActionPolicy.new at h
    split at h
    . cases h
    . next hids =>
      simp only [List.find?_eq_none, Bool.not_eq_true', Bool.not_eq_false] at hids
      split at h
      . cases h
      . cases h
        exact ⟨hids _ (by simp), hids _ (by simp), hids _ (by simp), hids _ (by simp), hrevision,
          by simp, by simp, by simp, by simp, by simp, ⟨by simp, by simp⟩, by simp, by simp⟩
  | acceptMediaType _ mediaType ih =>
    unfold ActionPolicy.acceptMediaType
    split
    . exact ih
    . exact { ih with }
  | acceptContentEncoding _ encoding ih =>
    unfold ActionPolicy.acceptContentEncoding
    split
    . exact ih
    . exact { ih with }
  | withMaxEncodedBytes _ h ih =>
    unfold ActionPolicy.withMaxEncodedBytes at h
    split at h
    . cases h
    . next hbound =>
      cases h
      simp only [Bool.or_eq_true, decide_eq_true_eq, not_or] at hbound
      exact { ih with maxEncodedBytes := by dsimp only; omega }
  | withMaxDecodedBytes _ h ih =>
    unfold ActionPolicy.withMaxDecodedBytes at h
    split at h
    . cases h
    . next hbound =>
      cases h
      simp only [Bool.or_eq_true, decide_eq_true_eq, not_or] at hbound
      exact { ih with maxDecodedBytes := by dsimp only; omega }
  | withMaxOutputBytes _ h ih =>
    unfold ActionPolicy.withMaxOutputBytes at h
    split at h
    . cases h
    . next hbound =>
      cases h
      simp only [Bool.or_eq_true, decide_eq_true_eq, not_or] at hbound
      exact { ih with maxOutputBytes := by dsimp only; omega }
  | withMaxFormFields _ h ih =>
    unfold ActionPolicy.withMaxFormFields at h
    split at h
    . cases h
    . next hbound =>
      cases h
      simp only [Bool.or_eq_true, decide_eq_true_eq, not_or] at hbound
      exact { ih with maxFormFields := by dsimp only; omega }
  | originPolicy _ _ ih => exact { ih with }
  | csrfPolicy _ _ ih => exact { ih with }
  | requireAuthentication _ _ ih => exact { ih with }
  | requireAuthorization _ _ ih => exact { ih with }
  | resource _ hrequirement h ih =>
    unfold ActionPolicy.resource at h
    split at h
    . cases h
    . next hnew =>
      split at h
      . cases h
      . cases h
        rw [Bool.not_eq_true] at hnew
        exact { ih with resources := ih.resources.concat hrequirement.valid hnew }
  | postCommitGrace _ h ih =>
    unfold ActionPolicy.postCommitGrace at h
    dsimp only at h
    split at h
    . cases h
    . split at h
      . cases h
      . next hbound =>
        cases h
        simp only [Bool.or_eq_true, decide_eq_true_eq, not_or] at hbound
        exact { ih with postCommitGraceMs := by dsimp only; omega }
  | idempotency _ hid ih =>
    refine { ih with idempotencyPolicyId := ?_ }
    rintro _ ⟨⟩
    exact hid
  | invalidation _ hintent h ih =>
    unfold ActionPolicy.invalidation at h
    split at h
    . cases h
    . split at h
      . cases h
      . cases h
        refine { ih with invalidationIntents := ?_ }
        intro intent hmem
        rw [List.mem_mergeSort, List.mem_append, List.mem_singleton] at hmem
        cases hmem with
        | inl hmem => exact ih.invalidationIntents intent hmem
        | inr hmem =>
          rw [hmem]
          exact hintent.valid

theorem Valid.head_length (h : policy.Valid)
    : ∀ field ∈ policy.contractHead, field.length < 256 ^ 8 := by
  intro field hfield
  simp only [contractHead, List.mem_cons, List.not_mem_nil, or_false] at hfield
  rcases hfield with rfl | rfl | rfl | rfl | rfl | rfl | rfl | rfl | rfl | rfl
  . exact (length_of_validateStableId h.id).1
  . simp
  . exact (length_of_validateStableId h.inputSchemaId).1
  . exact (length_of_validateStableId h.fieldErrorSchemaId).1
  . exact (length_of_validateStableId h.outputSchemaId).1
  all_goals simp

theorem Valid.eq_of_head (hp : p.Valid) (hq : q.Valid)
    (hhead : p.contractHead = q.contractHead) (haccept : p.acceptWords = q.acceptWords)
    (horigin : p.originPolicy.toByte = q.originPolicy.toByte) (hcsrf : p.csrfPolicy.toByte = q.csrfPolicy.toByte)
    (hauthn : flagByte p.requireAuthentication = flagByte q.requireAuthentication)
    (hauthz : flagByte p.requireAuthorization = flagByte q.requireAuthorization)
    : p.unscoped = q.unscoped := by
  simp only [contractHead, List.cons.injEq, and_true] at hhead
  obtain ⟨hid, hrevision, hinput, hfield, houtput, hencoded, hdecoded, hform, hmax, hgrace⟩ := hhead
  obtain ⟨hmedia, hencoding⟩ := map_append_map_inj
    (fun _ _ h => ActionMediaType.asStr_inj (Prod.mk.inj h).1)
    (fun _ _ h => ActionContentEncoding.asStr_inj (Prod.mk.inj h).1)
    (fun mediaType encoding h => mediaType.asStr_ne encoding (Prod.mk.inj h).1) haccept
  unfold unscoped
  rw [utf8_inj hid, beBytes_inj hp.semanticRevision hq.semanticRevision hrevision,
    utf8_inj hinput, utf8_inj hfield, utf8_inj houtput, hmedia, hencoding,
    beBytes_inj hp.maxEncodedBytes hq.maxEncodedBytes hencoded,
    beBytes_inj hp.maxDecodedBytes hq.maxDecodedBytes hdecoded,
    beBytes_inj hp.maxFormFields hq.maxFormFields hform,
    beBytes_inj hp.maxOutputBytes hq.maxOutputBytes hmax, OriginPolicy.toByte_inj horigin,
    CsrfPolicy.toByte_inj hcsrf, flagByte_inj hauthn, flagByte_inj hauthz,
    beBytes_inj hp.postCommitGraceMs hq.postCommitGraceMs hgrace]

theorem acceptWords_plain (policy : ActionPolicy)
    : ∀ word ∈ policy.acceptWords, (Plain word.1 ∧ IsMark word.2) ∧ word.1 ≠ "" := by
  intro word hword
  rw [acceptWords, List.mem_append, List.mem_map, List.mem_map] at hword
  cases hword with
  | inl hword =>
    obtain ⟨mediaType, -, rfl⟩ := hword
    refine ⟨⟨?_, .inl rfl⟩, ?_⟩
    . unfold Plain IsMark
      cases mediaType <;> decide +kernel
    . cases mediaType <;> decide
  | inr hword =>
    obtain ⟨encoding, -, rfl⟩ := hword
    refine ⟨⟨?_, .inl rfl⟩, ?_⟩
    . unfold Plain IsMark
      cases encoding <;> decide +kernel
    . cases encoding <;> decide

theorem Valid.plain_idempotency (h : policy.Valid)
    : Plain (policy.idempotencyPolicyId.getD "") := by
  cases hid : policy.idempotencyPolicyId with
  | none => exact plain_empty
  | some id => exact plain_of_validateStableId (h.idempotencyPolicyId id hid)

theorem Valid.plain_openWord (h : policy.Valid)
    : Plain policy.openWord := by
  unfold openWord
  split
  . exact h.plain_idempotency
  . exact plain_empty

theorem Valid.scopeWords_plain (h : policy.Valid)
    : ∀ word ∈ policy.scopeWords, Plain word.1 ∧ IsMark word.2 := by
  have hmark : ∀ consistency : InvalidationConsistency, IsMark consistency.toByte := by
    intro consistency
    cases consistency with
    | eventual => exact .inl rfl
    | readYourWrites => exact .inr rfl
  have htags : ∀ {intent : ActionInvalidationIntent}, intent.Valid →
      ∀ word ∈ intent.tags.map (fun tag => (tag, (0 : UInt8))), Plain word.1 ∧ IsMark word.2 := by
    intro intent hintent word hword
    obtain ⟨tag, htag, rfl⟩ := List.mem_map.mp hword
    exact ⟨plain_of_validateStableId (hintent.tags tag htag), .inl rfl⟩
  intro word hword
  rw [scopeWords, List.mem_append] at hword
  cases hword with
  | inl hword => exact h.resources.words word hword
  | inr hword =>
    split at hword
    . cases hword
    . next intent intents hintents =>
      have hvalid := fun other hmem => h.invalidationIntents other (hintents ▸ hmem)
      have hfirst := hvalid intent (by simp)
      rw [List.cons_append, List.mem_cons, List.mem_append] at hword
      rcases hword with rfl | hword | hword
      . exact ⟨h.plain_idempotency.append (plain_of_validateStableId hfirst.cachePolicyId),
          hmark _⟩
      . exact htags hfirst word hword
      . obtain ⟨other, hmem, hword⟩ := List.mem_flatMap.mp hword
        have hother := hvalid other (by simp [hmem])
        rw [intentWords, List.mem_cons] at hword
        cases hword with
        | inl hword =>
          rw [hword]
          exact ⟨plain_of_validateStableId hother.cachePolicyId, hmark _⟩
        | inr hword => exact htags hother word hword

theorem Valid.contractPreimage_eq_iff (hp : p.Valid) (hq : q.Valid)
    : p.contractPreimage = q.contractPreimage ↔ p.SameWords q := by
  rw [contractPreimage_eq, contractPreimage_eq, List.append_cancel_left_eq]
  have hwords : ∀ {policy : ActionPolicy}, policy.Valid →
      ∀ word ∈ policy.acceptWords
        ++ ("", policy.originPolicy.toByte) :: ("", policy.csrfPolicy.toByte)
          :: ("", flagByte policy.requireAuthentication)
          :: ("", flagByte policy.requireAuthorization) :: policy.scopeWords,
        Plain word.1 ∧ IsMark word.2 := by
    intro policy h word hword
    simp only [List.mem_append, List.mem_cons] at hword
    rcases hword with hword | rfl | rfl | rfl | rfl | hword
    . exact (policy.acceptWords_plain word hword).1
    . exact ⟨plain_empty, policy.originPolicy.isMark_toByte⟩
    . exact ⟨plain_empty, policy.csrfPolicy.isMark_toByte⟩
    . exact ⟨plain_empty, isMark_flagByte _⟩
    . exact ⟨plain_empty, isMark_flagByte _⟩
    . exact h.scopeWords_plain word hword
  constructor
  . intro h
    have hlen : p.contractHead.length = q.contractHead.length := by simp [contractHead]
    obtain ⟨hhead, hrest⟩ := flatMap_lenPrefixed_append_inj hlen hp.head_length hq.head_length h
    obtain ⟨hspelled, hopen⟩ :=
      spell_inj (hwords hp) (hwords hq) hp.plain_openWord hq.plain_openWord hrest
    -- the first empty word ends the accepted media types and encodings
    obtain ⟨haccept, horigin, hflags⟩ := append_mark_inj (s := ("", p.originPolicy.toByte))
      (fun word hword => (p.acceptWords_plain word hword).2)
      (fun word hword => (q.acceptWords_plain word hword).2) rfl rfl hspelled
    simp only [List.cons.injEq, Prod.mk.injEq, true_and] at horigin hflags
    obtain ⟨hcsrf, hauthn, hauthz, hscope⟩ := hflags
    exact ⟨hp.eq_of_head hq hhead haccept horigin hcsrf hauthn hauthz, hscope, hopen⟩
  . rintro ⟨hsame, hscope, hopen⟩
    have hhead := congrArg contractHead hsame
    have hhead : p.contractHead = q.contractHead := hhead
    have haccept := congrArg acceptWords hsame
    have haccept : p.acceptWords = q.acceptWords := haccept
    simp only [unscoped, ActionPolicy.mk.injEq] at hsame
    rw [hhead, haccept, hscope, hopen]
    simp only [hsame]

theorem eq_of_scope_eq (hscope : p.scopeWords = q.scopeWords)
    (hopen : p.openWord = q.openWord) (hlayout : p.layout = q.layout)
    : sortedResources p.resources = sortedResources q.resources ∧
        p.idempotencyPolicyId = q.idempotencyPolicyId ∧
        p.invalidationIntents = q.invalidationIntents := by
  simp only [layout, Prod.mk.injEq] at hlayout
  obtain ⟨hresources, hidem, hintents⟩ := hlayout
  have hlen : (resourceWords (sortedResources p.resources)).length
      = (resourceWords (sortedResources q.resources)).length := by
    rw [length_resourceWords, length_resourceWords, hresources]
  obtain ⟨hwords, hrest⟩ := List.append_inj hscope hlen
  refine ⟨eq_of_resourceWords_eq hresources hwords, ?_⟩
  have hidemLength : (p.idempotencyPolicyId.getD "").length
      = (q.idempotencyPolicyId.getD "").length := by
    have hgetD : ∀ o : Option String, (o.getD "").length = (o.map String.length).getD 0 := by
      intro o
      cases o <;> rfl
    rw [hgetD, hgetD, hidem]
  have hidemEq : p.idempotencyPolicyId.getD "" = q.idempotencyPolicyId.getD "" →
      p.idempotencyPolicyId = q.idempotencyPolicyId := by
    intro h
    cases hp : p.idempotencyPolicyId with
    | none =>
      cases hq : q.idempotencyPolicyId with
      | none => rfl
      | some id => simp [hp, hq] at hidem
    | some id =>
      cases hq : q.idempotencyPolicyId with
      | none => simp [hp, hq] at hidem
      | some id' =>
        rw [hp, hq, Option.getD_some, Option.getD_some] at h
        rw [h]
  unfold openWord at hopen
  cases hp : p.invalidationIntents with
  | nil =>
    cases hq : q.invalidationIntents with
    | nil =>
      rw [hp, hq] at hopen
      exact ⟨hidemEq hopen, rfl⟩
    | cons j js => simp [hp, hq] at hintents
  | cons i is =>
    cases hq : q.invalidationIntents with
    | nil => simp [hp, hq] at hintents
    | cons j js =>
      rw [hp, hq, List.map_cons, List.map_cons, List.cons.injEq] at hintents
      rw [hp, hq] at hrest
      simp only [List.cons_append, List.cons.injEq, Prod.mk.injEq] at hrest
      obtain ⟨⟨hjoined, hconsistency⟩, htags⟩ := hrest
      obtain ⟨hid, hpolicy⟩ := append_inj_of_length hidemLength hjoined
      have hfirst : intentWords i ++ is.flatMap intentWords
          = intentWords j ++ js.flatMap intentWords := by
        simp only [intentWords, hpolicy, hconsistency, List.cons_append, htags]
      refine ⟨hidemEq hid, eq_of_intentWords_eq ?_ hfirst⟩
      rw [List.map_cons, List.map_cons, hintents.1, hintents.2]

theorem Valid.sameContract_iff (hp : p.Valid)
    : p.SameContract q ↔ p.SameWords q ∧ p.layout = q.layout := by
  constructor
  . rintro ⟨hsame, hperm⟩
    have hsorted := sortedResources_eq_of_perm hp.resources hperm
    have hunscoped := congrArg unscoped hsame
    have hunscoped : p.unscoped = q.unscoped := hunscoped
    simp only [ActionPolicy.mk.injEq] at hsame
    refine ⟨⟨hunscoped, ?_, ?_⟩, ?_⟩
    . simp only [scopeWords, hsorted, hsame]
    . simp only [openWord, hsame]
    . simp only [layout, hsorted, hsame]
  . rintro ⟨⟨hunscoped, hscope, hopen⟩, hlayout⟩
    obtain ⟨hsorted, hidem, hintents⟩ := eq_of_scope_eq hscope hopen hlayout
    refine ⟨?_, perm_of_sortedResources_eq hsorted⟩
    simp only [unscoped, ActionPolicy.mk.injEq, and_true, true_and] at hunscoped
    simp only [ActionPolicy.mk.injEq, hidem, hintents, and_true, true_and]
    exact hunscoped

end ActionPolicy

end Data

end Pliego
