import Pliego.Data.Contract

/-!
The policy grants of an authority.
-/

namespace Pliego

open Bytes

namespace Data

def insert (grants : Grants) (id digest kind : String) : Except DataError Grants :=
  match grants id with
  | some existing =>
    if existing == digest then
      .ok grants
    else
      .error (.policyNotGranted ("conflicting " ++ kind ++ " policy " ++ id))
  | none => .ok (Function.update grants id (some digest))

theorem insert_spec {grants grants' : Grants} {id digest kind : String}
    (h : insert grants id digest kind = .ok grants') (id' digest' : String)
    : permits grants' id' digest' = true
        ↔
      permits grants id' digest' = true ∨ (id = id' ∧ digest = digest') := by
  unfold insert at h
  unfold permits
  split at h
  . next existing hget =>
    split at h
    . next hsame =>
      cases h
      rw [beq_iff_eq] at hsame
      subst hsame
      constructor
      . exact .inl
      . rintro (h | ⟨rfl, rfl⟩)
        . exact h
        . simp [hget]
    . cases h
  . next hget =>
    cases h
    by_cases hid : id = id'
    . subst hid
      simp [hget]
    . simp [Function.update_of_ne (Ne.symm hid), hid]

namespace DataPolicyGrants

def new : DataPolicyGrants :=
  { actions := fun _ => none }

def loader (sha256 : Sha256) (grants : DataPolicyGrants) (policy : LoaderPolicy)
    : Except DataError DataPolicyGrants := do
  let loaders ← insert grants.loaders policy.id (policy.contractDigest sha256) "loader"
  .ok { grants with loaders := loaders }

def action (sha256 : Sha256) (grants : DataPolicyGrants) (policy : ActionPolicy)
    : Except DataError DataPolicyGrants := do
  let actions ← insert grants.actions policy.id (policy.contractDigest sha256) "action"
  .ok { grants with actions := actions }

def cache (sha256 : Sha256) (grants : DataPolicyGrants) (policy : CachePolicy)
    : Except DataError DataPolicyGrants := do
  let caches ← insert grants.caches policy.id (policy.contractDigest sha256) "cache"
  .ok { grants with caches := caches }

def permitsLoader (sha256 : Sha256) (grants : DataPolicyGrants) (policy : LoaderPolicy) : Bool :=
  permits grants.loaders policy.id (policy.contractDigest sha256)

def permitsCache (sha256 : Sha256) (grants : DataPolicyGrants) (policy : CachePolicy) : Bool :=
  permits grants.caches policy.id (policy.contractDigest sha256)

inductive Granting (sha256 : Sha256) :
    DataPolicyGrants → List LoaderPolicy → List ActionPolicy → List CachePolicy → Prop where
  | new : Granting sha256 new [] [] []
  | loader {grants grants' : DataPolicyGrants} {loaders : List LoaderPolicy}
    {actions : List ActionPolicy} {caches : List CachePolicy} {policy : LoaderPolicy}
    (hgranting : Granting sha256 grants loaders actions caches) (hbuilt : policy.Built)
    (h : grants.loader sha256 policy = .ok grants') :
    Granting sha256 grants' (policy :: loaders) actions caches
  | action {grants grants' : DataPolicyGrants} {loaders : List LoaderPolicy}
    {actions : List ActionPolicy} {caches : List CachePolicy} {policy : ActionPolicy}
    (hgranting : Granting sha256 grants loaders actions caches) (hbuilt : policy.Built)
    (h : grants.action sha256 policy = .ok grants') :
    Granting sha256 grants' loaders (policy :: actions) caches
  | cache {grants grants' : DataPolicyGrants} {loaders : List LoaderPolicy}
    {actions : List ActionPolicy} {caches : List CachePolicy} {policy : CachePolicy}
    (hgranting : Granting sha256 grants loaders actions caches) (hbuilt : policy.Built)
    (h : grants.cache sha256 policy = .ok grants') :
    Granting sha256 grants' loaders actions (policy :: caches)

variable {sha256 : Sha256} {grants grants' : DataPolicyGrants} {loaders : List LoaderPolicy}
  {actions : List ActionPolicy} {caches : List CachePolicy}

theorem loader_cases {policy : LoaderPolicy} (h : grants.loader sha256 policy = .ok grants')
    : ∃ table, insert grants.loaders policy.id (policy.contractDigest sha256) "loader" = .ok table ∧
        grants' = { grants with loaders := table } := by
  unfold loader at h
  cases hinsert : insert grants.loaders policy.id (policy.contractDigest sha256) "loader" with
  | error e =>
    rw [hinsert] at h
    cases h
  | ok table =>
    rw [hinsert] at h
    cases h
    exact ⟨table, rfl, rfl⟩

theorem action_cases {policy : ActionPolicy} (h : grants.action sha256 policy = .ok grants')
    : ∃ table, insert grants.actions policy.id (policy.contractDigest sha256) "action" = .ok table ∧
        grants' = { grants with actions := table } := by
  unfold action at h
  cases hinsert : insert grants.actions policy.id (policy.contractDigest sha256) "action" with
  | error e =>
    rw [hinsert] at h
    cases h
  | ok table =>
    rw [hinsert] at h
    cases h
    exact ⟨table, rfl, rfl⟩

theorem cache_cases {policy : CachePolicy} (h : grants.cache sha256 policy = .ok grants')
    : ∃ table, insert grants.caches policy.id (policy.contractDigest sha256) "cache" = .ok table ∧
        grants' = { grants with caches := table } := by
  unfold cache at h
  cases hinsert : insert grants.caches policy.id (policy.contractDigest sha256) "cache" with
  | error e =>
    rw [hinsert] at h
    cases h
  | ok table =>
    rw [hinsert] at h
    cases h
    exact ⟨table, rfl, rfl⟩

structure Records (sha256 : Sha256) (grants : DataPolicyGrants) (loaders : List LoaderPolicy)
    (actions : List ActionPolicy) (caches : List CachePolicy) : Prop where
  loaders : ∀ id digest, permits grants.loaders id digest = true
    ↔ ∃ q ∈ loaders, q.id = id ∧ q.contractDigest sha256 = digest
  actions : ∀ id digest, permits grants.actions id digest = true
    ↔ ∃ q ∈ actions, q.id = id ∧ q.contractDigest sha256 = digest
  caches : ∀ id digest, permits grants.caches id digest = true
    ↔ ∃ q ∈ caches, q.id = id ∧ q.contractDigest sha256 = digest

theorem records_step {α : Type} {table table' : Grants} {id digest : α → String}
    {policy : α} {policies : List α} {name : String}
    (ih : ∀ i d, permits table i d = true ↔ ∃ q ∈ policies, id q = i ∧ digest q = d)
    (h : insert table (id policy) (digest policy) name = .ok table')
    : ∀ i d, permits table' i d = true ↔ ∃ q ∈ policy :: policies, id q = i ∧ digest q = d := by
  intro i d
  rw [insert_spec h, ih]
  simp only [List.mem_cons, exists_eq_or_imp]
  exact or_comm

theorem Granting.records (h : Granting sha256 grants loaders actions caches)
    : Records sha256 grants loaders actions caches := by
  induction h with
  | new => exact ⟨by simp [DataPolicyGrants.new, permits], by simp [DataPolicyGrants.new, permits],
      by simp [DataPolicyGrants.new, permits]⟩
  | loader _ _ h ih =>
    obtain ⟨table, hinsert, rfl⟩ := loader_cases h
    exact ⟨records_step ih.loaders hinsert, ih.actions, ih.caches⟩
  | action _ _ h ih =>
    obtain ⟨table, hinsert, rfl⟩ := action_cases h
    exact ⟨ih.loaders, records_step ih.actions hinsert, ih.caches⟩
  | cache _ _ h ih =>
    obtain ⟨table, hinsert, rfl⟩ := cache_cases h
    exact ⟨ih.loaders, ih.actions, records_step ih.caches hinsert⟩

theorem Granting.built (h : Granting sha256 grants loaders actions caches)
    : (∀ q ∈ loaders, q.Built) ∧ (∀ q ∈ actions, q.Built) ∧ ∀ q ∈ caches, q.Built := by
  induction h with
  | new => exact ⟨by simp, by simp, by simp⟩
  | loader _ hbuilt _ ih =>
    exact ⟨fun q hq => (List.mem_cons.mp hq).elim (fun h => h ▸ hbuilt) (ih.1 q), ih.2⟩
  | action _ hbuilt _ ih =>
    exact ⟨ih.1, fun q hq => (List.mem_cons.mp hq).elim (fun h => h ▸ hbuilt) (ih.2.1 q), ih.2.2⟩
  | cache _ hbuilt _ ih =>
    exact ⟨ih.1, ih.2.1, fun q hq => (List.mem_cons.mp hq).elim (fun h => h ▸ hbuilt) (ih.2.2 q)⟩

end DataPolicyGrants

def hashed {α : Type} (preimage : α → List UInt8) (policies : List α) : Set (List UInt8) :=
  { x | ∃ policy ∈ policies, preimage policy = x }

section Kinds

variable {α : Type} {sha256 : Sha256} {preimage : α → List UInt8}

theorem digest_eq_iff {p q : α} (hsha : Set.InjOn sha256 (hashed preimage [p, q]))
    : encodeHex (sha256 (preimage p)).bytes = encodeHex (sha256 (preimage q)).bytes
        ↔
      preimage p = preimage q := by
  constructor
  . apply eq_of_hex_sha256_eq
    exact hsha ⟨p, by simp, rfl⟩ ⟨q, by simp, rfl⟩
  . intro h
    rw [h]

theorem digest_same_iff {p q : α} {same words alike : Prop}
    (hwords : preimage p = preimage q ↔ words) (hsame : same ↔ words ∧ alike)
    (hsha : Set.InjOn sha256 (hashed preimage [p, q]))
    : (encodeHex (sha256 (preimage p)).bytes = encodeHex (sha256 (preimage q)).bytes → same)
        ↔
      (words → alike) := by
  rw [digest_eq_iff hsha, hwords, hsame]
  constructor
  . exact fun h hw => (h hw).2
  . exact fun h hw => ⟨hw, h hw⟩

theorem permitted_same_iff {p : α} {granted : List α} {id : α → String} {table : Grants}
    {same words alike : α → α → Prop} (hwords : ∀ q ∈ granted, preimage p = preimage q ↔ words p q)
    (hsame : ∀ q, same p q ↔ words p q ∧ alike p q) (hid : ∀ q, words p q → id q = id p)
    (hrecords : ∀ i d, permits table i d = true
      ↔ ∃ q ∈ granted, id q = i ∧ encodeHex (sha256 (preimage q)).bytes = d)
    (hsha : Set.InjOn sha256 (hashed preimage (p :: granted)))
    : (permits table (id p) (encodeHex (sha256 (preimage p)).bytes) = true →
          ∃ q ∈ granted, same p q)
        ↔
      ((∃ q ∈ granted, words p q) → ∃ q ∈ granted, words p q ∧ alike p q) := by
  have hpermits : permits table (id p) (encodeHex (sha256 (preimage p)).bytes) = true
      ↔ ∃ q ∈ granted, words p q := by
    rw [hrecords]
    constructor
    . rintro ⟨q, hq, -, hdigest⟩
      refine ⟨q, hq, (hwords q hq).mp ?_⟩
      apply eq_of_hex_sha256_eq _ hdigest.symm
      exact hsha ⟨p, by simp, rfl⟩ ⟨q, by simp [hq], rfl⟩
    . rintro ⟨q, hq, hw⟩
      exact ⟨q, hq, hid q hw, by rw [(hwords q hq).mpr hw]⟩
  rw [hpermits]
  simp only [hsame]

end Kinds

/--
Two policies of one kind that spell the same words have one digest. The digest therefore tells apart,
and a grant keeps apart, exactly the policies whose words can only be divided in one way: into resources
and their capabilities, into the idempotency id and the intents with their tags, and, for a cache, the
durations whose whole milliseconds leave nothing out.
-/
theorem contractDigest_tells_apart_iff (sha256 : Sha256)
    : (∀ p q : LoaderPolicy, p.Built → q.Built →
        Set.InjOn sha256 (hashed LoaderPolicy.contractPreimage [p, q]) →
        ((p.contractDigest sha256 = q.contractDigest sha256 → p.SameContract q)
          ↔ (p.SameWords q → p.layout = q.layout))) ∧
      (∀ p q : ActionPolicy, p.Built → q.Built →
        Set.InjOn sha256 (hashed ActionPolicy.contractPreimage [p, q]) →
        ((p.contractDigest sha256 = q.contractDigest sha256 → p.SameContract q)
          ↔ (p.SameWords q → p.layout = q.layout))) ∧
      (∀ p q : CachePolicy, p.Built → q.Built →
        Set.InjOn sha256 (hashed CachePolicy.contractPreimage [p, q]) →
        ((p.contractDigest sha256 = q.contractDigest sha256 → p = q)
          ↔ (p.wholeMillis = q.wholeMillis → p.SameDurations q))) ∧
      ∀ grants loaders actions caches,
        DataPolicyGrants.Granting sha256 grants loaders actions caches →
        (∀ p : LoaderPolicy, p.Built →
          Set.InjOn sha256 (hashed LoaderPolicy.contractPreimage (p :: loaders)) →
          ((grants.permitsLoader sha256 p = true → ∃ q ∈ loaders, p.SameContract q)
            ↔ ((∃ q ∈ loaders, p.SameWords q) →
                ∃ q ∈ loaders, p.SameWords q ∧ p.layout = q.layout))) ∧
        (∀ p : ActionPolicy, p.Built →
          Set.InjOn sha256 (hashed ActionPolicy.contractPreimage (p :: actions)) →
          ((grants.permitsAction sha256 p = true → ∃ q ∈ actions, p.SameContract q)
            ↔ ((∃ q ∈ actions, p.SameWords q) →
                ∃ q ∈ actions, p.SameWords q ∧ p.layout = q.layout))) ∧
        (∀ p : CachePolicy, p.Built →
          Set.InjOn sha256 (hashed CachePolicy.contractPreimage (p :: caches)) →
          ((grants.permitsCache sha256 p = true → ∃ q ∈ caches, p = q)
            ↔ ((∃ q ∈ caches, p.wholeMillis = q.wholeMillis) →
                ∃ q ∈ caches, p.wholeMillis = q.wholeMillis ∧ p.SameDurations q))) := by
  refine ⟨?_, ?_, ?_, ?_⟩
  . intro p q hp hq hsha
    exact digest_same_iff (hp.valid.contractPreimage_eq_iff hq.valid) hp.valid.sameContract_iff hsha
  . intro p q hp hq hsha
    exact digest_same_iff (hp.valid.contractPreimage_eq_iff hq.valid) hp.valid.sameContract_iff hsha
  . intro p q hp hq hsha
    exact digest_same_iff (hp.valid.contractPreimage_eq_iff hq.valid) CachePolicy.eq_iff_wholeMillis
      hsha
  . intro grants loaders actions caches h
    obtain ⟨hloaders, hactions, hcaches⟩ := h.built
    refine ⟨?_, ?_, ?_⟩
    . intro p hp hsha
      apply permitted_same_iff _ _ _ h.records.loaders hsha
      . exact fun q hq => hp.valid.contractPreimage_eq_iff (hloaders q hq).valid
      . exact fun q => hp.valid.sameContract_iff
      . exact fun q hw => (congrArg LoaderPolicy.id hw.1).symm
    . intro p hp hsha
      apply permitted_same_iff _ _ _ h.records.actions hsha
      . exact fun q hq => hp.valid.contractPreimage_eq_iff (hactions q hq).valid
      . exact fun q => hp.valid.sameContract_iff
      . exact fun q hw => (congrArg ActionPolicy.id hw.1).symm
    . intro p hp hsha
      apply permitted_same_iff _ _ _ h.records.caches hsha
      . exact fun q hq => hp.valid.contractPreimage_eq_iff (hcaches q hq).valid
      . exact fun q => CachePolicy.eq_iff_wholeMillis
      . exact fun q hw => (congrArg CachePolicy.id hw).symm

def ordersLoader (resources : List ResourceRequirement) : LoaderPolicy :=
  { id := "orders"
    semanticRevision := 1
    inputSchemaId := "orders-input"
    outputSchemaId := "orders-output"
    resources := resources
    cachePolicyId := none
    maxOutputBytes := 256 * 1024
    deduplicateInRequest := true }

theorem ordersLoader_built {resources : List ResourceRequirement}
    (h : ∀ resource ∈ resources, resource.Built) (hid : (resources.map (·.id)).Nodup)
    (hlen : resources.length ≤ 32)
    : (ordersLoader resources).Built := by
  induction resources using List.reverseRecOn with
  | nil =>
    have hnew : LoaderPolicy.new "orders" 1 "orders-input" "orders-output"
        = .ok (ordersLoader []) := by decide
    exact .new (by decide) hnew
  | append_singleton resources resource ih =>
    rw [List.length_append, List.length_singleton] at hlen
    rw [List.map_append, List.nodup_append] at hid
    have hbuilt := ih (fun r hr => h r (by simp [hr])) hid.1 (by omega)
    apply LoaderPolicy.Built.resource hbuilt (h resource (by simp))
    have hnew : resources.any (fun current => current.id == resource.id) = false := by
      rw [List.any_eq_false]
      intro current hcurrent heq
      rw [beq_iff_eq] at heq
      exact hid.2.2 current.id (List.mem_map_of_mem hcurrent) resource.id (by simp) heq
    unfold LoaderPolicy.resource
    rw [if_neg (by simpa [ordersLoader] using hnew), if_neg (by dsimp only [ordersLoader]; omega)]
    rfl

def dbReader : ResourceRequirement := ⟨"db", ["read"]⟩

def bare (id : String) : ResourceRequirement := ⟨id, []⟩

theorem bare_built {id : String} (h : validateStableId id = true) : (bare id).Built := by
  have hnew : ResourceRequirement.new id = .ok (bare id) := by
    simp [ResourceRequirement.new, h, bare]
  exact .new hnew

theorem dbReader_built : dbReader.Built := by
  have hdb : (bare "db").Built := bare_built (by decide)
  have hread : (bare "db").requiring "read" = .ok dbReader := by decide
  exact .requiring hdb hread

-- The order in which resources are required is not part of the contract.
theorem ordersLoader_told_apart
    : (ordersLoader [dbReader, bare "audit"]).Built ∧ (ordersLoader [bare "audit", dbReader]).Built ∧
      (ordersLoader [dbReader, bare "audit"]).SameContract (ordersLoader [bare "audit", dbReader]) ∧
      ∃ grants, DataPolicyGrants.Granting sha256Digest grants
        [ordersLoader [bare "audit", dbReader]] [] [] ∧
        ∃ q ∈ [ordersLoader [bare "audit", dbReader]],
          (ordersLoader [dbReader, bare "audit"]).SameContract q := by
  have haudit : (bare "audit").Built := bare_built (by decide)
  have hp : (ordersLoader [dbReader, bare "audit"]).Built :=
    ordersLoader_built (by simp [haudit, dbReader_built]) (by decide) (by decide)
  have hq : (ordersLoader [bare "audit", dbReader]).Built :=
    ordersLoader_built (by simp [haudit, dbReader_built]) (by decide) (by decide)
  have hperm : (ordersLoader [dbReader, bare "audit"]).SameContract
      (ordersLoader [bare "audit", dbReader]) := ⟨rfl, List.Perm.swap ..⟩
  obtain ⟨hwords, hlayout⟩ := hp.valid.sameContract_iff.mp hperm
  have hpre := (hp.valid.contractPreimage_eq_iff hq.valid).mpr hwords
  have hinj : Set.InjOn sha256Digest (hashed LoaderPolicy.contractPreimage
      [ordersLoader [dbReader, bare "audit"], ordersLoader [bare "audit", dbReader]]) := by
    rintro _ ⟨r, hr, rfl⟩ _ ⟨t, ht, rfl⟩ -
    simp only [List.mem_cons, List.not_mem_nil, or_false] at hr ht
    rcases hr with rfl | rfl <;> rcases ht with rfl | rfl <;> simp [hpre]
  have happart := contractDigest_tells_apart_iff sha256Digest
  obtain ⟨table, hinsert⟩ : ∃ table,
      DataPolicyGrants.new.loader sha256Digest (ordersLoader [bare "audit", dbReader]) = .ok table :=
    ⟨_, rfl⟩
  have hgranting := DataPolicyGrants.Granting.new.loader hq hinsert
  refine ⟨hp, hq, ?_, table, hgranting, ?_⟩
  . apply (happart.1 _ _ hp hq hinj).mpr (fun _ => hlayout)
    unfold LoaderPolicy.contractDigest
    rw [hpre]
  . apply ((happart.2.2.2 _ _ _ _ hgranting).1 _ hp hinj).mpr
    . exact fun _ => ⟨_, by simp, hwords, hlayout⟩
    . unfold DataPolicyGrants.permitsLoader
      rw [hgranting.records.loaders]
      refine ⟨ordersLoader [bare "audit", dbReader], by simp, rfl, ?_⟩
      simp only [LoaderPolicy.contractDigest, hpre]

-- A capability of one resource is spelled as a resource of its own.
theorem capability_taken_for_resource
    : (ordersLoader [dbReader]).Built ∧ (ordersLoader [bare "db", bare "read"]).Built ∧
      ¬ (ordersLoader [dbReader]).SameContract (ordersLoader [bare "db", bare "read"]) ∧
      ∀ sha256 : Sha256,
        Set.InjOn sha256 (hashed LoaderPolicy.contractPreimage
          [ordersLoader [dbReader], ordersLoader [bare "db", bare "read"]]) ∧
        (ordersLoader [dbReader]).contractDigest sha256
          = (ordersLoader [bare "db", bare "read"]).contractDigest sha256 ∧
        ∃ grants, DataPolicyGrants.Granting sha256 grants [ordersLoader [dbReader]] [] [] ∧
          grants.permitsLoader sha256 (ordersLoader [bare "db", bare "read"]) = true := by
  have hdb : (bare "db").Built := bare_built (by decide)
  have hread : (bare "read").Built := bare_built (by decide)
  have hp : (ordersLoader [dbReader]).Built :=
    ordersLoader_built (by simp [dbReader_built]) (by decide) (by decide)
  have hq : (ordersLoader [bare "db", bare "read"]).Built :=
    ordersLoader_built (by simp [hdb, hread]) (by decide) (by decide)
  have hsorted : sortedResources [bare "db", bare "read"] = [bare "db", bare "read"] :=
    List.mergeSort_of_pairwise (by decide)
  have hwords : (ordersLoader [dbReader]).SameWords (ordersLoader [bare "db", bare "read"]) := by
    refine ⟨rfl, ?_⟩
    dsimp only [ordersLoader]
    rw [hsorted, sortedResources, List.mergeSort_singleton]
    rfl
  have hpre := (hp.valid.contractPreimage_eq_iff hq.valid).mpr hwords
  refine ⟨hp, hq, ?_, ?_⟩
  . rintro ⟨-, hperm⟩
    cases hperm.length_eq
  . intro sha256
    have hdigest : (ordersLoader [dbReader]).contractDigest sha256
        = (ordersLoader [bare "db", bare "read"]).contractDigest sha256 := by
      rw [LoaderPolicy.contractDigest, LoaderPolicy.contractDigest, hpre]
    refine ⟨?_, hdigest, ?_⟩
    . rintro _ ⟨r, hr, rfl⟩ _ ⟨t, ht, rfl⟩ -
      simp only [List.mem_cons, List.not_mem_nil, or_false] at hr ht
      rcases hr with rfl | rfl <;> rcases ht with rfl | rfl <;> simp [hpre]
    . obtain ⟨table, hinsert⟩ : ∃ table,
          DataPolicyGrants.new.loader sha256 (ordersLoader [dbReader]) = .ok table := ⟨_, rfl⟩
      have hgranting := DataPolicyGrants.Granting.new.loader hp hinsert
      refine ⟨table, hgranting, ?_⟩
      unfold DataPolicyGrants.permitsLoader
      rw [hgranting.records.loaders]
      exact ⟨ordersLoader [dbReader], by simp, rfl, hdigest⟩

end Data

end Pliego
