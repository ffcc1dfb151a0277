import Pliego.Log.Sealing

/-!
The schema-set digest of a sealed catalog: it does not depend on the order of registration, and equal
digests belong to equal schema graphs.
-/

namespace Pliego

open Bytes

variable {E E' : Type} {codec : EventCodec E} {codec' : EventCodec E'}

section Bounds

variable {name : String} {kind : KindBuilder E} {edit : KindBuilder.Edit E} {registration : Registration E}
  {builder builder' : EventCatalogBuilder E} {kinds : SortedMap String (SealedEntry E)}

-- The lengths and versions that the checks of the registrations admit.
structure KindBuilder.Bounded (kind : KindBuilder E) : Prop where
  schemas : ∀ version schemaId, kind.schemas.get? version = some schemaId →
    version ≤ maxSchemaVersion ∧ (utf8 schemaId).length ≤ maxContractIdBytes
  current : ∀ current, kind.current = some current →
    current.version ≤ maxSchemaVersion ∧ (utf8 current.mappingId).length ≤ maxContractIdBytes
  upcasters : ∀ source edge, kind.upcasters.get? source = some edge →
    source ≤ maxSchemaVersion ∧ edge.target ≤ maxSchemaVersion
      ∧ (utf8 edge.stepId).length ≤ maxContractIdBytes
  schemaCount : kind.schemas.len ≤ maxSchemasPerKind
  upcasterCount : kind.upcasters.len ≤ maxSchemasPerKind

def KindBuilder.Edit.Bounded (edit : KindBuilder.Edit E) : Prop :=
  match edit with
  | .schema version schemaId =>
    version ≤ maxSchemaVersion ∧ (utf8 schemaId).length ≤ maxContractIdBytes
  | .current mapper =>
    mapper.version ≤ maxSchemaVersion ∧ (utf8 mapper.mappingId).length ≤ maxContractIdBytes
  | .upcaster source edge _ =>
    source ≤ maxSchemaVersion ∧ edge.target ≤ maxSchemaVersion
      ∧ (utf8 edge.stepId).length ≤ maxContractIdBytes

theorem KindBuilder.bounded_empty : (KindBuilder.empty : KindBuilder E).Bounded := by
  constructor
  . intro version schemaId h
    cases h
  . intro current h
    cases h
  . intro source edge h
    cases h
  . exact Nat.zero_le _
  . exact Nat.zero_le _

theorem KindBuilder.Bounded.apply (h : kind.Bounded) (hfits : edit.Fits kind) (hedit : edit.Bounded)
    : (edit.apply kind).Bounded := by
  cases edit with
  | schema version schemaId =>
    constructor
    . intro version' schemaId' hget
      unfold KindBuilder.Edit.apply at hget
      dsimp only at hget
      rw [SortedMap.get?_insert] at hget
      split at hget
      . next hsame =>
        cases hget
        rw [hsame]
        exact hedit
      . exact h.schemas _ _ hget
    . exact h.current
    . exact h.upcasters
    . unfold KindBuilder.Edit.apply
      dsimp only
      cases hfits with
      | inl hsome =>
        rw [SortedMap.len_insert_of_some hsome]
        exact h.schemaCount
      | inr hnone =>
        rw [SortedMap.len_insert_of_none hnone.1]
        exact hnone.2
    . exact h.upcasterCount
  | current mapper =>
    constructor
    . exact h.schemas
    . intro current hcurrent
      cases hcurrent
      exact hedit
    . exact h.upcasters
    . exact h.schemaCount
    . exact h.upcasterCount
  | upcaster source edge adjacent =>
    constructor
    . exact h.schemas
    . exact h.current
    . intro source' edge' hget
      unfold KindBuilder.Edit.apply at hget
      dsimp only at hget
      rw [SortedMap.get?_insert] at hget
      split at hget
      . next hsame =>
        cases hget
        rw [hsame]
        exact hedit
      . exact h.upcasters _ _ hget
    . exact h.schemaCount
    . unfold KindBuilder.Edit.Fits at hfits
      unfold KindBuilder.Edit.apply
      dsimp only
      rw [SortedMap.len_insert_of_none hfits.1]
      omega

theorem length_of_validateKind (h : validateKind name = .ok ()) : (utf8 name).length ≤ maxKindBytes := by
  unfold validateKind at h
  dsimp only at h
  split at h
  . cases h
  . next hbytes =>
    simp only [Bool.not_eq_true', Bool.not_eq_false, Bool.and_eq_true, decide_eq_true_eq] at hbytes
    exact hbytes.2

theorem length_of_validateContractId {value : String} (h : validateContractId value = .ok ())
    : (utf8 value).length ≤ maxContractIdBytes := by
  unfold validateContractId at h
  dsimp only at h
  split at h
  . cases h
  . next hbytes =>
    simp only [Bool.or_eq_true, not_or, decide_eq_true_eq, not_lt] at hbytes
    exact hbytes.2

theorem bounds_of_validateSchema {T : Type} {schema : EventSchema T} (h : validateSchema schema = .ok ())
    : (utf8 schema.kind).length ≤ maxKindBytes ∧ schema.version ≤ maxSchemaVersion
      ∧ (utf8 schema.schemaId).length ≤ maxContractIdBytes := by
  unfold validateSchema at h
  split at h
  . cases h
  . next hkind =>
    split at h
    . cases h
    . next hversion =>
      split at h
      . cases h
      . next hschemaId =>
        unfold validVersion at hversion
        simp only [Bool.not_eq_true', Bool.not_eq_false, Bool.and_eq_true, decide_eq_true_eq] at hversion
        exact ⟨length_of_validateKind hkind, hversion.2, length_of_validateContractId hschemaId⟩

theorem Registration.Valid.bounded (h : registration.Valid) (codec : EventCodec E)
    : (utf8 registration.name).length ≤ maxKindBytes
      ∧ ∀ edit ∈ registration.edits codec, edit.Bounded := by
  cases registration with
  | current schema mappingId intoEvent =>
    obtain ⟨hschema, hmapping⟩ := h
    obtain ⟨hkind, hversion, hschemaId⟩ := bounds_of_validateSchema hschema
    refine ⟨hkind, ?_⟩
    unfold edits
    dsimp only
    rw [List.forall_mem_cons, List.forall_mem_singleton]
    exact ⟨⟨hversion, hschemaId⟩, hversion, length_of_validateContractId hmapping⟩
  | upcaster source target stepId upcast =>
    obtain ⟨hsource, htarget, hkind, hadjacent, hstep⟩ := h
    obtain ⟨hkind, hversion, hschemaId⟩ := bounds_of_validateSchema hsource
    obtain ⟨-, hversion', hschemaId'⟩ := bounds_of_validateSchema htarget
    refine ⟨hkind, ?_⟩
    unfold edits
    dsimp only
    rw [dif_pos hadjacent, List.forall_mem_cons, List.forall_mem_cons, List.forall_mem_singleton]
    exact ⟨⟨hversion, hschemaId⟩, ⟨hversion', hschemaId'⟩, hversion, hversion',
      length_of_validateContractId hstep⟩

theorem Registration.editKind_bounded {kind' : KindBuilder E} (hvalid : registration.Valid) (h : kind.Bounded)
    (hedit : registration.editKind codec kind = .ok kind')
    : kind'.Bounded := by
  have hbounded := (hvalid.bounded codec).2
  unfold Registration.editKind at hedit
  apply Except.foldlM_inv (P := KindBuilder.Bounded) _ h hedit
  intro edit hmem kind kind' hkind hrun
  obtain ⟨hfits, rfl⟩ := KindBuilder.Edit.run_ok.mp hrun
  exact hkind.apply hfits (hbounded edit hmem)

structure EventCatalogBuilder.Bounded (builder : EventCatalogBuilder E) : Prop where
  count : builder.kinds.len ≤ maxCatalogKinds
  kinds : ∀ name kind, builder.kinds.get? name = some kind →
    (utf8 name).length ≤ maxKindBytes ∧ kind.Bounded

theorem EventCatalogBuilder.Bounded.kindOf (h : builder.Bounded) (name : String)
    : (builder.kindOf name).Bounded := by
  unfold EventCatalogBuilder.kindOf
  cases hget : builder.kinds.get? name with
  | none => exact KindBuilder.bounded_empty
  | some kind => exact (h.kinds name kind hget).2

theorem EventCatalogBuilder.Bounded.step (h : builder.Bounded)
    (hrun : registration.run codec builder = .ok builder')
    : builder'.Bounded := by
  obtain ⟨hvalid, hkind⟩ := Registration.run_ok.mp hrun
  obtain ⟨hfits, kind, hedit, rfl⟩ := EventCatalogBuilder.onKind_ok.mp hkind
  constructor
  . dsimp only
    cases hget : builder.kinds.get? registration.name with
    | some found =>
      rw [SortedMap.len_insert_of_some hget]
      exact h.count
    | none =>
      unfold EventCatalogBuilder.Fits at hfits
      rw [hget, Option.isSome_none, or_iff_right Bool.false_ne_true] at hfits
      rw [SortedMap.len_insert_of_none hget]
      exact hfits
  . intro name kind' hget
    dsimp only at hget
    rw [SortedMap.get?_insert] at hget
    split at hget
    . next hsame =>
      cases hget
      rw [hsame]
      exact ⟨(hvalid.bounded codec).1, Registration.editKind_bounded hvalid (h.kindOf _) hedit⟩
    . exact h.kinds name kind' hget

theorem EventCatalogBuilder.bounded_of_build {registrations : List (Registration E)}
    (h : EventCatalogBuilder.build codec registrations = .ok builder)
    : builder.Bounded := by
  have hnew : (EventCatalogBuilder.new : EventCatalogBuilder E).Bounded := by
    constructor
    . exact Nat.zero_le _
    . intro name kind hget
      cases hget
  unfold EventCatalogBuilder.build at h
  exact Except.foldlM_inv (fun _ _ _ _ hbounded hrun => hbounded.step hrun) hnew h

end Bounds

section Identity

-- The two sides of an upcast, as the digest sees it.
structure Upcaster.Same (edge edge' : Upcaster) : Prop where
  target : edge.target = edge'.target
  stepId : edge.stepId = edge'.stepId

structure SealedKind.Same (kind : SealedKind E) (kind' : SealedKind E') : Prop where
  schemas : kind.schemas = kind'.schemas
  version : kind.current.version = kind'.current.version
  mappingId : kind.current.mappingId = kind'.current.mappingId
  upcasters : ∀ source, Option.Rel Upcaster.Same (kind.upcasters source) (kind'.upcasters source)

structure SealedEntry.Bounded (entry : SealedEntry E) : Prop where
  schemas : ∀ schema ∈ entry.schemas.entries, schema.1 < 256 ^ 4 ∧ (utf8 schema.2).length < 256 ^ 8
  version : entry.current.version < 256 ^ 4
  mappingId : (utf8 entry.current.mappingId).length < 256 ^ 8
  upcasters : ∀ edge ∈ entry.upcasters.entries, edge.1 < 256 ^ 4 ∧ edge.2.target < 256 ^ 4
    ∧ (utf8 edge.2.stepId).length < 256 ^ 8
  schemaCount : entry.schemas.len < 256 ^ 8
  upcasterCount : entry.upcasters.len < 256 ^ 8

variable {builder : EventCatalogBuilder E} {kinds : SortedMap String (SealedEntry E)}
  {kinds' : SortedMap String (SealedEntry E')}

theorem version_lt {version : Nat} (h : version ≤ maxSchemaVersion) : version < 256 ^ 4 :=
  lt_of_le_of_lt h (by decide)

theorem contractId_lt {length : Nat} (h : length ≤ maxContractIdBytes) : length < 256 ^ 8 :=
  lt_of_le_of_lt h (by decide)

theorem count_lt {count : Nat} (h : count ≤ maxSchemasPerKind) : count < 256 ^ 8 :=
  lt_of_le_of_lt h (by decide)

theorem SealedEntry.Of.bounded {kind : KindBuilder E} {entry : SealedEntry E} (h : entry.Of kind)
    (hkind : kind.Bounded)
    : entry.Bounded := by
  have hcurrent := hkind.current entry.current h.current
  constructor
  . intro schema hschema
    rw [h.schemas] at hschema
    obtain ⟨hversion, hlength⟩ := hkind.schemas schema.1 schema.2 (SortedMap.get?_eq_some.mpr hschema)
    exact ⟨version_lt hversion, contractId_lt hlength⟩
  . exact version_lt hcurrent.1
  . exact contractId_lt hcurrent.2
  . intro edge hedge
    rw [h.upcasters] at hedge
    obtain ⟨hsource, htarget, hlength⟩ :=
      hkind.upcasters edge.1 edge.2 (SortedMap.get?_eq_some.mpr hedge)
    exact ⟨version_lt hsource, version_lt htarget, contractId_lt hlength⟩
  . rw [h.schemas]
    exact count_lt hkind.schemaCount
  . rw [h.upcasters]
    exact count_lt hkind.upcasterCount

theorem schemaPreimage_inj {schema schema' : Nat × String} {x y : List UInt8}
    (hschema : schema.1 < 256 ^ 4 ∧ (utf8 schema.2).length < 256 ^ 8)
    (hschema' : schema'.1 < 256 ^ 4 ∧ (utf8 schema'.2).length < 256 ^ 8)
    (h : EventCatalogBuilder.schemaPreimage schema ++ x = EventCatalogBuilder.schemaPreimage schema' ++ y)
    : schema = schema' ∧ x = y := by
  unfold EventCatalogBuilder.schemaPreimage at h
  rw [List.append_assoc, List.append_assoc] at h
  obtain ⟨hversion, h⟩ := beBytes_append_inj hschema.1 hschema'.1 h
  obtain ⟨hid, h⟩ := lenPrefixed_append_inj hschema.2 hschema'.2 h
  exact ⟨Prod.ext hversion (utf8_inj hid), h⟩

theorem edgePreimage_inj {edge edge' : Nat × Upcaster} {x y : List UInt8}
    (hedge : edge.1 < 256 ^ 4 ∧ edge.2.target < 256 ^ 4 ∧ (utf8 edge.2.stepId).length < 256 ^ 8)
    (hedge' : edge'.1 < 256 ^ 4 ∧ edge'.2.target < 256 ^ 4 ∧ (utf8 edge'.2.stepId).length < 256 ^ 8)
    (h : EventCatalogBuilder.edgePreimage edge ++ x = EventCatalogBuilder.edgePreimage edge' ++ y)
    : (edge.1 = edge'.1 ∧ edge.2.Same edge'.2) ∧ x = y := by
  unfold EventCatalogBuilder.edgePreimage at h
  simp only [List.append_assoc] at h
  obtain ⟨hsource, h⟩ := beBytes_append_inj hedge.1 hedge'.1 h
  obtain ⟨htarget, h⟩ := beBytes_append_inj hedge.2.1 hedge'.2.1 h
  obtain ⟨hid, h⟩ := lenPrefixed_append_inj hedge.2.2 hedge'.2.2 h
  exact ⟨⟨hsource, htarget, utf8_inj hid⟩, h⟩

theorem kindPreimage_inj {entry : String × SealedEntry E} {entry' : String × SealedEntry E'} {x y : List UInt8}
    (hname : (utf8 entry.1).length < 256 ^ 8) (hname' : (utf8 entry'.1).length < 256 ^ 8)
    (hentry : entry.2.Bounded) (hentry' : entry'.2.Bounded)
    (h : EventCatalogBuilder.kindPreimage entry ++ x = EventCatalogBuilder.kindPreimage entry' ++ y)
    : (entry.1 = entry'.1 ∧ entry.2.kind.Same entry'.2.kind) ∧ x = y := by
  unfold EventCatalogBuilder.kindPreimage at h
  simp only [List.append_assoc] at h
  obtain ⟨hkind, h⟩ := lenPrefixed_append_inj hname hname' h
  obtain ⟨hversion, h⟩ := beBytes_append_inj hentry.version hentry'.version h
  obtain ⟨hmapping, h⟩ := lenPrefixed_append_inj hentry.mappingId hentry'.mappingId h
  obtain ⟨hcount, h⟩ := beBytes_append_inj hentry.schemaCount hentry'.schemaCount h
  obtain ⟨hschemas, h⟩ := entries_inj_of_length (R := Eq) hcount
    (fun a ha b hb _ _ => schemaPreimage_inj (hentry.schemas a ha) (hentry'.schemas b hb)) h
  obtain ⟨hcount', h⟩ := beBytes_append_inj hentry.upcasterCount hentry'.upcasterCount h
  obtain ⟨hedges, h⟩ := entries_inj_of_length (R := fun a b => a.1 = b.1 ∧ a.2.Same b.2) hcount'
    (fun a ha b hb _ _ => edgePreimage_inj (hentry.upcasters a ha) (hentry'.upcasters b hb)) h
  rw [List.forall₂_eq_eq_eq] at hschemas
  refine ⟨⟨utf8_inj hkind, ?_, hversion, utf8_inj hmapping, SortedMap.forall₂_get? hedges⟩, h⟩
  unfold SealedEntry.kind SortedMap.get?
  dsimp only
  rw [hschemas]

structure BoundedKinds (kinds : SortedMap String (SealedEntry E)) : Prop where
  count : kinds.len < 256 ^ 8
  entries : ∀ entry ∈ kinds.entries, (utf8 entry.1).length < 256 ^ 8 ∧ entry.2.Bounded

theorem len_insert_le {κ α : Type} [LinearOrder κ] {map : SortedMap κ α} {k : κ} {v : α}
    : (map.insert k v).len ≤ map.len + 1 := by
  cases hget : map.get? k with
  | none => exact le_of_eq (SortedMap.len_insert_of_none hget)
  | some found =>
    rw [SortedMap.len_insert_of_some hget]
    omega

theorem len_of_sealKind {entries : List (String × KindBuilder E)} {kinds kinds' : SortedMap String (SealedEntry E)}
    (h : entries.foldlM (fun kinds entry => (EventCatalogBuilder.sealKind entry.1 entry.2).bind
      fun kind => .ok (kinds.insert entry.1 kind)) kinds = .ok kinds')
    : kinds'.len ≤ kinds.len + entries.length := by
  induction entries generalizing kinds with
  | nil =>
    cases h
    omega
  | cons first rest ih =>
    rw [List.foldlM_cons, Except.bind_eq_ok] at h
    obtain ⟨next, hnext, h⟩ := h
    have hbind := Except.bind_eq_ok.mp hnext
    obtain ⟨entry, -, hnext⟩ := hbind
    cases hnext
    have hrest := ih h
    have hfirst := @len_insert_le _ _ _ kinds first.1 entry
    rw [List.length_cons]
    omega

theorem boundedKinds_of_sealKinds (hbounded : builder.Bounded) (h : builder.sealKinds = .ok kinds)
    : BoundedKinds kinds := by
  constructor
  . have hcount := hbounded.count
    have hfold := h
    unfold EventCatalogBuilder.sealKinds at hfold
    split at hfold
    . cases hfold
    . have hlen := len_of_sealKind hfold
      have hempty : (SortedMap.empty : SortedMap String (SealedEntry E)).len = 0 := rfl
      have hmax : maxCatalogKinds < 256 ^ 8 := by decide
      unfold SortedMap.len at *
      omega
  . intro entry hentry
    have hget := SortedMap.get?_eq_some.mpr hentry
    obtain ⟨hsome, hnone⟩ := sealKinds_ok h entry.1
    cases hkind : builder.kinds.get? entry.1 with
    | none =>
      rw [hnone hkind] at hget
      cases hget
    | some kind =>
      obtain ⟨found, hfound, hof⟩ := hsome kind hkind
      rw [hget] at hfound
      cases hfound
      obtain ⟨hname, hbound⟩ := hbounded.kinds entry.1 kind hkind
      exact ⟨lt_of_le_of_lt hname (by decide), hof.bounded hbound⟩

theorem same_of_schemaSetPreimage (hkinds : BoundedKinds kinds) (hkinds' : BoundedKinds kinds')
    (h : EventCatalogBuilder.schemaSetPreimage kinds = EventCatalogBuilder.schemaSetPreimage kinds')
    (name : String)
    : Option.Rel SealedKind.Same ((kinds.get? name).map SealedEntry.kind)
        ((kinds'.get? name).map SealedEntry.kind) := by
  unfold EventCatalogBuilder.schemaSetPreimage at h
  rw [List.append_cancel_left_eq] at h
  obtain ⟨hcount, h⟩ := beBytes_append_inj hkinds.count hkinds'.count h
  rw [← List.append_nil (kinds.entries.flatMap _), ← List.append_nil (kinds'.entries.flatMap _)] at h
  obtain ⟨hentries, -⟩ := entries_inj_of_length
    (R := fun a b => a.1 = b.1 ∧ a.2.kind.Same b.2.kind) hcount
    (fun a ha b hb _ _ => kindPreimage_inj (hkinds.entries a ha).1 (hkinds'.entries b hb).1
      (hkinds.entries a ha).2 (hkinds'.entries b hb).2) h
  have hrel := SortedMap.forall₂_get? (R := fun (a : SealedEntry E) (b : SealedEntry E') => a.kind.Same b.kind)
    hentries name
  generalize kinds.get? name = found at hrel ⊢
  generalize kinds'.get? name = found' at hrel ⊢
  cases hrel with
  | none => exact .none
  | some hsame => exact .some hsame

end Identity

section Result

variable {sha256 : Sha256}

def EventCatalogBuilder.digestPreimage (builder : EventCatalogBuilder E) : List UInt8 :=
  match builder.sealKinds with
  | .ok kinds => schemaSetPreimage kinds
  | .error _ => []

theorem sealCatalog_ok {builder : EventCatalogBuilder E} {catalog : SealedEventCatalog E}
    (h : builder.sealCatalog sha256 = .ok catalog)
    : ∃ kinds, builder.sealKinds = .ok kinds
        ∧ catalog = EventCatalogBuilder.sealedCatalog sha256 kinds
        ∧ builder.digestPreimage = EventCatalogBuilder.schemaSetPreimage kinds := by
  unfold EventCatalogBuilder.sealCatalog at h
  have hbind := Except.bind_eq_ok.mp h
  obtain ⟨kinds, hkinds, hcatalog⟩ := hbind
  cases hcatalog
  refine ⟨kinds, hkinds, rfl, ?_⟩
  unfold EventCatalogBuilder.digestPreimage
  rw [hkinds]

theorem sealed_catalog_decodes
    : (∀ (codec : EventCodec E) registrations builder catalog,
        EventCatalogBuilder.build codec registrations = .ok builder →
        builder.sealCatalog sha256 = .ok catalog →
        (∀ event, catalog.Decodes codec registrations event)
          ∧ (∀ registration ∈ registrations, registration.Applies codec)
          ∧ (∀ inputs histories event, Histories.Pure sha256 codec registrations inputs histories →
            event.payload ∈ inputs →
            catalog.decodeObserved (histories.stability sha256) event = catalog.decode event)
          ∧ ∀ registrations', registrations.Perm registrations' →
            ∃ builder', EventCatalogBuilder.build codec registrations' = .ok builder'
              ∧ builder'.sealCatalog sha256 = .ok catalog)
      ∧ (∀ (codec : EventCodec E) (codec' : EventCodec E') registrations registrations' builder builder'
          catalog catalog',
        EventCatalogBuilder.build codec registrations = .ok builder →
        EventCatalogBuilder.build codec' registrations' = .ok builder' →
        builder.sealCatalog sha256 = .ok catalog →
        builder'.sealCatalog sha256 = .ok catalog' →
        Set.InjOn sha256 {builder.digestPreimage, builder'.digestPreimage} →
        catalog.digest = catalog'.digest →
        ∀ name, Option.Rel SealedKind.Same (catalog.kinds name) (catalog'.kinds name)) := by
  constructor
  . intro codec registrations builder catalog hbuild hseal
    obtain ⟨kinds, hkinds, rfl, -⟩ := sealCatalog_ok hseal
    refine ⟨decodes_of_sealKinds hbuild hkinds, fun registration _ => registration.applies codec,
      fun _ _ _ hpure hpayload => decodeObserved_of_sealKinds hbuild hkinds hpure hpayload, ?_⟩
    intro registrations' hperm
    refine ⟨builder, ?_, hseal⟩
    unfold EventCatalogBuilder.build at hbuild ⊢
    exact Except.foldlM_perm (fun _ _ => Registration.commutes) hperm hbuild
  . intro codec codec' registrations registrations' builder builder' catalog catalog' hbuild hbuild'
      hseal hseal' hsha hdigest name
    obtain ⟨kinds, hkinds, rfl, hpreimage⟩ := sealCatalog_ok hseal
    obtain ⟨kinds', hkinds', rfl, hpreimage'⟩ := sealCatalog_ok hseal'
    have hsame : builder.digestPreimage = builder'.digestPreimage := by
      apply hsha (.inl rfl) (.inr rfl)
      rw [hpreimage, hpreimage']
      exact hdigest
    rw [hpreimage, hpreimage'] at hsame
    exact same_of_schemaSetPreimage
      (boundedKinds_of_sealKinds (EventCatalogBuilder.bounded_of_build hbuild) hkinds)
      (boundedKinds_of_sealKinds (EventCatalogBuilder.bounded_of_build hbuild') hkinds') hsame name

def flagSchema (version : Nat) (schemaId : String) : EventSchema Bool where
  kind := "app_flag"
  version := version
  schemaId := schemaId
  serialize flag := .ok (if flag then ⟨[116], by decide⟩ else ⟨[102], by decide⟩)
  deserialize json := if json.bytes = [116] then .ok true else .ok false
  eq flag flag' := flag == flag'

def flagCodec : EventCodec Bool := ⟨(flagSchema 2 "flag/2").serialize, fun flag flag' => flag == flag'⟩

def flagRegistrations : List (Registration Bool) :=
  [.current (flagSchema 2 "flag/2") "flag-event" some,
    .upcaster (flagSchema 1 "flag/1") (flagSchema 2 "flag/2") "flip" (fun flag => .ok !flag)]

def flagJson (flag : Bool) : CanonicalJson := if flag then ⟨[116], by decide⟩ else ⟨[102], by decide⟩

def oldFlag : Event := ⟨0, "app_flag", 1, flagJson true, genesisHash, genesisHash⟩

-- The catalog has decoded an old event before.
def flagHistories : Histories :=
  ⟨fun _ _ => [(flagJson true, flagJson false)], fun _ => [(flagJson false, flagJson false)]⟩

theorem flagHistories_pure
    : flagHistories.Pure sha256Digest flagCodec flagRegistrations {flagJson true, flagJson false} := by
  refine ⟨?_, ?_, ?_, ?_⟩
  . rw [Set.injOn_pair]
    intro hsame
    exact absurd hsame (by decide +kernel)
  . intro registration hmem json hjson output hupcasts
    cases hmem with
    | head => cases hupcasts
    | tail _ hmem =>
      cases List.mem_singleton.mp hmem
      have hresult := upcasts_iff.mp hupcasts
      rcases hjson with rfl | rfl
      . cases hresult
        exact .inr rfl
      . cases hresult
        exact .inl rfl
  . intro registration hmem name source step hedge call hcall
    cases List.mem_singleton.mp hcall
    cases hmem with
    | head => cases hedge
    | tail _ hmem =>
      cases List.mem_singleton.mp hmem
      exact ⟨.inl rfl, upcasts_iff.mpr rfl⟩
  . intro registration hmem name current hmapper call hcall
    cases List.mem_singleton.mp hcall
    cases hmem with
    | head => exact ⟨.inr rfl, false, maps_iff.mpr rfl⟩
    | tail _ hmem =>
      cases List.mem_singleton.mp hmem
      cases hmapper

theorem sealed_catalog_decodes_flag
    : ∃ builder catalog, EventCatalogBuilder.build flagCodec flagRegistrations = .ok builder
        ∧ builder.sealCatalog sha256Digest = .ok catalog
        ∧ (∀ event, catalog.Decodes flagCodec flagRegistrations event)
        ∧ catalog.decodeObserved (flagHistories.stability sha256Digest) oldFlag = .ok false
        ∧ (∃ builder', EventCatalogBuilder.build flagCodec flagRegistrations.reverse = .ok builder'
          ∧ builder'.sealCatalog sha256Digest = .ok catalog)
        ∧ ∀ name, Option.Rel SealedKind.Same (catalog.kinds name) (catalog.kinds name) := by
  have hran : ((EventCatalogBuilder.build flagCodec flagRegistrations).toOption.any (fun builder =>
      (builder.sealCatalog sha256Digest).toOption.any (fun catalog => catalog.decode oldFlag = .ok false))) = true := by
    decide
  obtain ⟨builder, hbuilder, hran⟩ := (Option.any_eq_true _ _).mp hran
  obtain ⟨catalog, hcatalog, hold⟩ := (Option.any_eq_true _ _).mp hran
  rw [Except.toOption_eq_some] at hbuilder hcatalog
  have hmain := @sealed_catalog_decodes Bool Bool sha256Digest
  obtain ⟨hdecodes, -, hobserved, hperm⟩ := hmain.1 flagCodec flagRegistrations builder catalog hbuilder hcatalog
  have hinj : Set.InjOn sha256Digest {builder.digestPreimage, builder.digestPreimage} := by
    rw [Set.pair_eq_singleton]
    exact Set.injOn_singleton _ _
  have hsame := hmain.2 flagCodec flagCodec flagRegistrations flagRegistrations builder
    builder catalog catalog hbuilder hbuilder hcatalog hcatalog hinj rfl
  exact ⟨builder, catalog, hbuilder, hcatalog, hdecodes,
    (hobserved _ _ oldFlag flagHistories_pure (.inl rfl)).trans (of_decide_eq_true hold),
    hperm _ (List.reverse_perm _).symm, hsame⟩

end Result

end Pliego
