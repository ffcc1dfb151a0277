import Pliego.Log.Sealing

/-!
What registrations that fail leave in a catalog builder, and when sealing notices it.
-/

namespace Pliego

variable {E : Type} {codec : EventCodec E}

namespace KindBuilder

-- The edits of a call in their order. What is done before the one that fails stays.
def editAll (name : String) (edits : List (Edit E)) (kind : KindBuilder E)
    : KindBuilder E × Except CatalogBuildError Unit :=
  match edits with
  | [] => (kind, .ok ())
  | edit :: rest =>
    match edit.run name kind with
    | .error error => (kind, .error error)
    | .ok kind => editAll name rest kind

end KindBuilder

namespace EventCatalogBuilder

variable {S T : Type}

def onEntry (name : String) (edits : List (KindBuilder.Edit E)) (builder : EventCatalogBuilder E)
    : EventCatalogBuilder E × Except CatalogBuildError Unit :=
  if (builder.kinds.get? name).isNone && decide (maxCatalogKinds ≤ builder.kinds.len) then
    (builder, .error .tooManyKinds)
  else
    let edited := KindBuilder.editAll name edits (builder.kindOf name)
    (⟨builder.kinds.insert name edited.1⟩, edited.2)

-- `register_current` with the builder as it leaves it.
def callCurrent (codec : EventCodec E) (schema : EventSchema T) (mappingId : String) (intoEvent : T → Option E)
    (builder : EventCatalogBuilder E) : EventCatalogBuilder E × Except CatalogBuildError Unit :=
  match (validateSchema schema).mapError .invalidSchema with
  | .error error => (builder, .error error)
  | .ok () =>
    match (validateContractId mappingId).mapError .invalidMappingId with
    | .error error => (builder, .error error)
    | .ok () =>
      builder.onEntry schema.kind
        [.schema schema.version schema.schemaId, .current (currentSchema codec schema mappingId intoEvent)]

-- `register_upcaster` with the builder as it leaves it.
def callUpcaster (source : EventSchema S) (target : EventSchema T) (stepId : String) (upcast : S → Attempt String T)
    (builder : EventCatalogBuilder E) : EventCatalogBuilder E × Except CatalogBuildError Unit :=
  match (validateSchema source).mapError .invalidSchema with
  | .error error => (builder, .error error)
  | .ok () =>
    match (validateSchema target).mapError .invalidSchema with
    | .error error => (builder, .error error)
    | .ok () =>
      if source.kind ≠ target.kind then
        (builder, .error (.crossKindUpcast source.kind target.kind))
      else if hadjacent : target.version = source.version + 1 then
        match (validateContractId stepId).mapError .invalidStepId with
        | .error error => (builder, .error error)
        | .ok () =>
          builder.onEntry source.kind
            [.schema source.version source.schemaId, .schema target.version target.schemaId,
              .upcaster source.version (upcaster source target stepId upcast) hadjacent]
      else
        (builder, .error (.nonAdjacentUpcast source.kind source.version target.version))

end EventCatalogBuilder

def Registration.call (codec : EventCodec E) (builder : EventCatalogBuilder E) (registration : Registration E)
    : EventCatalogBuilder E × Except CatalogBuildError Unit :=
  match registration with
  | .current schema mappingId intoEvent => builder.callCurrent codec schema mappingId intoEvent
  | .upcaster source target stepId upcast => builder.callUpcaster source target stepId upcast

inductive EventCatalogBuilder.Reached (codec : EventCodec E) : EventCatalogBuilder E → Prop where
  | new : Reached codec .new
  | call {builder : EventCatalogBuilder E} (hbuilder : Reached codec builder) (registration : Registration E)
    : Reached codec (registration.call codec builder).1

section Calls

variable {builder after : EventCatalogBuilder E} {registration : Registration E} {kind : KindBuilder E}

def kept (called : EventCatalogBuilder E × Except CatalogBuildError Unit)
    : Except CatalogBuildError (EventCatalogBuilder E) :=
  called.2.bind fun _ => .ok called.1

theorem editAll_bind {name : String} {edits : List (KindBuilder.Edit E)}
    : ((KindBuilder.editAll name edits kind).2.bind fun _ => .ok (KindBuilder.editAll name edits kind).1)
      = edits.foldlM (fun kind edit => edit.run name kind) kind := by
  induction edits generalizing kind with
  | nil => rfl
  | cons edit rest ih =>
    unfold KindBuilder.editAll
    rw [List.foldlM_cons]
    cases edit.run name kind with
    | error error => rfl
    | ok kind => exact ih

theorem kept_onEntry {name : String} {edits : List (KindBuilder.Edit E)}
    : kept (builder.onEntry name edits)
      = builder.onKind name (fun kind => edits.foldlM (fun kind edit => edit.run name kind) kind) := by
  unfold kept EventCatalogBuilder.onEntry EventCatalogBuilder.onKind
  split
  . rfl
  . dsimp only
    rw [← editAll_bind]
    unfold EventCatalogBuilder.kindOf
    cases (KindBuilder.editAll name edits ((builder.kinds.get? name).getD .empty)).2 with
    | error error => rfl
    | ok done => rfl

theorem kept_call : kept (registration.call codec builder) = registration.run codec builder := by
  unfold Registration.call Registration.run
  cases registration with
  | current schema mappingId intoEvent =>
    dsimp only
    unfold EventCatalogBuilder.callCurrent EventCatalogBuilder.registerCurrent
    cases (validateSchema schema).mapError CatalogBuildError.invalidSchema with
    | error error => rfl
    | ok done =>
      cases (validateContractId mappingId).mapError CatalogBuildError.invalidMappingId with
      | error error => rfl
      | ok done =>
        dsimp only
        rw [kept_onEntry]
        simp only [List.foldlM_cons, List.foldlM_nil, bind_pure]
        rfl
  | upcaster source target stepId upcast =>
    dsimp only
    unfold EventCatalogBuilder.callUpcaster EventCatalogBuilder.registerUpcaster
    cases (validateSchema source).mapError CatalogBuildError.invalidSchema with
    | error error => rfl
    | ok done =>
      cases (validateSchema target).mapError CatalogBuildError.invalidSchema with
      | error error => rfl
      | ok done =>
        dsimp only
        split
        . rfl
        . split
          . cases (validateContractId stepId).mapError CatalogBuildError.invalidStepId with
            | error error => rfl
            | ok done =>
              dsimp only
              rw [kept_onEntry]
              simp only [List.foldlM_cons, List.foldlM_nil, bind_pure]
              rfl
          . rfl

end Calls

section Rooted

variable {kind : KindBuilder E} {name : String} {version : Nat} {schemaId : String}

-- What the current schema and the upcasters name is among the schemas.
structure KindBuilder.Rooted (kind : KindBuilder E) : Prop where
  current : ∀ current, kind.current = some current → (kind.schemas.get? current.version).isSome = true
  edges : ∀ source edge, kind.upcasters.get? source = some edge
    → (kind.schemas.get? source).isSome = true ∧ (kind.schemas.get? (source + 1)).isSome = true
  room : kind.schemas.len ≤ maxSchemasPerKind

def KindBuilder.withSchema (kind : KindBuilder E) (version : Nat) (schemaId : String) : KindBuilder E :=
  { kind with schemas := kind.schemas.insert version schemaId }

theorem KindBuilder.Rooted.empty : (KindBuilder.empty : KindBuilder E).Rooted :=
  ⟨nofun, nofun, Nat.zero_le _⟩

theorem isSome_insert {version' : Nat} (h : (kind.schemas.get? version').isSome = true)
    : ((kind.withSchema version schemaId).schemas.get? version').isSome = true := by
  unfold KindBuilder.withSchema
  dsimp only
  rw [SortedMap.get?_insert]
  split
  . rfl
  . exact h

theorem withSchema_self (h : kind.schemas.get? version = some schemaId) : kind.withSchema version schemaId = kind := by
  unfold KindBuilder.withSchema
  rw [SortedMap.insert_self h]

theorem KindBuilder.Rooted.withSchema (h : kind.Rooted) (hfits : Edit.Fits kind (.schema version schemaId))
    : (kind.withSchema version schemaId).Rooted := by
  refine ⟨fun current hcurrent => isSome_insert (h.current current hcurrent), ?_, ?_⟩
  . intro source edge hedge
    have hknown := h.edges source edge hedge
    exact ⟨isSome_insert hknown.1, isSome_insert hknown.2⟩
  . cases hfits with
    | inl hsame =>
      rw [withSchema_self hsame]
      exact h.room
    | inr hfresh =>
      unfold KindBuilder.withSchema
      dsimp only
      rw [SortedMap.len_insert_of_none hfresh.1]
      exact hfresh.2

theorem run_schema
    : (KindBuilder.Edit.schema version schemaId).run name kind = .ok (kind.withSchema version schemaId)
        ∧ KindBuilder.Edit.Fits kind (.schema version schemaId)
      ∨ (∃ error, (KindBuilder.Edit.schema version schemaId).run name kind = .error error)
        ∧ ¬ KindBuilder.Edit.Fits kind (.schema version schemaId) := by
  cases hrun : (KindBuilder.Edit.schema version schemaId).run name kind with
  | error error =>
    refine .inr ⟨⟨error, rfl⟩, fun hfits => ?_⟩
    have hok := (@KindBuilder.Edit.run_ok E name kind _ _).mpr ⟨hfits, rfl⟩
    rw [hrun] at hok
    cases hok
  | ok after =>
    obtain ⟨hfits, rfl⟩ := KindBuilder.Edit.run_ok.mp hrun
    exact .inl ⟨rfl, hfits⟩

-- The version that a call leaves behind when it fails.
def Registration.Leaves (registration : Registration E) (kind : KindBuilder E) (version : Nat) : Prop :=
  kind.schemas.get? version = none ∧ kind.schemas.len < maxSchemasPerKind
    ∧ match registration with
      | .current schema _ _ => version = schema.version ∧ kind.current.isSome = true
      | .upcaster source target _ _ =>
        version = source.version
          ∧ match kind.schemas.get? target.version with
            | some existing => existing ≠ target.schemaId
            | none => maxSchemasPerKind ≤ kind.schemas.len + 1

-- What a call does to its kind: all of it, nothing, or one schema that it leaves behind.
inductive Registration.Does (registration : Registration E) (kind : KindBuilder E)
    (edited : KindBuilder E × Except CatalogBuildError Unit) : Prop where
  | all (hok : edited.2 = .ok ())
  | nothing (herror : ∃ error, edited.2 = .error error) (hsame : edited.1 = kind)
    (hnone : ∀ version, ¬ registration.Leaves kind version)
  | leaves (herror : ∃ error, edited.2 = .error error) (version : Nat) (schemaId : String)
    (hleaves : registration.Leaves kind version) (hleft : edited.1 = kind.withSchema version schemaId)

theorem current_does {T : Type} {schema : EventSchema T} {mappingId : String} {intoEvent : T → Option E}
    {mapper : CurrentSchema E}
    : (Registration.current schema mappingId intoEvent).Does kind
        (KindBuilder.editAll name [.schema schema.version schema.schemaId, .current mapper] kind) := by
  unfold KindBuilder.editAll
  cases @run_schema E kind name schema.version schema.schemaId with
  | inr hfailed =>
    obtain ⟨⟨error, hrun⟩, hfits⟩ := hfailed
    rw [hrun]
    refine .nothing ⟨error, rfl⟩ rfl ?_
    intro version hleaves
    obtain ⟨hfresh, hroom, rfl, -⟩ := hleaves
    exact hfits (.inr ⟨hfresh, hroom⟩)
  | inl hran =>
    obtain ⟨hrun, hfits⟩ := hran
    rw [hrun]
    dsimp only
    unfold KindBuilder.editAll KindBuilder.Edit.run KindBuilder.setCurrent
    have hkept : (kind.withSchema schema.version schema.schemaId).current = kind.current := rfl
    dsimp only
    rw [hkept]
    cases hcurrent : kind.current with
    | none => exact .all rfl
    | some current =>
      cases hfits with
      | inl hsame =>
        refine .nothing ⟨_, rfl⟩ (withSchema_self hsame) ?_
        intro version hleaves
        obtain ⟨hfresh, -, rfl, -⟩ := hleaves
        rw [hsame] at hfresh
        cases hfresh
      | inr hfresh =>
        refine .leaves ⟨_, rfl⟩ schema.version schema.schemaId ⟨hfresh.1, hfresh.2, rfl, ?_⟩ rfl
        rw [hcurrent]
        rfl

theorem current_rooted (h : kind.Rooted) {mapper : CurrentSchema E}
    : (KindBuilder.editAll name [.schema mapper.version schemaId, .current mapper] kind).1.Rooted := by
  unfold KindBuilder.editAll
  cases @run_schema E kind name mapper.version schemaId with
  | inr hfailed =>
    obtain ⟨⟨error, hrun⟩, -⟩ := hfailed
    rw [hrun]
    exact h
  | inl hran =>
    obtain ⟨hrun, hfits⟩ := hran
    rw [hrun]
    dsimp only
    have hrooted := h.withSchema hfits
    unfold KindBuilder.editAll KindBuilder.Edit.run KindBuilder.setCurrent
    dsimp only
    cases (kind.withSchema mapper.version schemaId).current with
    | some current => exact hrooted
    | none =>
      unfold KindBuilder.editAll
      refine ⟨?_, hrooted.edges, hrooted.room⟩
      intro current hcurrent
      cases hcurrent
      unfold KindBuilder.withSchema
      dsimp only
      rw [SortedMap.get?_insert, if_pos rfl]
      rfl

theorem KindBuilder.Rooted.full (h : kind.Rooted) (hfull : maxSchemasPerKind - 1 ≤ kind.upcasters.len)
    : maxSchemasPerKind ≤ kind.schemas.len := by
  have hmax : maxSchemasPerKind = 1024 := rfl
  have hsorted := kind.upcasters.keys_sorted
  have hlen : kind.upcasters.keys.length = kind.upcasters.len := List.length_map _
  have hlen' : kind.schemas.keys.length = kind.schemas.len := List.length_map _
  have hne : kind.upcasters.keys ≠ [] := by
    rw [← List.length_pos_iff]
    omega
  have hedge : ∀ source ∈ kind.upcasters.keys, source ∈ kind.schemas.keys ∧ source + 1 ∈ kind.schemas.keys := by
    intro source hsource
    obtain ⟨edge, hedge⟩ := Option.isSome_iff_exists.mp (SortedMap.mem_keys.mp hsource)
    rw [SortedMap.mem_keys, SortedMap.mem_keys]
    exact h.edges source edge hedge
  -- The target of the last upcaster is one version more.
  have hlast : ∀ source ∈ kind.upcasters.keys, source < kind.upcasters.keys.getLast hne + 1 := by
    intro source hsource
    rw [← List.dropLast_append_getLast hne, List.pairwise_append] at hsorted
    rw [← List.dropLast_append_getLast hne, List.mem_append, List.mem_singleton] at hsource
    cases hsource with
    | inl hbefore =>
      have hlt := hsorted.2.2 source hbefore _ (List.mem_singleton_self _)
      omega
    | inr hsame => omega
  have hnodup : (kind.upcasters.keys ++ [kind.upcasters.keys.getLast hne + 1]).Nodup := by
    rw [List.nodup_append]
    refine ⟨hsorted.imp (fun hlt => ne_of_lt hlt), List.nodup_singleton _, ?_⟩
    intro source hsource target htarget
    rw [List.mem_singleton] at htarget
    rw [htarget]
    exact ne_of_lt (hlast source hsource)
  have hsubset : kind.upcasters.keys ++ [kind.upcasters.keys.getLast hne + 1] ⊆ kind.schemas.keys := by
    intro version hversion
    rw [List.mem_append, List.mem_singleton] at hversion
    cases hversion with
    | inl hsource => exact (hedge version hsource).1
    | inr htarget =>
      rw [htarget]
      exact (hedge _ (List.getLast_mem hne)).2
  have hcount := (List.subperm_of_subset hnodup hsubset).length_le
  rw [List.length_append, List.length_singleton] at hcount
  omega

theorem upcaster_does {S T : Type} {source : EventSchema S} {target : EventSchema T} {stepId : String}
    {upcast : S → Attempt String T} {edge : Upcaster} {hadjacent : edge.target = source.version + 1}
    (hrooted : kind.Rooted) (htarget : target.version = source.version + 1)
    : (Registration.upcaster (E := E) source target stepId upcast).Does kind
        (KindBuilder.editAll name [.schema source.version source.schemaId, .schema target.version target.schemaId,
          .upcaster source.version edge hadjacent] kind) := by
  unfold KindBuilder.editAll
  cases @run_schema E kind name source.version source.schemaId with
  | inr hfailed =>
    obtain ⟨⟨error, hrun⟩, hfits⟩ := hfailed
    rw [hrun]
    refine .nothing ⟨error, rfl⟩ rfl ?_
    intro version hleaves
    obtain ⟨hfresh, hroom, rfl, -⟩ := hleaves
    exact hfits (.inr ⟨hfresh, hroom⟩)
  | inl hran =>
    obtain ⟨hrun, hfits⟩ := hran
    rw [hrun]
    dsimp only
    unfold KindBuilder.editAll
    have hother : (kind.withSchema source.version source.schemaId).schemas.get? target.version
        = kind.schemas.get? target.version := by
      unfold KindBuilder.withSchema
      dsimp only
      rw [SortedMap.get?_insert, if_neg (by omega)]
    cases @run_schema E (kind.withSchema source.version source.schemaId) name target.version target.schemaId with
    | inr hfailed =>
      obtain ⟨⟨error, hrun⟩, htarget'⟩ := hfailed
      rw [hrun]
      dsimp only
      unfold KindBuilder.Edit.Fits at htarget'
      dsimp only at htarget'
      rw [hother] at htarget'
      cases hfits with
      | inl hsame =>
        refine .nothing ⟨error, rfl⟩ (withSchema_self hsame) ?_
        intro version hleaves
        obtain ⟨hfresh, -, rfl, -⟩ := hleaves
        rw [hsame] at hfresh
        cases hfresh
      | inr hfresh =>
        refine .leaves ⟨error, rfl⟩ source.version source.schemaId ⟨hfresh.1, hfresh.2, rfl, ?_⟩ rfl
        cases hget : kind.schemas.get? target.version with
        | some existing =>
          intro hexisting
          rw [hget, hexisting] at htarget'
          exact htarget' (.inl rfl)
        | none =>
          rw [hget] at htarget'
          unfold KindBuilder.withSchema at htarget'
          dsimp only at htarget'
          rw [SortedMap.len_insert_of_none hfresh.1] at htarget'
          by_contra hroom
          exact htarget' (.inr ⟨rfl, by omega⟩)
    | inl hran =>
      obtain ⟨hrun, htarget'⟩ := hran
      rw [hrun]
      dsimp only
      unfold KindBuilder.editAll
      cases hlast : (KindBuilder.Edit.upcaster source.version edge hadjacent).run name
          ((kind.withSchema source.version source.schemaId).withSchema target.version target.schemaId) with
      | ok after => exact .all rfl
      | error error =>
        dsimp only
        unfold KindBuilder.Edit.Fits at hfits htarget'
        dsimp only at hfits htarget'
        rw [hother] at htarget'
        have hknown : kind.schemas.get? source.version = some source.schemaId
            ∧ kind.schemas.get? target.version = some target.schemaId := by
          cases hedge : kind.upcasters.get? source.version with
          | some existing =>
            have hsome := hrooted.edges source.version existing hedge
            rw [← htarget] at hsome
            constructor
            . apply hfits.resolve_right
              intro hfresh
              rw [hfresh.1] at hsome
              cases hsome.1
            . apply htarget'.resolve_right
              intro hfresh
              rw [hfresh.1] at hsome
              cases hsome.2
          | none =>
            have hfull : maxSchemasPerKind - 1 ≤ kind.upcasters.len := by
              by_contra hroom
              have hok := (@KindBuilder.Edit.run_ok E name
                ((kind.withSchema source.version source.schemaId).withSchema target.version target.schemaId) _
                (.upcaster source.version edge hadjacent)).mpr ⟨⟨hedge, not_le.mp hroom⟩, rfl⟩
              rw [hlast] at hok
              cases hok
            have hnoroom := hrooted.full hfull
            have hsource := hfits.resolve_right (fun hfresh => absurd hfresh.2 (not_lt.mpr hnoroom))
            refine ⟨hsource, htarget'.resolve_right (fun hfresh => ?_)⟩
            rw [withSchema_self hsource] at hfresh
            exact absurd hfresh.2 (not_lt.mpr hnoroom)
        refine .nothing ⟨error, rfl⟩ ?_ ?_
        . rw [withSchema_self hknown.1, withSchema_self hknown.2]
        . intro version hleaves
          obtain ⟨hfresh, -, rfl, -⟩ := hleaves
          rw [hknown.1] at hfresh
          cases hfresh

theorem upcaster_rooted (h : kind.Rooted) {source : Nat} {targetId : String} {edge : Upcaster}
    {hadjacent : edge.target = source + 1}
    : (KindBuilder.editAll name [.schema source schemaId, .schema (source + 1) targetId,
        .upcaster source edge hadjacent] kind).1.Rooted := by
  unfold KindBuilder.editAll
  cases @run_schema E kind name source schemaId with
  | inr hfailed =>
    obtain ⟨⟨error, hrun⟩, -⟩ := hfailed
    rw [hrun]
    exact h
  | inl hran =>
    obtain ⟨hrun, hfits⟩ := hran
    rw [hrun]
    dsimp only
    have hrooted := h.withSchema hfits
    unfold KindBuilder.editAll
    cases @run_schema E (kind.withSchema source schemaId) name (source + 1) targetId with
    | inr hfailed =>
      obtain ⟨⟨error, hrun⟩, -⟩ := hfailed
      rw [hrun]
      exact hrooted
    | inl hran =>
      obtain ⟨hrun, hfits'⟩ := hran
      rw [hrun]
      dsimp only
      have hrooted' := hrooted.withSchema hfits'
      unfold KindBuilder.editAll
      cases hlast : (KindBuilder.Edit.upcaster source edge hadjacent).run name
          ((kind.withSchema source schemaId).withSchema (source + 1) targetId) with
      | error error => exact hrooted'
      | ok after =>
        obtain ⟨-, rfl⟩ := KindBuilder.Edit.run_ok.mp hlast
        dsimp only
        unfold KindBuilder.editAll KindBuilder.Edit.apply
        refine ⟨hrooted'.current, ?_, hrooted'.room⟩
        intro other edge' hedge
        dsimp only at hedge ⊢
        rw [SortedMap.get?_insert] at hedge
        split at hedge
        . next hsame =>
          rw [hsame]
          refine ⟨isSome_insert ?_, ?_⟩
          . unfold KindBuilder.withSchema
            dsimp only
            rw [SortedMap.get?_insert, if_pos rfl]
            rfl
          . unfold KindBuilder.withSchema
            dsimp only
            rw [SortedMap.get?_insert, if_pos rfl]
            rfl
        . exact hrooted'.edges other edge' hedge

end Rooted

section Builders

variable {builder : EventCatalogBuilder E} {registration : Registration E} {name : String}

def EventCatalogBuilder.Rooted (builder : EventCatalogBuilder E) : Prop :=
  ∀ name kind, builder.kinds.get? name = some kind → kind.Rooted

theorem EventCatalogBuilder.Rooted.kindOf (h : builder.Rooted) (name : String) : (builder.kindOf name).Rooted := by
  unfold EventCatalogBuilder.kindOf
  cases hget : builder.kinds.get? name with
  | none => exact .empty
  | some kind => exact h name kind hget

theorem EventCatalogBuilder.Rooted.insert (h : builder.Rooted) {kind : KindBuilder E} (hkind : kind.Rooted)
    : EventCatalogBuilder.Rooted ⟨builder.kinds.insert name kind⟩ := by
  intro other found hfound
  dsimp only at hfound
  rw [SortedMap.get?_insert] at hfound
  split at hfound
  . cases hfound
    exact hkind
  . exact h other found hfound

theorem run_schema_empty {version : Nat} {schemaId : String}
    : (KindBuilder.Edit.schema version schemaId).run name (.empty : KindBuilder E)
      = .ok (KindBuilder.empty.withSchema version schemaId) :=
  KindBuilder.Edit.run_ok.mpr ⟨.inr ⟨rfl, (by decide : 0 < maxSchemasPerKind)⟩, rfl⟩

theorem current_empty {version : Nat} {schemaId : String} {mapper : CurrentSchema E}
    : (KindBuilder.editAll name [.schema version schemaId, .current mapper] .empty).2 = .ok () := by
  unfold KindBuilder.editAll
  rw [run_schema_empty]
  rfl

theorem upcaster_empty {version target : Nat} {schemaId targetId : String} {edge : Upcaster}
    {hadjacent : edge.target = version + 1} (htarget : target = version + 1)
    : (KindBuilder.editAll name [.schema version schemaId, .schema target targetId, .upcaster version edge hadjacent]
        (.empty : KindBuilder E)).2 = .ok () := by
  unfold KindBuilder.editAll
  rw [run_schema_empty]
  dsimp only
  unfold KindBuilder.editAll
  have hfits : KindBuilder.Edit.Fits (KindBuilder.empty.withSchema version schemaId : KindBuilder E)
      (.schema target targetId) := by
    unfold KindBuilder.withSchema
    refine .inr ⟨?_, ?_⟩
    . dsimp only
      rw [SortedMap.get?_insert, if_neg (by omega)]
      rfl
    . dsimp only
      rw [SortedMap.len_insert_of_none rfl]
      exact (by decide : 1 < maxSchemasPerKind)
  rw [KindBuilder.Edit.run_ok.mpr ⟨hfits, rfl⟩]
  rfl

theorem onEntry_cases {edits : List (KindBuilder.Edit E)}
    : builder.onEntry name edits = (builder, .error .tooManyKinds) ∧ builder.kinds.get? name = none
      ∨ builder.onEntry name edits = (⟨builder.kinds.insert name (KindBuilder.editAll name edits (builder.kindOf name)).1⟩,
        (KindBuilder.editAll name edits (builder.kindOf name)).2) := by
  unfold EventCatalogBuilder.onEntry
  split
  . next hfull =>
    rw [Bool.and_eq_true, Option.isNone_iff_eq_none] at hfull
    exact .inl ⟨rfl, hfull.1⟩
  . exact .inr rfl

theorem call_cases (hrooted : builder.Rooted)
    : (∃ error, registration.call codec builder = (builder, .error error))
        ∧ (registration.Valid → builder.kinds.get? registration.name = none)
      ∨ ∃ edited, registration.Valid
        ∧ registration.call codec builder = (⟨builder.kinds.insert registration.name edited.1⟩, edited.2)
        ∧ registration.Does (builder.kindOf registration.name) edited ∧ edited.1.Rooted
        ∧ (builder.kinds.get? registration.name = none → edited.2 = .ok ()) := by
  have hempty : ∀ {name}, builder.kinds.get? name = none → builder.kindOf name = .empty := by
    intro name hnone
    unfold EventCatalogBuilder.kindOf
    rw [hnone]
    rfl
  cases registration with
  | current schema mappingId intoEvent =>
    unfold Registration.call Registration.Valid Registration.name
    dsimp only
    unfold EventCatalogBuilder.callCurrent
    cases hschema : validateSchema schema with
    | error error => exact .inl ⟨⟨_, rfl⟩, fun hvalid => nomatch hvalid.1⟩
    | ok done =>
      cases hmapping : validateContractId mappingId with
      | error error => exact .inl ⟨⟨_, rfl⟩, fun hvalid => nomatch hvalid.2⟩
      | ok done =>
        cases @onEntry_cases E builder schema.kind [.schema schema.version schema.schemaId,
            .current (EventCatalogBuilder.currentSchema codec schema mappingId intoEvent)] with
        | inl hfull => exact .inl ⟨⟨_, hfull.1⟩, fun _ => hfull.2⟩
        | inr hedited =>
          refine .inr ⟨_, ⟨rfl, rfl⟩, hedited, current_does, ?_, ?_⟩
          . exact @current_rooted E (builder.kindOf schema.kind) schema.kind schema.schemaId
              (hrooted.kindOf schema.kind) (EventCatalogBuilder.currentSchema codec schema mappingId intoEvent)
          . intro hnone
            rw [hempty hnone]
            exact current_empty
  | upcaster source target stepId upcast =>
    unfold Registration.call Registration.Valid Registration.name
    dsimp only
    unfold EventCatalogBuilder.callUpcaster
    cases hsource : validateSchema source with
    | error error => exact .inl ⟨⟨_, rfl⟩, fun hvalid => nomatch hvalid.1⟩
    | ok done =>
      cases htarget : validateSchema target with
      | error error => exact .inl ⟨⟨_, rfl⟩, fun hvalid => nomatch hvalid.2.1⟩
      | ok done =>
        dsimp only [Except.mapError]
        split
        . next hcross => exact .inl ⟨⟨_, rfl⟩, fun hvalid => absurd hvalid.2.2.1 hcross⟩
        . next hkind =>
          rw [ne_eq, not_not] at hkind
          split
          . next hadjacent =>
            cases hstep : validateContractId stepId with
            | error error => exact .inl ⟨⟨_, rfl⟩, fun hvalid => nomatch hvalid.2.2.2.2⟩
            | ok done =>
              cases @onEntry_cases E builder source.kind [.schema source.version source.schemaId,
                  .schema target.version target.schemaId,
                  .upcaster source.version (EventCatalogBuilder.upcaster source target stepId upcast) hadjacent] with
              | inl hfull => exact .inl ⟨⟨_, hfull.1⟩, fun _ => hfull.2⟩
              | inr hedited =>
                refine .inr ⟨_, ⟨rfl, rfl, hkind, hadjacent, rfl⟩, hedited,
                  upcaster_does (hrooted.kindOf source.kind) hadjacent, ?_, ?_⟩
                . have hkept := @upcaster_rooted E (builder.kindOf source.kind) source.kind source.schemaId
                    (hrooted.kindOf source.kind) source.version target.schemaId
                    (EventCatalogBuilder.upcaster source target stepId upcast) hadjacent
                  rw [← hadjacent] at hkept
                  exact hkept
                . intro hnone
                  rw [hempty hnone]
                  exact upcaster_empty hadjacent
          . next hadjacent => exact .inl ⟨⟨_, rfl⟩, fun hvalid => absurd hvalid.2.2.2.1 hadjacent⟩

theorem EventCatalogBuilder.Reached.rooted (h : EventCatalogBuilder.Reached codec builder) : builder.Rooted := by
  induction h with
  | new => exact nofun
  | call hbuilder registration ih =>
    cases @call_cases E codec _ registration ih with
    | inl huntouched =>
      obtain ⟨⟨error, hcall⟩, -⟩ := huntouched
      rw [hcall]
      exact ih
    | inr hedited =>
      obtain ⟨edited, -, hcall, -, hkind, -⟩ := hedited
      rw [hcall]
      exact ih.insert hkind

theorem failed_call (hrooted : builder.Rooted) {error : CatalogBuildError}
    (hfailed : (registration.call codec builder).2 = .error error)
    : (registration.call codec builder).1 = builder
        ∧ (∀ version, ¬ (registration.Valid ∧ registration.Leaves (builder.kindOf registration.name) version))
      ∨ ∃ kind version schemaId, registration.Valid ∧ registration.Leaves kind version
        ∧ builder.kinds.get? registration.name = some kind
        ∧ (registration.call codec builder).1
          = ⟨builder.kinds.insert registration.name (kind.withSchema version schemaId)⟩ := by
  cases @call_cases E codec builder registration hrooted with
  | inl huntouched =>
    obtain ⟨⟨error, hcall⟩, hunknown⟩ := huntouched
    rw [hcall]
    refine .inl ⟨rfl, ?_⟩
    intro version hleaves
    obtain ⟨hvalid, -, -, hleaves⟩ := hleaves
    unfold EventCatalogBuilder.kindOf at hleaves
    rw [hunknown hvalid] at hleaves
    cases registration with
    | current schema mappingId intoEvent => exact absurd hleaves.2 Bool.false_ne_true
    | upcaster source target stepId upcast => exact absurd hleaves.2 (by decide : ¬ maxSchemasPerKind ≤ 0 + 1)
  | inr hedited =>
    obtain ⟨edited, hvalid, hcall, hdoes, -, hnew⟩ := hedited
    rw [hcall] at hfailed ⊢
    dsimp only at hfailed ⊢
    cases hget : builder.kinds.get? registration.name with
    | none =>
      rw [hnew hget] at hfailed
      cases hfailed
    | some kind =>
      have hkind : builder.kindOf registration.name = kind := by
        unfold EventCatalogBuilder.kindOf
        rw [hget]
        rfl
      rw [hkind] at hdoes ⊢
      cases hdoes with
      | all hok =>
        rw [hok] at hfailed
        cases hfailed
      | nothing herror hsame hnone =>
        refine .inl ⟨?_, fun version hleaves => hnone version hleaves.2⟩
        rw [hsame, SortedMap.insert_self hget]
      | leaves herror version schemaId hleaves hleft =>
        exact .inr ⟨kind, version, schemaId, hvalid, hleaves, rfl, by rw [hleft]⟩

end Builders

end Pliego
