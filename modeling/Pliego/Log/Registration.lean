import Pliego.Log.Builder

/-!
What registrations leave in a catalog builder: registrations that succeed do so in any order and to the same
result, and the builder holds what was registered.
-/

namespace Pliego

open Bytes

variable {E : Type} {codec : EventCodec E}

namespace KindBuilder

inductive Edit (E : Type) where
  | schema (version : Nat) (schemaId : String)
  | current (mapper : CurrentSchema E)
  | upcaster (source : Nat) (edge : Upcaster) (adjacent : edge.target = source + 1)

def Edit.run (name : String) (kind : KindBuilder E) (edit : Edit E)
    : Except CatalogBuildError (KindBuilder E) :=
  match edit with
  | .schema version schemaId => kind.registerSchema name version schemaId
  | .current mapper => kind.setCurrent name mapper
  | .upcaster source edge adjacent => kind.addUpcaster name source edge adjacent

def Edit.Fits (kind : KindBuilder E) (edit : Edit E) : Prop :=
  match edit with
  | .schema version schemaId =>
    kind.schemas.get? version = some schemaId
      ∨ kind.schemas.get? version = none ∧ kind.schemas.len < maxSchemasPerKind
  | .current _ => kind.current = none
  | .upcaster source _ _ =>
    kind.upcasters.get? source = none ∧ kind.upcasters.len < maxSchemasPerKind - 1

def Edit.apply (kind : KindBuilder E) (edit : Edit E) : KindBuilder E :=
  match edit with
  | .schema version schemaId => { kind with schemas := kind.schemas.insert version schemaId }
  | .current mapper => { kind with current := some mapper }
  | .upcaster source edge adjacent =>
    { kind with
      upcasters := kind.upcasters.insert source edge
      adjacent := adjacent_insert adjacent }

theorem Edit.run_ok {name : String} {kind kind' : KindBuilder E} {edit : Edit E}
    : edit.run name kind = .ok kind' ↔ edit.Fits kind ∧ kind' = edit.apply kind := by
  cases edit with
  | schema version schemaId =>
    unfold Edit.run Edit.Fits Edit.apply registerSchema
    dsimp only
    cases hget : kind.schemas.get? version with
    | some existing =>
      dsimp only
      split
      . next hsame =>
        rw [hsame] at hget
        rw [SortedMap.insert_self hget]
        simp only [hsame, Except.ok.injEq, true_or, true_and]
        exact eq_comm
      . next hne => simp [hne]
    | none =>
      dsimp only
      split
      . next hfull => simp [Nat.not_lt.mpr hfull]
      . next hroom => simp [Nat.lt_of_not_le hroom, eq_comm]
  | current mapper =>
    unfold Edit.run Edit.Fits Edit.apply setCurrent
    dsimp only
    cases kind.current with
    | some existing => simp
    | none => simp [eq_comm]
  | upcaster source edge adjacent =>
    unfold Edit.run Edit.Fits Edit.apply addUpcaster
    dsimp only
    cases kind.upcasters.get? source with
    | some existing => simp
    | none =>
      dsimp only
      split
      . next hfull => simp [Nat.not_lt.mpr hfull]
      . next hroom => simp [Nat.lt_of_not_le hroom, eq_comm]

theorem Edit.swap {kind : KindBuilder E} {edit edit' : Edit E} (h : edit.Fits kind)
    (h' : edit'.Fits (edit.apply kind))
    : edit'.Fits kind ∧ edit.Fits (edit'.apply kind)
      ∧ edit.apply (edit'.apply kind) = edit'.apply (edit.apply kind) := by
  cases edit with
  | schema version schemaId =>
    cases edit' with
    | schema version' schemaId' =>
      unfold Edit.Fits Edit.apply at *
      dsimp only at *
      rw [SortedMap.get?_insert] at h'
      rw [SortedMap.get?_insert]
      by_cases hversion : version = version'
      . subst hversion
        rw [if_pos rfl] at h' ⊢
        rw [Option.some.injEq, or_iff_left (fun hnone => by cases hnone.1)] at h'
        subst h'
        exact ⟨h, .inl rfl, rfl⟩
      . rw [if_neg (Ne.symm hversion)] at h'
        rw [if_neg hversion, SortedMap.insert_comm (Ne.symm hversion)]
        refine ⟨?_, ?_, rfl⟩
        . rcases h' with h' | ⟨hnone, hroom⟩
          . exact .inl h'
          . rcases h with hsame | ⟨hfresh, -⟩
            . rw [SortedMap.insert_self hsame] at hroom
              exact .inr ⟨hnone, hroom⟩
            . rw [SortedMap.len_insert_of_none hfresh] at hroom
              exact .inr ⟨hnone, by omega⟩
        . rcases h with h | ⟨hfresh, hroom⟩
          . exact .inl h
          . rcases h' with hsame | ⟨hnone, hroom'⟩
            . rw [SortedMap.insert_self hsame]
              exact .inr ⟨hfresh, hroom⟩
            . rw [SortedMap.len_insert_of_none hfresh] at hroom'
              rw [SortedMap.len_insert_of_none hnone]
              exact .inr ⟨hfresh, hroom'⟩
    | current mapper => exact ⟨h', h, rfl⟩
    | upcaster source edge adjacent => exact ⟨h', h, rfl⟩
  | current mapper =>
    cases edit' with
    | schema version' schemaId' => exact ⟨h', h, rfl⟩
    | current mapper' => cases h'
    | upcaster source edge adjacent => exact ⟨h', h, rfl⟩
  | upcaster source edge adjacent =>
    cases edit' with
    | schema version' schemaId' => exact ⟨h', h, rfl⟩
    | current mapper => exact ⟨h', h, rfl⟩
    | upcaster source' edge' adjacent' =>
      unfold Edit.Fits Edit.apply at *
      dsimp only at *
      obtain ⟨hfresh, hroom⟩ := h
      obtain ⟨hfresh', hroom'⟩ := h'
      rw [SortedMap.get?_insert] at hfresh'
      split at hfresh'
      . cases hfresh'
      . next hne =>
        rw [SortedMap.len_insert_of_none hfresh] at hroom'
        refine ⟨⟨hfresh', by omega⟩, ?_, ?_⟩
        . rw [SortedMap.get?_insert, if_neg (Ne.symm hne), SortedMap.len_insert_of_none hfresh']
          exact ⟨hfresh, hroom'⟩
        . congr 1
          exact SortedMap.insert_comm hne

theorem Edit.commutes (name name' : String) (edit edit' : Edit E)
    : Except.Commutes (fun kind => edit.run name kind) (fun kind => edit'.run name' kind) := by
  intro a b c hb hc
  obtain ⟨hfits, rfl⟩ := Edit.run_ok.mp hb
  obtain ⟨hfits', rfl⟩ := Edit.run_ok.mp hc
  obtain ⟨hfirst, hsecond, hsame⟩ := Edit.swap hfits hfits'
  exact ⟨edit'.apply a, Edit.run_ok.mpr ⟨hfirst, rfl⟩, Edit.run_ok.mpr ⟨hsecond, hsame.symm⟩⟩

end KindBuilder

namespace EventCatalogBuilder

variable {builder builder' : EventCatalogBuilder E} {name name' : String}
  {edit edit' : KindBuilder E → Except CatalogBuildError (KindBuilder E)}

def Fits (builder : EventCatalogBuilder E) (name : String) : Prop :=
  (builder.kinds.get? name).isSome = true ∨ builder.kinds.len < maxCatalogKinds

def kindOf (builder : EventCatalogBuilder E) (name : String) : KindBuilder E :=
  (builder.kinds.get? name).getD .empty

theorem onKind_ok
    : builder.onKind name edit = .ok builder' ↔ builder.Fits name ∧ ∃ kind,
        edit (builder.kindOf name) = .ok kind ∧ builder' = ⟨builder.kinds.insert name kind⟩ := by
  unfold onKind Fits kindOf
  cases hget : builder.kinds.get? name with
  | some found =>
    rw [Option.isNone_some, Bool.false_and, if_neg Bool.false_ne_true]
    cases edit ((some found).getD .empty) with
    | error error => simp [Except.bind]
    | ok kind => simp [Except.bind, eq_comm]
  | none =>
    rw [Option.isNone_none, Bool.true_and]
    split
    . next hfull => simp [Nat.not_lt.mpr (of_decide_eq_true hfull)]
    . next hroom =>
      rw [decide_eq_true_eq, not_le] at hroom
      cases edit ((none : Option (KindBuilder E)).getD .empty) with
      | error error => simp [Except.bind]
      | ok kind => simp [Except.bind, hroom, eq_comm]

theorem kindOf_insert {kind : KindBuilder E}
    : kindOf ⟨builder.kinds.insert name kind⟩ name' = if name' = name then kind
        else builder.kindOf name' := by
  unfold kindOf
  rw [SortedMap.get?_insert]
  split <;> rfl

theorem fits_insert {kind : KindBuilder E} (hname : builder.Fits name)
    (h : Fits ⟨builder.kinds.insert name kind⟩ name') (hne : name' ≠ name)
    : builder.Fits name' ∧ ∀ kind', Fits ⟨builder.kinds.insert name' kind'⟩ name := by
  unfold Fits at *
  dsimp only at *
  rw [SortedMap.get?_insert, if_neg hne] at h
  simp only [SortedMap.get?_insert, if_neg hne.symm]
  cases hget : builder.kinds.get? name with
  | some found =>
    rw [SortedMap.len_insert_of_some hget] at h
    exact ⟨h, fun _ => .inl rfl⟩
  | none =>
    rw [hget, Option.isSome_none, or_iff_right Bool.false_ne_true] at hname
    rw [SortedMap.len_insert_of_none hget] at h
    cases hget' : builder.kinds.get? name' with
    | some found =>
      refine ⟨.inl rfl, fun kind' => .inr ?_⟩
      rw [SortedMap.len_insert_of_some hget']
      exact hname
    | none =>
      rw [hget', Option.isSome_none, or_iff_right Bool.false_ne_true] at h
      refine ⟨.inr hname, fun kind' => .inr ?_⟩
      rw [SortedMap.len_insert_of_none hget']
      exact h

theorem fits_of_insert {kind : KindBuilder E} : Fits ⟨builder.kinds.insert name kind⟩ name := by
  left
  dsimp only
  rw [SortedMap.get?_insert, if_pos rfl]
  rfl

theorem onKind_commutes (hcomm : Except.Commutes edit edit')
    : Except.Commutes (onKind name edit) (onKind name' edit') := by
  intro a b c hb hc
  obtain ⟨hfits, kind, hkind, rfl⟩ := onKind_ok.mp hb
  obtain ⟨hfits', kind', hkind', rfl⟩ := onKind_ok.mp hc
  rw [kindOf_insert] at hkind'
  by_cases hname : name' = name
  . subst hname
    rw [if_pos rfl] at hkind'
    obtain ⟨first, hfirst, hlast⟩ := hcomm _ _ _ hkind hkind'
    refine ⟨_, onKind_ok.mpr ⟨hfits, first, hfirst, rfl⟩, onKind_ok.mpr ⟨fits_of_insert, kind', ?_, ?_⟩⟩
    . rw [kindOf_insert, if_pos rfl]
      exact hlast
    . dsimp only
      rw [SortedMap.insert_insert, SortedMap.insert_insert]
  . rw [if_neg hname] at hkind'
    obtain ⟨hroom', hroom⟩ := fits_insert hfits hfits' hname
    refine ⟨_, onKind_ok.mpr ⟨hroom', kind', hkind', rfl⟩, onKind_ok.mpr ⟨hroom kind', kind, ?_, ?_⟩⟩
    . rw [kindOf_insert, if_neg (Ne.symm hname)]
      exact hkind
    . dsimp only
      rw [SortedMap.insert_comm (Ne.symm hname)]

end EventCatalogBuilder

namespace Registration

variable {registration registration' : Registration E} {builder builder' : EventCatalogBuilder E}

def name (registration : Registration E) : String :=
  match registration with
  | .current schema _ _ => schema.kind
  | .upcaster source _ _ _ => source.kind

def Valid (registration : Registration E) : Prop :=
  match registration with
  | .current schema mappingId _ =>
    validateSchema schema = .ok () ∧ validateContractId mappingId = .ok ()
  | .upcaster source target stepId _ =>
    validateSchema source = .ok () ∧ validateSchema target = .ok () ∧ source.kind = target.kind
      ∧ target.version = source.version + 1 ∧ validateContractId stepId = .ok ()

def edits (codec : EventCodec E) (registration : Registration E) : List (KindBuilder.Edit E) :=
  match registration with
  | .current schema mappingId intoEvent =>
    [.schema schema.version schema.schemaId,
      .current (EventCatalogBuilder.currentSchema codec schema mappingId intoEvent)]
  | .upcaster source target stepId upcast =>
    if hadjacent : target.version = source.version + 1 then
      [.schema source.version source.schemaId, .schema target.version target.schemaId,
        .upcaster source.version (EventCatalogBuilder.upcaster source target stepId upcast) hadjacent]
    else
      []

def editKind (codec : EventCodec E) (registration : Registration E) (kind : KindBuilder E)
    : Except CatalogBuildError (KindBuilder E) :=
  (registration.edits codec).foldlM (fun kind edit => edit.run registration.name kind) kind

theorem run_ok
    : registration.run codec builder = .ok builder' ↔ registration.Valid
        ∧ builder.onKind registration.name (registration.editKind codec) = .ok builder' := by
  cases registration with
  | current schema mappingId intoEvent =>
    have hedit : (fun kind => (kind.registerSchema schema.kind schema.version schema.schemaId).bind
          fun kind => kind.setCurrent schema.kind
            (EventCatalogBuilder.currentSchema codec schema mappingId intoEvent))
        = editKind codec (.current schema mappingId intoEvent) := by
      funext kind
      unfold editKind edits name
      simp only [List.foldlM_cons, List.foldlM_nil, bind_pure]
      rfl
    unfold run EventCatalogBuilder.registerCurrent Valid name
    simp only [Except.bind_unit_eq_ok, Except.mapError_eq_ok, hedit, and_assoc]
  | upcaster source target stepId upcast =>
    unfold run EventCatalogBuilder.registerUpcaster Valid name
    simp only [↓Except.bind_unit_eq_ok, Except.mapError_eq_ok]
    split
    . next hkind => simp [hkind]
    . next hkind =>
      rw [ne_eq, not_not] at hkind
      split
      . next hadjacent =>
        have hedit : (fun kind =>
              (kind.registerSchema source.kind source.version source.schemaId).bind fun kind =>
                (kind.registerSchema source.kind target.version target.schemaId).bind fun kind =>
                  kind.addUpcaster source.kind source.version
                    (EventCatalogBuilder.upcaster source target stepId upcast) hadjacent)
            = editKind codec (.upcaster (E := E) source target stepId upcast) := by
          funext kind
          unfold editKind edits name
          dsimp only
          rw [dif_pos hadjacent]
          simp only [List.foldlM_cons, List.foldlM_nil, bind_pure]
          rfl
        simp only [↓Except.bind_unit_eq_ok, Except.mapError_eq_ok]
        rw [hedit]
        constructor
        . rintro ⟨hsource, htarget, hstep, hrun⟩
          exact ⟨⟨hsource, htarget, hkind, hadjacent, hstep⟩, hrun⟩
        . rintro ⟨⟨hsource, htarget, -, -, hstep⟩, hrun⟩
          exact ⟨hsource, htarget, hstep, hrun⟩
      . next hadjacent => simp [hadjacent]

theorem commutes
    : Except.Commutes (fun builder => registration.run codec builder)
        (fun builder => registration'.run codec builder) := by
  intro a b c hb hc
  obtain ⟨hvalid, hb⟩ := run_ok.mp hb
  obtain ⟨hvalid', hc⟩ := run_ok.mp hc
  have hstep : ∀ x y : String × KindBuilder.Edit E, Except.Commutes
      (fun kind => x.2.run x.1 kind) (fun kind => y.2.run y.1 kind) :=
    fun x y => KindBuilder.Edit.commutes x.1 y.1 x.2 y.2
  have hedits := Except.foldlM_commutes hstep
    ((registration.edits codec).map (registration.name, ·))
    ((registration'.edits codec).map (registration'.name, ·))
  simp only [List.foldlM_map] at hedits
  obtain ⟨b', hb', hc'⟩ := EventCatalogBuilder.onKind_commutes hedits a b c hb hc
  exact ⟨b', run_ok.mpr ⟨hvalid', hb'⟩, run_ok.mpr ⟨hvalid, hc'⟩⟩

def edge (registration : Registration E) : Option (String × Nat × Upcaster) :=
  match registration with
  | .current _ _ _ => none
  | .upcaster source target stepId upcast =>
    some (source.kind, source.version, EventCatalogBuilder.upcaster source target stepId upcast)

def mapper (codec : EventCodec E) (registration : Registration E)
    : Option (String × CurrentSchema E) :=
  match registration with
  | .current schema mappingId intoEvent =>
    some (schema.kind, EventCatalogBuilder.currentSchema codec schema mappingId intoEvent)
  | .upcaster _ _ _ _ => none

theorem editKind_ok (hvalid : registration.Valid) {kind kind' : KindBuilder E}
    (h : registration.editKind codec kind = .ok kind')
    : (∀ source edge, kind'.upcasters.get? source = some edge
          ↔ kind.upcasters.get? source = some edge
            ∨ registration.edge = some (registration.name, source, edge))
      ∧ (∀ current, kind'.current = some current
          ↔ kind.current = some current
            ∨ registration.mapper codec = some (registration.name, current)) := by
  unfold editKind at h
  cases registration with
  | current schema mappingId intoEvent =>
    unfold edits at h
    simp only [List.foldlM_cons, List.foldlM_nil, Except.bind_eq_ok, KindBuilder.Edit.run_ok] at h
    obtain ⟨first, ⟨-, rfl⟩, second, ⟨hnone, rfl⟩, h⟩ := h
    cases h
    unfold edge mapper name
    constructor
    . intro source edge
      simp [KindBuilder.Edit.apply]
    . intro current
      unfold KindBuilder.Edit.Fits KindBuilder.Edit.apply at hnone
      dsimp only at hnone
      unfold KindBuilder.Edit.apply
      simp [hnone]
  | upcaster source target stepId upcast =>
    unfold edits at h
    dsimp only at h
    rw [dif_pos hvalid.2.2.2.1] at h
    simp only [List.foldlM_cons, List.foldlM_nil, Except.bind_eq_ok, KindBuilder.Edit.run_ok] at h
    obtain ⟨first, ⟨-, rfl⟩, second, ⟨-, rfl⟩, third, ⟨⟨hnone, -⟩, rfl⟩, h⟩ := h
    cases h
    unfold edge mapper name
    constructor
    . intro source' edge
      unfold KindBuilder.Edit.apply at hnone
      dsimp only at hnone
      unfold KindBuilder.Edit.apply
      dsimp only
      rw [SortedMap.get?_insert]
      split
      . next hsource => simp [hsource, hnone]
      . next hsource => simp [Ne.symm hsource]
    . intro current
      simp [KindBuilder.Edit.apply]

end Registration

section Built

variable {registrations : List (Registration E)} {registration : Registration E}
  {builder builder' : EventCatalogBuilder E}

-- A builder holds the upcasters and the current schemas that were registered.
structure EventCatalogBuilder.Holds (codec : EventCodec E) (registrations : List (Registration E))
    (builder : EventCatalogBuilder E) : Prop where
  edges : ∀ name source edge, (builder.kindOf name).upcasters.get? source = some edge
    ↔ ∃ registration ∈ registrations, registration.edge = some (name, source, edge)
  mappers : ∀ name current, (builder.kindOf name).current = some current
    ↔ ∃ registration ∈ registrations, registration.mapper codec = some (name, current)

theorem EventCatalogBuilder.Holds.step (h : builder.Holds codec registrations)
    (hrun : registration.run codec builder = .ok builder')
    : builder'.Holds codec (registrations ++ [registration]) := by
  obtain ⟨hvalid, hkind⟩ := Registration.run_ok.mp hrun
  obtain ⟨-, kind, hedit, rfl⟩ := EventCatalogBuilder.onKind_ok.mp hkind
  obtain ⟨hedges, hmappers⟩ := Registration.editKind_ok hvalid hedit
  have hname : ∀ name source edge, registration.edge = some (name, source, edge) →
      name = registration.name := by
    intro name source edge hedge
    cases registration with
    | current _ _ _ => cases hedge
    | upcaster _ _ _ _ =>
      cases hedge
      rfl
  have hname' : ∀ name current, registration.mapper codec = some (name, current) →
      name = registration.name := by
    intro name current hmapper
    cases registration with
    | current _ _ _ =>
      cases hmapper
      rfl
    | upcaster _ _ _ _ => cases hmapper
  constructor
  . intro name source edge
    rw [EventCatalogBuilder.kindOf_insert]
    simp only [List.mem_append, List.mem_singleton, or_and_right, exists_or, exists_eq_left]
    rw [← h.edges]
    split
    . next hsame =>
      rw [hsame]
      exact hedges source edge
    . next hne => exact ⟨.inl, fun hor => hor.resolve_right (fun hedge => hne (hname _ _ _ hedge))⟩
  . intro name current
    rw [EventCatalogBuilder.kindOf_insert]
    simp only [List.mem_append, List.mem_singleton, or_and_right, exists_or, exists_eq_left]
    rw [← h.mappers]
    split
    . next hsame =>
      rw [hsame]
      exact hmappers current
    . next hne => exact ⟨.inl, fun hor => hor.resolve_right (fun hmap => hne (hname' _ _ hmap))⟩

theorem EventCatalogBuilder.holds_of_foldlM {done : List (Registration E)} (h : builder.Holds codec done)
    (hrun : registrations.foldlM (Registration.run codec) builder = .ok builder')
    : builder'.Holds codec (done ++ registrations) := by
  induction registrations generalizing builder done with
  | nil =>
    cases hrun
    rw [List.append_nil]
    exact h
  | cons registration rest ih =>
    rw [List.foldlM_cons, Except.bind_eq_ok] at hrun
    obtain ⟨next, hnext, hrun⟩ := hrun
    have hlast := ih (h.step hnext) hrun
    rw [List.append_assoc] at hlast
    exact hlast

theorem EventCatalogBuilder.holds_of_build (h : EventCatalogBuilder.build codec registrations = .ok builder)
    : builder.Holds codec registrations := by
  have hnew : (EventCatalogBuilder.new : EventCatalogBuilder E).Holds codec [] := by
    constructor
    . intro name source edge
      constructor
      . intro hget
        cases hget
      . rintro ⟨_, hmem, -⟩
        cases hmem
    . intro name current
      constructor
      . intro hget
        cases hget
      . rintro ⟨_, hmem, -⟩
        cases hmem
  exact EventCatalogBuilder.holds_of_foldlM hnew h

end Built

end Pliego
