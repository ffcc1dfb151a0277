import Pliego.Log.Registration

/-!
What a sealed catalog does: every supported event has one path of upcasters to the current schema, and the
digest identifies the kinds, schemas, mappings and steps of the graph.
-/

namespace Pliego

open Bytes

variable {E : Type} {codec : EventCodec E}

section Versions

theorem mem_succ_of_chain {versions : List Nat} (h : versions.IsChain (fun a b => b = a + 1)) {v w : Nat}
    (hv : v ∈ versions) (hw : w ∈ versions) (hlt : v < w)
    : v + 1 ∈ versions := by
  induction versions with
  | nil => cases hv
  | cons first rest ih =>
    have hge : ∀ x ∈ rest, first < x := by
      have hlt : (first :: rest).IsChain (· < ·) := h.imp (fun {a b} (hab : b = a + 1) => by omega)
      exact (List.pairwise_cons.mp hlt.pairwise).1
    cases rest with
    | nil =>
      rw [List.mem_singleton] at hv hw
      omega
    | cons second rest =>
      obtain ⟨hsecond, hrest⟩ := List.isChain_cons_cons.mp h
      cases List.mem_cons.mp hv with
      | inl hfirst =>
        rw [hfirst, ← hsecond]
        exact List.mem_cons_of_mem _ List.mem_cons_self
      | inr hv =>
        cases List.mem_cons.mp hw with
        | inl hfirst =>
          have := hge v hv
          omega
        | inr hw => exact List.mem_cons_of_mem _ (ih hrest hv hw)

theorem mem_takeWhile_of_sorted {versions : List Nat} (h : versions.Pairwise (· < ·)) {v bound : Nat}
    (hv : v ∈ versions) (hlt : v < bound)
    : v ∈ versions.takeWhile (fun version => decide (version < bound)) := by
  induction versions with
  | nil => cases hv
  | cons first rest ih =>
    obtain ⟨hfirst, hrest⟩ := List.pairwise_cons.mp h
    have hbelow : first < bound := by
      cases List.mem_cons.mp hv with
      | inl h => omega
      | inr h => exact (hfirst v h).trans hlt
    rw [List.takeWhile_cons, if_pos (decide_eq_true hbelow)]
    cases List.mem_cons.mp hv with
    | inl h => exact h ▸ List.mem_cons_self
    | inr h => exact List.mem_cons_of_mem _ (ih hrest h)

theorem checkVersions_ok {name : String} {current : Nat} {previous : Option Nat} {versions : List Nat}
    (h : EventCatalogBuilder.checkVersions name current previous versions = .ok ())
    : (∀ version ∈ versions, version ≤ current)
      ∧ (previous.toList ++ versions).IsChain (fun a b => b = a + 1) := by
  induction versions generalizing previous with
  | nil =>
    refine ⟨fun _ h => absurd h List.not_mem_nil, ?_⟩
    cases previous with
    | none => exact List.IsChain.nil
    | some previous => exact List.IsChain.singleton _
  | cons version rest ih =>
    unfold EventCatalogBuilder.checkVersions at h
    split at h
    . cases h
    . next hle =>
      rw [not_lt] at hle
      split at h
      . split at h
        . cases h
        . next previous hnext =>
          rw [ne_eq, not_not] at hnext
          obtain ⟨hbound, hchain⟩ := ih h
          exact ⟨List.forall_mem_cons.mpr ⟨hle, hbound⟩, List.isChain_cons_cons.mpr ⟨hnext, hchain⟩⟩
      . obtain ⟨hbound, hchain⟩ := ih h
        exact ⟨List.forall_mem_cons.mpr ⟨hle, hbound⟩, hchain⟩

end Versions

section Sealed

variable {name : String} {kind : KindBuilder E} {entry : SealedEntry E}
  {builder : EventCatalogBuilder E} {kinds : SortedMap String (SealedEntry E)}

-- What sealing has checked of a kind.
structure SealedEntry.Of (kind : KindBuilder E) (entry : SealedEntry E) : Prop where
  schemas : entry.schemas = kind.schemas
  upcasters : entry.upcasters = kind.upcasters
  current : kind.current = some entry.current
  admitted : (entry.schemas.get? entry.current.version).isSome = true
  bound : ∀ version, (entry.schemas.get? version).isSome = true → version ≤ entry.current.version
  next : ∀ version, (entry.schemas.get? version).isSome = true → version < entry.current.version →
    (entry.schemas.get? (version + 1)).isSome = true ∧ (entry.upcasters.get? version).isSome = true

theorem sealKind_ok (h : EventCatalogBuilder.sealKind name kind = .ok entry) : entry.Of kind := by
  unfold EventCatalogBuilder.sealKind at h
  split at h
  . cases h
  . next current hcurrent =>
    split at h
    . cases h
    . next hadmitted =>
      rw [Except.bind_unit_eq_ok, Except.bind_unit_eq_ok, Except.forM_eq_ok] at h
      obtain ⟨hversions, hedges, h⟩ := h
      split at h
      . cases h
      . cases h
        obtain ⟨hbound, hchain⟩ := checkVersions_ok hversions
        rw [Option.toList_none, List.nil_append] at hchain
        have hcurrentKey : current.version ∈ kind.schemas.keys := by
          rw [SortedMap.mem_keys]
          rw [Bool.not_eq_true, Option.isNone_eq_false_iff] at hadmitted
          exact hadmitted
        refine ⟨rfl, rfl, hcurrent, SortedMap.mem_keys.mp hcurrentKey,
          fun version hversion => hbound version (SortedMap.mem_keys.mpr hversion), ?_⟩
        intro version hversion hlt
        have hkey : version ∈ kind.schemas.keys := SortedMap.mem_keys.mpr hversion
        refine ⟨SortedMap.mem_keys.mp (mem_succ_of_chain hchain hkey hcurrentKey hlt), ?_⟩
        have hedge := hedges version
          (mem_takeWhile_of_sorted (SortedMap.keys_sorted kind.schemas) hkey hlt)
        unfold EventCatalogBuilder.checkEdge at hedge
        split at hedge
        . cases hedge
        . next edge hget =>
          dsimp only
          rw [hget]
          rfl

theorem foldlM_sealKind {entries : List (String × KindBuilder E)} {kinds kinds' : SortedMap String (SealedEntry E)}
    (hnodup : (entries.map Prod.fst).Nodup)
    (h : entries.foldlM (fun kinds entry => (EventCatalogBuilder.sealKind entry.1 entry.2).bind
      fun kind => .ok (kinds.insert entry.1 kind)) kinds = .ok kinds')
    : ∀ name, (∀ kind, (name, kind) ∈ entries →
          ∃ entry, kinds'.get? name = some entry ∧ entry.Of kind)
        ∧ (name ∉ entries.map Prod.fst → kinds'.get? name = kinds.get? name) := by
  induction entries generalizing kinds with
  | nil =>
    cases h
    exact fun name => ⟨fun _ hmem => absurd hmem List.not_mem_nil, fun _ => rfl⟩
  | cons first rest ih =>
    rw [List.map_cons, List.nodup_cons] at hnodup
    rw [List.foldlM_cons, Except.bind_eq_ok] at h
    obtain ⟨next, hnext, h⟩ := h
    have hbind := Except.bind_eq_ok.mp hnext
    obtain ⟨entry, hentry, hnext⟩ := hbind
    cases hnext
    intro name
    obtain ⟨hmem, hother⟩ := ih hnodup.2 h name
    constructor
    . intro kind hkind
      cases List.mem_cons.mp hkind with
      | inl hfirst =>
        rw [← hfirst] at hnodup hentry
        have hkept := (ih hnodup.2 h name).2 hnodup.1
        rw [hkept, ← hfirst, SortedMap.get?_insert, if_pos rfl]
        exact ⟨entry, rfl, sealKind_ok hentry⟩
      | inr hrest => exact hmem kind hrest
    . intro hfresh
      rw [List.map_cons, List.mem_cons, not_or] at hfresh
      rw [hother hfresh.2, SortedMap.get?_insert, if_neg hfresh.1]

theorem sealKinds_ok (h : builder.sealKinds = .ok kinds)
    : ∀ name, (∀ kind, builder.kinds.get? name = some kind →
          ∃ entry, kinds.get? name = some entry ∧ entry.Of kind)
        ∧ (builder.kinds.get? name = none → kinds.get? name = none) := by
  unfold EventCatalogBuilder.sealKinds at h
  split at h
  . cases h
  . intro name
    have hnodup : (builder.kinds.entries.map Prod.fst).Nodup :=
      (SortedMap.keys_sorted builder.kinds).imp (fun hlt => ne_of_lt hlt)
    obtain ⟨hmem, hother⟩ := foldlM_sealKind hnodup h name
    constructor
    . exact fun kind hget => hmem kind (SortedMap.get?_eq_some.mp hget)
    . intro hnone
      apply hother
      intro hkey
      have hsome := SortedMap.mem_keys.mp hkey
      rw [hnone] at hsome
      cases hsome

end Sealed

section Paths

variable {registrations : List (Registration E)} {builder : EventCatalogBuilder E}
  {kinds : SortedMap String (SealedEntry E)}

def applySteps (steps : List Upcaster) (payload : CanonicalJson) : Attempt CatalogError CanonicalJson :=
  match steps with
  | [] => .ok payload
  | step :: rest => (step.apply unobserved payload).bind (applySteps rest)

-- One path: the registered upcasters from the version to the current one, and the current schema.
structure Registration.Path (codec : EventCodec E) (registrations : List (Registration E)) (name : String)
    (version : Nat) (path : List Upcaster × CurrentSchema E) : Prop where
  current : ∃ registration ∈ registrations, registration.mapper codec = some (name, path.2)
  bound : version ≤ path.2.version
  steps : List.Forall₂ (fun source step => ∃ registration ∈ registrations,
      registration.edge = some (name, source, step))
    (List.range' version (path.2.version - version)) path.1

theorem upcast_eq_applySteps {kind : SealedKind E} {name : String} {steps : List Upcaster} {edges version : Nat}
    (h : List.Forall₂ (fun source step => kind.upcasters source = some step) (List.range' version edges) steps)
    (payload : CanonicalJson)
    : SealedEventCatalog.upcast kind name (fun _ => unobserved) edges version payload = applySteps steps payload := by
  induction edges generalizing version steps payload with
  | zero =>
    rw [List.range'_zero, List.forall₂_nil_left_iff] at h
    subst h
    rfl
  | succ edges ih =>
    rw [List.range'_succ] at h
    cases h with
    | cons hstep hrest =>
      unfold SealedEventCatalog.upcast
      rw [hstep]
      dsimp only
      rw [kind.adjacent version _ hstep, applySteps]
      cases Upcaster.apply _ unobserved payload with
      | ok payload => exact ih hrest payload
      | err error => rfl
      | panicked => rfl

theorem SealedEntry.Of.steps {kind : KindBuilder E} {entry : SealedEntry E} (h : entry.Of kind) {edges version : Nat}
    (hversion : (entry.schemas.get? version).isSome = true) (hedges : version + edges = entry.current.version)
    : ∃ steps, List.Forall₂ (fun source step => kind.upcasters.get? source = some step)
        (List.range' version edges) steps := by
  induction edges generalizing version with
  | zero => exact ⟨[], .nil⟩
  | succ edges ih =>
    obtain ⟨hnext, hedge⟩ := h.next version hversion (by omega)
    obtain ⟨step, hstep⟩ := Option.isSome_iff_exists.mp hedge
    obtain ⟨steps, hsteps⟩ := ih hnext (by omega)
    rw [h.upcasters] at hstep
    exact ⟨step :: steps, .cons hstep hsteps⟩

theorem EventCatalogBuilder.Holds.path_unique (h : builder.Holds codec registrations) {name : String}
    {version : Nat} {path path' : List Upcaster × CurrentSchema E}
    (hpath : Registration.Path codec registrations name version path)
    (hpath' : Registration.Path codec registrations name version path')
    : path = path' := by
  have hcurrent : path.2 = path'.2 := by
    have hfirst := (h.mappers name path.2).mpr hpath.current
    have hsecond := (h.mappers name path'.2).mpr hpath'.current
    rw [hfirst] at hsecond
    exact Option.some.inj hsecond
  have hsteps := hpath.steps
  have hsteps' := hpath'.steps
  rw [← hcurrent] at hsteps'
  simp only [← h.edges] at hsteps hsteps'
  have hunique : Relator.RightUnique
      (fun source step => (builder.kindOf name).upcasters.get? source = some step) := by
    intro source step step' hstep hstep'
    rw [hstep] at hstep'
    exact Option.some.inj hstep'
  exact Prod.ext (hunique.forall₂ hsteps hsteps') hcurrent

end Paths

section Transforms

variable {S T : Type}

-- What a registered upcast makes of a payload that the schemas of its two ends read and write.
def Registration.Upcasts (registration : Registration E) (json : CanonicalJson)
    (result : Attempt CatalogError CanonicalJson) : Prop :=
  match registration with
  | .current _ _ _ => False
  | .upcaster source target _ upcast =>
    (∃ error, source.deserialize json = .error error ∧ result = .err (.payload error)) ∨
      ∃ value, source.deserialize json = .ok value ∧
        match upcast value with
        | .ok output => result = Attempt.ofExcept .payload (target.serialize output)
        | .err reason => result = .err (.upcastFailed source.kind source.version reason)
        | .panicked => result = .panicked

-- What a registered mapper makes of a payload, with the text of the event for the history.
def Registration.Maps (codec : EventCodec E) (registration : Registration E) (json : CanonicalJson)
    (result : Attempt CatalogError (E × CanonicalJson)) : Prop :=
  match registration with
  | .upcaster _ _ _ _ => False
  | .current schema _ intoEvent =>
    (∃ error, schema.deserialize json = .error error ∧ result = .err (.payload error)) ∨
      ∃ value, schema.deserialize json = .ok value ∧
        match intoEvent value with
        | none => result = .panicked
        | some event =>
          if codec.eq event event then
            result = (Attempt.ofExcept .payload (codec.serialize event)).bind fun text => .ok (event, text)
          else
            result = .err (.nondeterministicMapping schema.kind schema.version)

theorem deterministic_eq (source : EventSchema S) (target : EventSchema T) (upcast : S → Attempt String T)
    (stable : TransformStability) (json : CanonicalJson)
    : deterministic source target upcast stable json = (upcastOnce source target upcast json).bind fun first =>
        if stable json first then .ok first else .err (.nondeterministicUpcast source.kind source.version) := by
  unfold deterministic
  cases upcastOnce source target upcast json with
  | ok first => cases hstable : stable json first <;> simp [Attempt.bind, hstable]
  | err error => rfl
  | panicked => rfl

theorem upcasts_iff {source : EventSchema S} {target : EventSchema T} {stepId : String} {upcast : S → Attempt String T}
    {json : CanonicalJson} {result : Attempt CatalogError CanonicalJson}
    : (Registration.upcaster (E := E) source target stepId upcast).Upcasts json result
      ↔ result = upcastOnce source target upcast json := by
  unfold Registration.Upcasts upcastOnce
  dsimp only
  cases source.deserialize json with
  | error error => simp [Attempt.ofExcept, Attempt.bind]
  | ok value =>
    simp only [reduceCtorEq, false_and, exists_false, false_or, Except.ok.injEq, exists_eq_left', Attempt.ofExcept,
      Attempt.bind]
    cases upcast value <;> rfl

-- The event that the mapper makes twice, and its text.
def mapTwice (codec : EventCodec E) (schema : EventSchema T) (intoEvent : T → Option E) (json : CanonicalJson)
    : Attempt CatalogError (E × CanonicalJson) :=
  (mapOnce schema intoEvent json).bind fun event =>
    if codec.eq event event then
      (Attempt.ofExcept .payload (codec.serialize event)).bind fun text => .ok (event, text)
    else
      .err (.nondeterministicMapping schema.kind schema.version)

theorem decoder_eq (codec : EventCodec E) (schema : EventSchema T) (intoEvent : T → Option E)
    (stable : TransformStability) (json : CanonicalJson)
    : decoder codec schema intoEvent stable json = (mapTwice codec schema intoEvent json).bind fun mapped =>
        if stable json mapped.2 then .ok mapped.1
        else .err (.nondeterministicMapping schema.kind schema.version) := by
  unfold decoder mapTwice
  cases mapOnce schema intoEvent json with
  | err error => rfl
  | panicked => rfl
  | ok event =>
    cases heq : codec.eq event event with
    | false => simp [Attempt.bind, heq]
    | true =>
      cases htext : codec.serialize event with
      | error error => simp [Attempt.bind, Attempt.ofExcept, heq, htext]
      | ok text => cases hstable : stable json text <;> simp [Attempt.bind, Attempt.ofExcept, heq, htext, hstable]

theorem maps_iff {schema : EventSchema T} {mappingId : String} {intoEvent : T → Option E} {json : CanonicalJson}
    {result : Attempt CatalogError (E × CanonicalJson)}
    : (Registration.current schema mappingId intoEvent).Maps codec json result
      ↔ result = mapTwice codec schema intoEvent json := by
  unfold Registration.Maps mapTwice mapOnce
  dsimp only
  cases schema.deserialize json with
  | error error => simp [Attempt.ofExcept, Attempt.bind]
  | ok value =>
    simp only [reduceCtorEq, false_and, exists_false, false_or, Except.ok.injEq, exists_eq_left', Attempt.ofExcept,
      Attempt.bind]
    cases intoEvent value with
    | none => rfl
    | some event =>
      dsimp only
      split <;> rfl

-- The steps and mappers of a catalog do what has been registered.
structure Registration.Applies (codec : EventCodec E) (registration : Registration E) : Prop where
  upcasts : ∀ name source step, registration.edge = some (name, source, step) → ∀ json,
    registration.Upcasts json (step.apply unobserved json)
  maps : ∀ name current, registration.mapper codec = some (name, current) → ∀ json,
    ∃ result, registration.Maps codec json result
      ∧ current.decode unobserved json = result.bind fun mapped => .ok mapped.1

theorem Registration.applies (codec : EventCodec E) (registration : Registration E) : registration.Applies codec := by
  cases registration with
  | upcaster source target stepId upcast =>
    refine ⟨?_, nofun⟩
    rintro _ _ _ ⟨⟩ json
    refine upcasts_iff.mpr ((deterministic_eq source target upcast unobserved json).trans ?_)
    cases upcastOnce source target upcast json <;> rfl
  | current schema mappingId intoEvent =>
    refine ⟨nofun, ?_⟩
    rintro _ _ ⟨⟩ json
    exact ⟨_, maps_iff.mpr rfl, decoder_eq codec schema intoEvent unobserved json⟩

-- The calls that the transforms of a catalog have had before.
structure Histories where
  upcasters : String → Nat → List (CanonicalJson × CanonicalJson)
  mappers : String → List (CanonicalJson × CanonicalJson)

def Histories.stability (sha256 : Sha256) (histories : Histories) : CatalogStability where
  upcasters name source :=
    observedTransformIsStable sha256 (TransformObservations.empty.observe sha256 (histories.upcasters name source))
  mappers name := observedTransformIsStable sha256 (TransformObservations.empty.observe sha256 (histories.mappers name))

-- Every earlier call of a transform has ended as the registered function does, and no two payloads have one digest.
structure Histories.Pure (sha256 : Sha256) (codec : EventCodec E) (registrations : List (Registration E))
    (inputs : Set CanonicalJson) (histories : Histories) : Prop where
  injective : Set.InjOn (fun json => sha256 json.bytes) inputs
  closed : ∀ registration ∈ registrations, ∀ json ∈ inputs, ∀ output,
    registration.Upcasts json (.ok output) → output ∈ inputs
  upcasters : ∀ registration ∈ registrations, ∀ name source step, registration.edge = some (name, source, step) →
    ∀ call ∈ histories.upcasters name source, call.1 ∈ inputs ∧ registration.Upcasts call.1 (.ok call.2)
  mappers : ∀ registration ∈ registrations, ∀ name current, registration.mapper codec = some (name, current) →
    ∀ call ∈ histories.mappers name, call.1 ∈ inputs ∧ ∃ event, registration.Maps codec call.1 (.ok (event, call.2))

theorem observed_stable {sha256 : Sha256} {inputs : Set CanonicalJson}
    {earlier : List (CanonicalJson × CanonicalJson)} {json output : CanonicalJson}
    (hinjective : Set.InjOn (fun json => sha256 json.bytes) inputs) (hjson : json ∈ inputs)
    (hearlier : ∀ call ∈ earlier, call.1 ∈ inputs ∧ (call.1 = json → call.2 = output))
    : observedTransformIsStable sha256 (TransformObservations.empty.observe sha256 earlier) json output = true := by
  rw [← Bool.not_eq_false]
  intro hrefused
  obtain ⟨call, hcall, hinput, houtput⟩ := TransformObservations.refused hrefused
  obtain ⟨hmem, hsame⟩ := hearlier call hcall
  exact houtput (by rw [hsame (hinjective hmem hjson hinput)])

section

variable {sha256 : Sha256} {registrations : List (Registration E)} {inputs : Set CanonicalJson} {histories : Histories}
  {registration : Registration E} (h : histories.Pure sha256 codec registrations inputs) {json : CanonicalJson}

include h

theorem Histories.Pure.apply_eq (hmem : registration ∈ registrations) {name : String} {source : Nat} {step : Upcaster}
    (hedge : registration.edge = some (name, source, step)) (hjson : json ∈ inputs)
    : step.apply ((histories.stability sha256).upcasters name source) json = step.apply unobserved json
      ∧ ∀ output, step.apply unobserved json = .ok output → output ∈ inputs := by
  refine ⟨?_, fun output houtput => h.closed registration hmem json hjson output ?_⟩
  . cases registration with
    | current _ _ _ => cases hedge
    | upcaster source target stepId upcast =>
      have hcalls := h.upcasters _ hmem _ _ _ hedge
      cases hedge
      change deterministic source target upcast _ json = deterministic source target upcast _ json
      rw [deterministic_eq, deterministic_eq]
      cases hfirst : upcastOnce source target upcast json with
      | err error => rfl
      | panicked => rfl
      | ok first =>
        have hstable := @observed_stable sha256 inputs _ json first h.injective hjson fun call hcall => by
          obtain ⟨hinput, hupcasts⟩ := hcalls call hcall
          refine ⟨hinput, fun hsame => ?_⟩
          have hcall := upcasts_iff.mp hupcasts
          rw [hsame, hfirst] at hcall
          cases hcall
          rfl
        dsimp only [Attempt.bind]
        exact if_pos hstable
  . rw [← houtput]
    exact (registration.applies codec).upcasts name source step hedge json

theorem Histories.Pure.decode_eq (hmem : registration ∈ registrations) {name : String} {current : CurrentSchema E}
    (hmapper : registration.mapper codec = some (name, current)) (hjson : json ∈ inputs)
    : current.decode ((histories.stability sha256).mappers name) json = current.decode unobserved json := by
  cases registration with
  | upcaster _ _ _ _ => cases hmapper
  | current schema mappingId intoEvent =>
    have hcalls := h.mappers _ hmem _ _ hmapper
    cases hmapper
    change decoder codec schema intoEvent _ json = decoder codec schema intoEvent _ json
    rw [decoder_eq, decoder_eq]
    cases hfirst : mapTwice codec schema intoEvent json with
    | err error => rfl
    | panicked => rfl
    | ok mapped =>
      have hstable := @observed_stable sha256 inputs _ json mapped.2 h.injective hjson fun call hcall => by
        obtain ⟨hinput, event, hmaps⟩ := hcalls call hcall
        refine ⟨hinput, fun hsame => ?_⟩
        have hcall := maps_iff.mp hmaps
        rw [hsame, hfirst] at hcall
        cases hcall
        rfl
      dsimp only [Attempt.bind]
      exact if_pos hstable

end

end Transforms

section Errors

-- The errors of a run of application code, which are about the payload and not about the catalog.
def CatalogError.OfTransform (error : CatalogError) : Prop :=
  match error with
  | .payload _ => True
  | .upcastFailed _ _ _ => True
  | .nondeterministicUpcast _ _ => True
  | .nondeterministicMapping _ _ => True
  | .unknownKind _ => False
  | .unknownVersion _ _ => False
  | .missingUpcaster _ _ => False

def Attempt.FailsBy {ε α : Type} (P : ε → Prop) (attempt : Attempt ε α) : Prop :=
  ∀ error, attempt = .err error → P error

variable {S T : Type}

theorem Attempt.FailsBy.bind {ε α β : Type} {P : ε → Prop} {attempt : Attempt ε α} {f : α → Attempt ε β}
    (hattempt : attempt.FailsBy P) (hf : ∀ value, (f value).FailsBy P)
    : (attempt.bind f).FailsBy P := by
  intro error herror
  cases attempt with
  | ok value => exact hf value error herror
  | err found =>
    cases herror
    exact hattempt _ rfl
  | panicked => cases herror

theorem Attempt.failsBy_ofExcept {ε ε' α : Type} {P : ε' → Prop} {wrap : ε → ε'} (hwrap : ∀ error, P (wrap error))
    (result : Except ε α)
    : (Attempt.ofExcept wrap result).FailsBy P := by
  intro error herror
  cases result with
  | ok value => cases herror
  | error found =>
    cases herror
    exact hwrap _

theorem upcastOnce_failsBy (source : EventSchema S) (target : EventSchema T) (upcast : S → Attempt String T)
    (json : CanonicalJson)
    : (upcastOnce source target upcast json).FailsBy CatalogError.OfTransform := by
  unfold upcastOnce
  apply Attempt.FailsBy.bind
  . exact Attempt.failsBy_ofExcept (fun _ => True.intro) _
  . intro value
    split
    . exact Attempt.failsBy_ofExcept (fun _ => True.intro) _
    . intro error herror
      cases herror
      exact True.intro
    . intro error herror
      cases herror

theorem deterministic_failsBy (source : EventSchema S) (target : EventSchema T) (upcast : S → Attempt String T)
    (stable : TransformStability) (json : CanonicalJson)
    : (deterministic source target upcast stable json).FailsBy CatalogError.OfTransform := by
  rw [deterministic_eq]
  apply Attempt.FailsBy.bind
  . apply upcastOnce_failsBy
  . intro first error herror
    split at herror
    . cases herror
    . cases herror
      exact True.intro

theorem mapOnce_failsBy (schema : EventSchema T) (intoEvent : T → Option E) (json : CanonicalJson)
    : (mapOnce schema intoEvent json).FailsBy CatalogError.OfTransform := by
  unfold mapOnce
  apply Attempt.FailsBy.bind
  . exact Attempt.failsBy_ofExcept (fun _ => True.intro) _
  . intro value error herror
    split at herror <;> cases herror

theorem decoder_failsBy (schema : EventSchema T) (intoEvent : T → Option E) (stable : TransformStability)
    (json : CanonicalJson)
    : (decoder codec schema intoEvent stable json).FailsBy CatalogError.OfTransform := by
  rw [decoder_eq]
  apply Attempt.FailsBy.bind
  . apply Attempt.FailsBy.bind
    . apply mapOnce_failsBy
    . intro event
      split
      . apply Attempt.FailsBy.bind
        . exact Attempt.failsBy_ofExcept (fun _ => True.intro) _
        . intro text error herror
          cases herror
      . intro error herror
        cases herror
        exact True.intro
  . intro mapped error herror
    split at herror
    . cases herror
    . cases herror
      exact True.intro

theorem Registration.edge_failsBy {registration : Registration E} {name : String} {source : Nat} {step : Upcaster}
    (h : registration.edge = some (name, source, step)) (json : CanonicalJson)
    : (step.apply unobserved json).FailsBy CatalogError.OfTransform := by
  cases registration with
  | current _ _ _ => cases h
  | upcaster _ _ _ _ =>
    cases h
    apply deterministic_failsBy

theorem Registration.mapper_failsBy {registration : Registration E} {name : String} {current : CurrentSchema E}
    (h : registration.mapper codec = some (name, current)) (json : CanonicalJson)
    : (current.decode unobserved json).FailsBy CatalogError.OfTransform := by
  cases registration with
  | current _ _ _ =>
    cases h
    apply decoder_failsBy
  | upcaster _ _ _ _ => cases h

theorem applySteps_failsBy {P : CatalogError → Prop} {sources : List Nat} {steps : List Upcaster}
    (h : List.Forall₂ (fun _ step => ∀ json, (step.apply unobserved json).FailsBy P) sources steps) (payload : CanonicalJson)
    : (applySteps steps payload).FailsBy P := by
  induction h generalizing payload with
  | nil =>
    intro error herror
    cases herror
  | cons hstep _ ih => exact (hstep payload).bind ih

end Errors

section Decoding

variable {registrations : List (Registration E)} {builder : EventCatalogBuilder E}
  {kinds : SortedMap String (SealedEntry E)} {sha256 : Sha256}

-- The decoding of an event by a catalog, in terms of what was registered.
structure SealedEventCatalog.Decodes (codec : EventCodec E) (registrations : List (Registration E))
    (catalog : SealedEventCatalog E) (event : Event) : Prop where
  complete : ∀ kind source, catalog.decode event ≠ .err (.missingUpcaster kind source)
  unknown : ((∃ kind, catalog.decode event = .err (.unknownKind kind))
      ∨ (∃ kind version, catalog.decode event = .err (.unknownVersion kind version)))
    ↔ catalog.supports event.kind event.schemaVersion = false
  supported : catalog.supports event.kind event.schemaVersion = true →
    ∃ path, Registration.Path codec registrations event.kind event.schemaVersion path
      ∧ (∀ path', Registration.Path codec registrations event.kind event.schemaVersion path' → path' = path)
      ∧ catalog.decode event = (applySteps path.1 event.payload).bind (path.2.decode unobserved)

theorem Registration.Path.failsBy {name : String} {version : Nat} {path : List Upcaster × CurrentSchema E}
    (h : Registration.Path codec registrations name version path) (payload : CanonicalJson)
    : ((applySteps path.1 payload).bind (path.2.decode unobserved)).FailsBy CatalogError.OfTransform := by
  obtain ⟨registration, -, hcurrent⟩ := h.current
  apply Attempt.FailsBy.bind
  . have hsteps := h.steps.imp (S := fun _ step => ∀ json, (step.apply unobserved json).FailsBy CatalogError.OfTransform)
      (fun {source step} hstep => by
        obtain ⟨registration, -, hedge⟩ := hstep
        exact Registration.edge_failsBy hedge)
    exact applySteps_failsBy hsteps payload
  . exact Registration.mapper_failsBy hcurrent

variable {catalog : SealedEventCatalog E} {kind : SealedKind E} {event : Event}

theorem decode_of_unknownKind (h : catalog.kinds event.kind = none)
    : catalog.decode event = .err (.unknownKind event.kind)
      ∧ catalog.supports event.kind event.schemaVersion = false := by
  unfold SealedEventCatalog.decode SealedEventCatalog.decodeObserved SealedEventCatalog.supports
  rw [h]
  exact ⟨rfl, rfl⟩

theorem decode_of_unknownVersion (h : catalog.kinds event.kind = some kind)
    (hschema : kind.schemas event.schemaVersion = none)
    : catalog.decode event = .err (.unknownVersion event.kind event.schemaVersion)
      ∧ catalog.supports event.kind event.schemaVersion = false := by
  unfold SealedEventCatalog.decode SealedEventCatalog.decodeObserved SealedEventCatalog.supports
  rw [h]
  dsimp only
  rw [hschema, Option.any_some, hschema]
  exact ⟨rfl, rfl⟩

theorem decode_of_steps {schemaId : String} {steps : List Upcaster} (h : catalog.kinds event.kind = some kind)
    (hschema : kind.schemas event.schemaVersion = some schemaId)
    (hbound : event.schemaVersion ≤ kind.current.version)
    (hsteps : List.Forall₂ (fun source step => kind.upcasters source = some step)
      (List.range' event.schemaVersion (kind.current.version - event.schemaVersion)) steps)
    : catalog.decode event = (applySteps steps event.payload).bind (kind.current.decode unobserved)
      ∧ catalog.supports event.kind event.schemaVersion = true := by
  unfold SealedEventCatalog.decode SealedEventCatalog.decodeObserved SealedEventCatalog.supports
  rw [h]
  dsimp only
  rw [hschema, Option.isNone_some, if_neg Bool.false_ne_true, if_neg (not_lt.mpr hbound),
    upcast_eq_applySteps hsteps, Option.any_some, hschema]
  constructor
  . cases applySteps steps event.payload <;> rfl
  . rfl

theorem decodes_of_sealKinds (hbuild : EventCatalogBuilder.build codec registrations = .ok builder)
    (hseal : builder.sealKinds = .ok kinds) (event : Event)
    : (EventCatalogBuilder.sealedCatalog sha256 kinds).Decodes codec registrations event := by
  have hholds := EventCatalogBuilder.holds_of_build hbuild
  have hsealed := sealKinds_ok hseal event.kind
  have hkinds : (EventCatalogBuilder.sealedCatalog sha256 kinds).kinds event.kind
      = (kinds.get? event.kind).map SealedEntry.kind := rfl
  cases hkind : builder.kinds.get? event.kind with
  | none =>
    rw [hsealed.2 hkind, Option.map_none] at hkinds
    obtain ⟨hdecode, hsupports⟩ := decode_of_unknownKind hkinds
    constructor
    . rw [hdecode]
      intro kind source h
      cases h
    . rw [hdecode, hsupports]
      exact iff_of_true (.inl ⟨_, rfl⟩) rfl
    . rw [hsupports]
      intro h
      cases h
  | some kind =>
    obtain ⟨entry, hentry, hof⟩ := hsealed.1 kind hkind
    rw [hentry, Option.map_some] at hkinds
    cases hschema : entry.schemas.get? event.schemaVersion with
    | none =>
      obtain ⟨hdecode, hsupports⟩ := decode_of_unknownVersion hkinds hschema
      constructor
      . rw [hdecode]
        intro kind source h
        cases h
      . rw [hdecode, hsupports]
        exact iff_of_true (.inr ⟨_, _, rfl⟩) rfl
      . rw [hsupports]
        intro h
        cases h
    | some schemaId =>
      have hsome : (entry.schemas.get? event.schemaVersion).isSome = true := by
        rw [hschema]
        rfl
      have hbound := hof.bound _ hsome
      obtain ⟨steps, hsteps⟩ := hof.steps hsome (Nat.add_sub_of_le hbound)
      have hkindOf : builder.kindOf event.kind = kind := by
        unfold EventCatalogBuilder.kindOf
        rw [hkind]
        rfl
      have hpath : Registration.Path codec registrations event.kind event.schemaVersion
          (steps, entry.current) := by
        refine ⟨?_, hbound, ?_⟩
        . apply (hholds.mappers _ _).mp
          rw [hkindOf]
          exact hof.current
        . apply hsteps.imp
          intro source step hstep
          apply (hholds.edges _ _ _).mp
          rw [hkindOf]
          exact hstep
      rw [← hof.upcasters] at hsteps
      obtain ⟨hdecode, hsupports⟩ := decode_of_steps hkinds hschema hbound hsteps
      have hfails := hpath.failsBy event.payload
      constructor
      . intro kind source h
        rw [hdecode] at h
        exact hfails _ h
      . rw [hdecode, hsupports]
        apply iff_of_false
        . intro h
          cases h with
          | inl h =>
            obtain ⟨kind, h⟩ := h
            exact hfails _ h
          | inr h =>
            obtain ⟨kind, version, h⟩ := h
            exact hfails _ h
        . exact Bool.false_ne_true.symm
      . intro _
        exact ⟨_, hpath, fun _ hpath' => hholds.path_unique hpath' hpath, hdecode⟩

theorem upcast_observed {inputs : Set CanonicalJson} {histories : Histories} {name : String}
    (h : histories.Pure sha256 codec registrations inputs)
    (hsteps : ∀ source step, kind.upcasters source = some step →
      ∃ registration ∈ registrations, registration.edge = some (name, source, step))
    (edges version : Nat) {payload : CanonicalJson} (hpayload : payload ∈ inputs)
    : SealedEventCatalog.upcast kind name ((histories.stability sha256).upcasters name) edges version payload
        = SealedEventCatalog.upcast kind name (fun _ => unobserved) edges version payload
      ∧ ∀ output, SealedEventCatalog.upcast kind name (fun _ => unobserved) edges version payload = .ok output →
        output ∈ inputs := by
  induction edges generalizing version payload with
  | zero =>
    refine ⟨rfl, ?_⟩
    intro output houtput
    cases houtput
    exact hpayload
  | succ edges ih =>
    unfold SealedEventCatalog.upcast
    cases hstep : kind.upcasters version with
    | none =>
      refine ⟨rfl, ?_⟩
      intro output houtput
      cases houtput
    | some step =>
      obtain ⟨registration, hmem, hedge⟩ := hsteps version step hstep
      obtain ⟨hsame, hinputs⟩ := h.apply_eq hmem hedge hpayload
      dsimp only
      rw [hsame]
      cases hresult : step.apply unobserved payload with
      | ok output => exact ih step.target (hinputs output hresult)
      | err error =>
        refine ⟨rfl, ?_⟩
        intro output houtput
        cases houtput
      | panicked =>
        refine ⟨rfl, ?_⟩
        intro output houtput
        cases houtput

-- No earlier call changes what a catalog of pure transforms decodes.
theorem decodeObserved_of_sealKinds (hbuild : EventCatalogBuilder.build codec registrations = .ok builder)
    (hseal : builder.sealKinds = .ok kinds) {inputs : Set CanonicalJson} {histories : Histories}
    (h : histories.Pure sha256 codec registrations inputs) (hpayload : event.payload ∈ inputs)
    : (EventCatalogBuilder.sealedCatalog sha256 kinds).decodeObserved (histories.stability sha256) event
      = (EventCatalogBuilder.sealedCatalog sha256 kinds).decode event := by
  have hholds := EventCatalogBuilder.holds_of_build hbuild
  have hsealed := sealKinds_ok hseal event.kind
  have hkinds : (EventCatalogBuilder.sealedCatalog sha256 kinds).kinds event.kind
      = (kinds.get? event.kind).map SealedEntry.kind := rfl
  unfold SealedEventCatalog.decode SealedEventCatalog.decodeObserved
  rw [hkinds]
  cases hkind : builder.kinds.get? event.kind with
  | none =>
    rw [hsealed.2 hkind]
    rfl
  | some kind =>
    obtain ⟨entry, hentry, hof⟩ := hsealed.1 kind hkind
    have hkindOf : builder.kindOf event.kind = kind := by
      unfold EventCatalogBuilder.kindOf
      rw [hkind]
      rfl
    have hsteps : ∀ source step, entry.kind.upcasters source = some step →
        ∃ registration ∈ registrations, registration.edge = some (event.kind, source, step) := by
      intro source step hstep
      apply (hholds.edges _ _ _).mp
      rw [hkindOf, ← hof.upcasters]
      exact hstep
    obtain ⟨registration, hmem, hmapper⟩ := (hholds.mappers event.kind entry.current).mp (by
      rw [hkindOf]
      exact hof.current)
    obtain ⟨hsame, hinputs⟩ := upcast_observed h hsteps (entry.kind.current.version - event.schemaVersion)
      event.schemaVersion hpayload
    rw [hentry, Option.map_some]
    dsimp only
    split
    . rfl
    . split
      . rfl
      . rw [hsame]
        cases hresult : SealedEventCatalog.upcast entry.kind event.kind (fun _ => unobserved)
            (entry.kind.current.version - event.schemaVersion) event.schemaVersion event.payload with
        | err error => rfl
        | panicked => rfl
        | ok payload => exact h.decode_eq hmem hmapper (hinputs payload hresult)

end Decoding

end Pliego
