import Pliego.Lib.Commute
import Pliego.Log.Catalog

/-!
The construction of event catalogs: registrations of current schemas and upcasters, and the checks with
which a catalog is sealed.
-/

namespace Pliego

open Bytes

def maxCatalogKinds : Nat := 1024

def maxSchemasPerKind : Nat := 1024

-- The variants of `CatalogError` with which a construction fails.
inductive CatalogBuildError where
  | emptyCatalog
  | tooManyKinds
  | tooManySchemas (kind : String)
  | tooManyUpcasters (kind : String)
  | invalidSchema (error : LogError)
  | invalidMappingId (reason : String)
  | invalidStepId (reason : String)
  | duplicateSchema (kind : String) (version : Nat)
  | duplicateCurrent (kind : String)
  | duplicateUpcaster (kind : String) (source : Nat)
  | missingCurrent (kind : String)
  | missingSchema (kind : String) (version : Nat)
  | missingUpcaster (kind : String) (source : Nat)
  | schemaPastCurrent (kind : String) (version current : Nat)
  | schemaGap (kind : String) (version : Nat)
  | upcastPastCurrent (kind : String) (source current : Nat)
  | crossKindUpcast (source target : String)
  | nonAdjacentUpcast (kind : String) (source target : Nat)
  deriving DecidableEq, Repr

def Attempt.bind {ε α β : Type} (attempt : Attempt ε α) (f : α → Attempt ε β) : Attempt ε β :=
  match attempt with
  | .ok value => f value
  | .err error => .err error
  | .panicked => .panicked

def Attempt.ofExcept {ε ε' α : Type} (wrap : ε → ε') (result : Except ε α) : Attempt ε' α :=
  match result with
  | .ok value => .ok value
  | .error error => .err (wrap error)

-- The reducer-facing type: `CanonicalJson::from_serialize` and `PartialEq`.
structure EventCodec (E : Type) where
  serialize : E → Except CanonicalJsonError CanonicalJson
  eq : E → E → Bool

section Transforms

variable {E S T : Type}

-- The mapper may panic.
def mapOnce (schema : EventSchema T) (intoEvent : T → Option E) (json : CanonicalJson)
    : Attempt CatalogError E :=
  (Attempt.ofExcept .payload (schema.deserialize json)).bind fun value =>
    match intoEvent value with
    | some event => .ok event
    | none => .panicked

def decoder (codec : EventCodec E) (schema : EventSchema T) (intoEvent : T → Option E)
    (stable : TransformStability) (json : CanonicalJson) : Attempt CatalogError E :=
  (mapOnce schema intoEvent json).bind fun first =>
    (mapOnce schema intoEvent json).bind fun second =>
      if !codec.eq first second then
        .err (.nondeterministicMapping schema.kind schema.version)
      else
        (Attempt.ofExcept .payload (codec.serialize first)).bind fun firstJson =>
          (Attempt.ofExcept .payload (codec.serialize second)).bind fun secondJson =>
            if firstJson ≠ secondJson ∨ !stable json firstJson then
              .err (.nondeterministicMapping schema.kind schema.version)
            else
              .ok first

def upcastOnce (source : EventSchema S) (target : EventSchema T) (upcast : S → Attempt String T)
    (json : CanonicalJson) : Attempt CatalogError CanonicalJson :=
  (Attempt.ofExcept .payload (source.deserialize json)).bind fun value =>
    match upcast value with
    | .ok output => Attempt.ofExcept .payload (target.serialize output)
    | .err reason => .err (.upcastFailed source.kind source.version reason)
    | .panicked => .panicked

def deterministic (source : EventSchema S) (target : EventSchema T) (upcast : S → Attempt String T)
    (stable : TransformStability) (json : CanonicalJson) : Attempt CatalogError CanonicalJson :=
  (upcastOnce source target upcast json).bind fun first =>
    (upcastOnce source target upcast json).bind fun second =>
      if first ≠ second ∨ !stable json first then
        .err (.nondeterministicUpcast source.kind source.version)
      else
        .ok first

end Transforms

structure KindBuilder (E : Type) where
  schemas : SortedMap Nat String
  current : Option (CurrentSchema E)
  upcasters : SortedMap Nat Upcaster
  adjacent : ∀ source edge, upcasters.get? source = some edge → edge.target = source + 1

namespace KindBuilder

variable {E T : Type}

def empty : KindBuilder E := ⟨.empty, none, .empty, fun _ _ h => by cases h⟩

def registerSchema (name : String) (version : Nat) (schemaId : String) (kind : KindBuilder E)
    : Except CatalogBuildError (KindBuilder E) :=
  match kind.schemas.get? version with
  | some existing =>
    if existing = schemaId then .ok kind else .error (.duplicateSchema name version)
  | none =>
    if maxSchemasPerKind ≤ kind.schemas.len then
      .error (.tooManySchemas name)
    else
      .ok { kind with schemas := kind.schemas.insert version schemaId }

def setCurrent (name : String) (current : CurrentSchema E) (kind : KindBuilder E)
    : Except CatalogBuildError (KindBuilder E) :=
  match kind.current with
  | some _ => .error (.duplicateCurrent name)
  | none => .ok { kind with current := some current }

theorem adjacent_insert {kind : KindBuilder E} {source : Nat} {edge : Upcaster} (hedge : edge.target = source + 1)
    : ∀ source' edge', (kind.upcasters.insert source edge).get? source' = some edge' →
        edge'.target = source' + 1 := by
  intro source' edge' hget
  rw [SortedMap.get?_insert] at hget
  split at hget
  . next hsame =>
    cases hget
    rw [hsame, hedge]
  . exact kind.adjacent source' edge' hget

def addUpcaster (name : String) (source : Nat) (edge : Upcaster) (hedge : edge.target = source + 1)
    (kind : KindBuilder E) : Except CatalogBuildError (KindBuilder E) :=
  match kind.upcasters.get? source with
  | some _ => .error (.duplicateUpcaster name source)
  | none =>
    if maxSchemasPerKind - 1 ≤ kind.upcasters.len then
      .error (.tooManyUpcasters name)
    else
      .ok { kind with
        upcasters := kind.upcasters.insert source edge
        adjacent := adjacent_insert hedge }

end KindBuilder

structure EventCatalogBuilder (E : Type) where
  kinds : SortedMap String (KindBuilder E)

namespace EventCatalogBuilder

variable {E S T : Type}

def new : EventCatalogBuilder E := ⟨.empty⟩

-- The entry of a kind, made when it is missing. What an edit that fails leaves behind is not kept.
def onKind (name : String) (edit : KindBuilder E → Except CatalogBuildError (KindBuilder E))
    (builder : EventCatalogBuilder E) : Except CatalogBuildError (EventCatalogBuilder E) :=
  if (builder.kinds.get? name).isNone && decide (maxCatalogKinds ≤ builder.kinds.len) then
    .error .tooManyKinds
  else
    (edit ((builder.kinds.get? name).getD .empty)).bind fun kind =>
      .ok ⟨builder.kinds.insert name kind⟩

def currentSchema (codec : EventCodec E) (schema : EventSchema T) (mappingId : String)
    (intoEvent : T → Option E) : CurrentSchema E :=
  ⟨schema.version, mappingId, decoder codec schema intoEvent⟩

def registerCurrent (codec : EventCodec E) (schema : EventSchema T) (mappingId : String)
    (intoEvent : T → Option E) (builder : EventCatalogBuilder E)
    : Except CatalogBuildError (EventCatalogBuilder E) := do
  (validateSchema schema).mapError .invalidSchema
  (validateContractId mappingId).mapError .invalidMappingId
  builder.onKind schema.kind fun kind =>
    (kind.registerSchema schema.kind schema.version schema.schemaId).bind fun kind =>
      kind.setCurrent schema.kind (currentSchema codec schema mappingId intoEvent)

def upcaster (source : EventSchema S) (target : EventSchema T) (stepId : String)
    (upcast : S → Attempt String T) : Upcaster :=
  ⟨target.version, stepId, deterministic source target upcast⟩

def registerUpcaster (source : EventSchema S) (target : EventSchema T) (stepId : String)
    (upcast : S → Attempt String T) (builder : EventCatalogBuilder E)
    : Except CatalogBuildError (EventCatalogBuilder E) := do
  (validateSchema source).mapError .invalidSchema
  (validateSchema target).mapError .invalidSchema
  if source.kind ≠ target.kind then
    .error (.crossKindUpcast source.kind target.kind)
  else if hadjacent : target.version = source.version + 1 then do
    (validateContractId stepId).mapError .invalidStepId
    builder.onKind source.kind fun kind =>
      (kind.registerSchema source.kind source.version source.schemaId).bind fun kind =>
        (kind.registerSchema source.kind target.version target.schemaId).bind fun kind =>
          kind.addUpcaster source.kind source.version (upcaster source target stepId upcast) hadjacent
  else
    .error (.nonAdjacentUpcast source.kind source.version target.version)

end EventCatalogBuilder

-- One call of a builder's registration methods.
inductive Registration (E : Type) : Type 1 where
  | current {T : Type} (schema : EventSchema T) (mappingId : String) (intoEvent : T → Option E)
  | upcaster {S T : Type} (source : EventSchema S) (target : EventSchema T) (stepId : String)
    (upcast : S → Attempt String T)

def Registration.run {E : Type} (codec : EventCodec E) (builder : EventCatalogBuilder E)
    (registration : Registration E) : Except CatalogBuildError (EventCatalogBuilder E) :=
  match registration with
  | .current schema mappingId intoEvent =>
    builder.registerCurrent codec schema mappingId intoEvent
  | .upcaster source target stepId upcast =>
    builder.registerUpcaster source target stepId upcast

def EventCatalogBuilder.build {E : Type} (codec : EventCodec E) (registrations : List (Registration E))
    : Except CatalogBuildError (EventCatalogBuilder E) :=
  registrations.foldlM (Registration.run codec) .new

-- A sealed kind, in the maps of the builder.
structure SealedEntry (E : Type) where
  schemas : SortedMap Nat String
  current : CurrentSchema E
  upcasters : SortedMap Nat Upcaster
  adjacent : ∀ source edge, upcasters.get? source = some edge → edge.target = source + 1

def SealedEntry.kind {E : Type} (entry : SealedEntry E) : SealedKind E :=
  ⟨entry.schemas.get?, entry.current, entry.upcasters.get?, entry.adjacent⟩

namespace EventCatalogBuilder

variable {E : Type}

-- The versions ascend, so the next one is no overflow.
def checkVersions (name : String) (current : Nat) (previous : Option Nat) (versions : List Nat)
    : Except CatalogBuildError Unit :=
  match versions with
  | [] => .ok ()
  | version :: rest =>
    if current < version then
      .error (.schemaPastCurrent name version current)
    else
      match previous with
      | some previous =>
        if version ≠ previous + 1 then
          .error (.schemaGap name (previous + 1))
        else
          checkVersions name current (some version) rest
      | none => checkVersions name current (some version) rest

def checkEdge (name : String) (upcasters : SortedMap Nat Upcaster) (version : Nat)
    : Except CatalogBuildError Unit :=
  match upcasters.get? version with
  | none => .error (.missingUpcaster name version)
  | some edge =>
    if edge.target ≠ version + 1 then
      .error (.nonAdjacentUpcast name version edge.target)
    else
      .ok ()

def sealKind (name : String) (kind : KindBuilder E) : Except CatalogBuildError (SealedEntry E) :=
  match kind.current with
  | none => .error (.missingCurrent name)
  | some current =>
    if (kind.schemas.get? current.version).isNone then
      .error (.missingSchema name current.version)
    else do
      checkVersions name current.version none kind.schemas.keys
      (kind.schemas.keys.takeWhile (fun version => decide (version < current.version))).forM
        (checkEdge name kind.upcasters)
      match kind.upcasters.entries.find? (fun entry =>
        decide (current.version ≤ entry.1) || decide (current.version < entry.2.target)) with
      | some entry => .error (.upcastPastCurrent name entry.1 current.version)
      | none => .ok ⟨kind.schemas, current, kind.upcasters, kind.adjacent⟩

def sealKinds (builder : EventCatalogBuilder E)
    : Except CatalogBuildError (SortedMap String (SealedEntry E)) :=
  if builder.kinds.entries.isEmpty then
    .error .emptyCatalog
  else
    builder.kinds.entries.foldlM (fun kinds entry =>
      (sealKind entry.1 entry.2).bind fun kind => .ok (kinds.insert entry.1 kind)) .empty

def schemaPreimage (schema : Nat × String) : List UInt8 :=
  beBytes 4 schema.1 ++ lenPrefixed (utf8 schema.2)

def edgePreimage (edge : Nat × Upcaster) : List UInt8 :=
  beBytes 4 edge.1 ++ (beBytes 4 edge.2.target ++ lenPrefixed (utf8 edge.2.stepId))

def kindPreimage (entry : String × SealedEntry E) : List UInt8 :=
  lenPrefixed (utf8 entry.1) ++ (beBytes 4 entry.2.current.version
    ++ (lenPrefixed (utf8 entry.2.current.mappingId)
    ++ ((beBytes 8 entry.2.schemas.len ++ entry.2.schemas.entries.flatMap schemaPreimage)
    ++ (beBytes 8 entry.2.upcasters.len ++ entry.2.upcasters.entries.flatMap edgePreimage))))

def schemaSetPreimage (kinds : SortedMap String (SealedEntry E)) : List UInt8 :=
  utf8 "pliego-log/2/schema-set" ++ (beBytes 8 kinds.len ++ kinds.entries.flatMap kindPreimage)

def sealedCatalog (sha256 : Sha256) (kinds : SortedMap String (SealedEntry E))
    : SealedEventCatalog E :=
  ⟨fun name => (kinds.get? name).map SealedEntry.kind, sha256 (schemaSetPreimage kinds)⟩

def sealCatalog (sha256 : Sha256) (builder : EventCatalogBuilder E)
    : Except CatalogBuildError (SealedEventCatalog E) :=
  (builder.sealKinds).bind fun kinds => .ok (sealedCatalog sha256 kinds)

end EventCatalogBuilder

def SealedEventCatalog.supports {E : Type} (catalog : SealedEventCatalog E) (kind : String)
    (schemaVersion : Nat) : Bool :=
  (catalog.kinds kind).any (fun entry => (entry.schemas schemaVersion).isSome)

end Pliego
