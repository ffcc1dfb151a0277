import Pliego.Router.Pattern

/-!
The specifications that a route graph is built from: resources, scopes and routes, with their
constructors.
-/

namespace Pliego

open Bytes Text

namespace Router

def maxRouteMiddleware : Nat := 32

def maxErrorBoundaries : Nat := 16

def maxRouteLoaders : Nat := 32

def maxRouteActions : Nat := 16

def maxRouteResources : Nat := 32

def maxResourceCapabilities : Nat := 32

def maxScopeDepth : Nat := 16

def defaultMaxScopes : Nat := 1024

def defaultMaxRoutes : Nat := 4096

-- Lowercase words of letters and digits joined by single dashes.
def isDashed (maximum : Nat) (id : String) : Bool :=
  match utf8 id with
  | [] => false
  | first :: rest =>
    (utf8 id).length ≤ maximum && isAsciiLowercase first
      && rest.all (fun byte => isAsciiLowercase byte || isAsciiDigit byte || byte == 45)
      && !endsWith '-' id && !containsPair '-' '-' id.toList

def isRouteId (id : String) : Bool := isDashed maxRouteIdBytes id

def validateRouteId (id : String) : Except RouteError Unit :=
  if isRouteId id then .ok () else .error (.invalidRouteId id)

def validateScopeId (id : String) : Except RouteError Unit :=
  if isRouteId id then .ok () else .error (.invalidScopeId id)

inductive BehaviorKind where
  | middleware
  | errorBoundary

def validateBehaviorId (id : String) (kind : BehaviorKind) : Except RouteError Unit :=
  if isRouteId id then
    .ok ()
  else
    match kind with
    | .middleware => .error (.invalidMiddlewareId id)
    | .errorBoundary => .error (.invalidErrorBoundaryId id)

def isDataId (id : String) : Bool := isDashed 96 id

def validateDataId (id : String) (invalid : String → RouteError) : Except RouteError Unit :=
  if isDataId id then .ok () else .error (invalid id)

def pushId (maximum : Nat) (tooMany : Nat → RouteError) (duplicate : String → RouteError)
    (ids : List String) (id : String) : Except RouteError (List String) :=
  if ids.length ≥ maximum then
    .error (tooMany maximum)
  else if id ∈ ids then
    .error (duplicate id)
  else
    .ok (ids ++ [id])

def pushMiddleware (ids : List String) (id : String) : Except RouteError (List String) := do
  validateBehaviorId id .middleware
  pushId maxRouteMiddleware .tooManyMiddleware .duplicateMiddleware ids id

def pushErrorBoundary (ids : List String) (id : String) : Except RouteError (List String) := do
  validateBehaviorId id .errorBoundary
  pushId maxErrorBoundaries .tooManyErrorBoundaries .duplicateErrorBoundary ids id

def pushLoader (ids : List String) (id : String) : Except RouteError (List String) := do
  validateDataId id .invalidLoaderId
  pushId maxRouteLoaders .tooManyLoaders .duplicateLoader ids id

def pushAction (ids : List String) (id : String) : Except RouteError (List String) := do
  validateDataId id .invalidActionId
  pushId maxRouteActions .tooManyActions .duplicateAction ids id

structure RouteResourceSpec where
  id : String
  capabilities : SortedSet String
  deriving DecidableEq

namespace RouteResourceSpec

def new (id : String) : Except RouteError RouteResourceSpec := do
  validateDataId id .invalidResourceId
  .ok ⟨id, .empty⟩

def requiring (spec : RouteResourceSpec) (capability : String)
    : Except RouteError RouteResourceSpec := do
  validateDataId capability .invalidResourceCapability
  if spec.capabilities.len ≥ maxResourceCapabilities then
    .error (.tooManyResourceCapabilities maxResourceCapabilities)
  else
    .ok { spec with capabilities := spec.capabilities.insert capability () }

inductive Built : RouteResourceSpec → Prop where
  | new {id : String} {spec : RouteResourceSpec} (h : new id = .ok spec) : Built spec
  | requiring {spec spec' : RouteResourceSpec} {capability : String} (hbuilt : Built spec)
    (h : spec.requiring capability = .ok spec') : Built spec'

end RouteResourceSpec

def pushResource (resources : List RouteResourceSpec) (resource : RouteResourceSpec)
    : Except RouteError (List RouteResourceSpec) :=
  if resources.length ≥ maxRouteResources then
    .error (.tooManyResources maxRouteResources)
  else if resource.id ∈ resources.map RouteResourceSpec.id then
    .error (.duplicateResource resource.id)
  else
    .ok (resources ++ [resource])

inductive RouteScopeKind where
  | group
  | layout
  deriving DecidableEq, Repr

def RouteScopeKind.asStr (kind : RouteScopeKind) : String :=
  match kind with
  | .group => "group"
  | .layout => "layout"

structure RouteScopeSpec where
  id : String
  kind : RouteScopeKind
  parent : Option String
  middleware : List String
  errorBoundaries : List String
  loaders : List String
  resources : List RouteResourceSpec
  deriving DecidableEq

namespace RouteScopeSpec

def new (id : String) (kind : RouteScopeKind) : Except RouteError RouteScopeSpec := do
  validateScopeId id
  .ok {
    id := id
    kind := kind
    parent := none
    middleware := []
    errorBoundaries := []
    loaders := []
    resources := [] }

def withParent (spec : RouteScopeSpec) (id : String) : Except RouteError RouteScopeSpec := do
  validateScopeId id
  .ok { spec with parent := some id }

def withMiddleware (spec : RouteScopeSpec) (id : String) : Except RouteError RouteScopeSpec := do
  let ids ← pushMiddleware spec.middleware id
  .ok { spec with middleware := ids }

def withErrorBoundary (spec : RouteScopeSpec) (id : String) : Except RouteError RouteScopeSpec := do
  let ids ← pushErrorBoundary spec.errorBoundaries id
  .ok { spec with errorBoundaries := ids }

def withLoader (spec : RouteScopeSpec) (id : String) : Except RouteError RouteScopeSpec := do
  let ids ← pushLoader spec.loaders id
  .ok { spec with loaders := ids }

def withResource (spec : RouteScopeSpec) (resource : RouteResourceSpec)
    : Except RouteError RouteScopeSpec := do
  let resources ← pushResource spec.resources resource
  .ok { spec with resources := resources }

inductive Built : RouteScopeSpec → Prop where
  | new {id : String} {kind : RouteScopeKind} {spec : RouteScopeSpec} (h : new id kind = .ok spec) :
    Built spec
  | withParent {spec spec' : RouteScopeSpec} {id : String} (hbuilt : Built spec)
    (h : spec.withParent id = .ok spec') : Built spec'
  | withMiddleware {spec spec' : RouteScopeSpec} {id : String} (hbuilt : Built spec)
    (h : spec.withMiddleware id = .ok spec') : Built spec'
  | withErrorBoundary {spec spec' : RouteScopeSpec} {id : String} (hbuilt : Built spec)
    (h : spec.withErrorBoundary id = .ok spec') : Built spec'
  | withLoader {spec spec' : RouteScopeSpec} {id : String} (hbuilt : Built spec)
    (h : spec.withLoader id = .ok spec') : Built spec'
  | withResource {spec spec' : RouteScopeSpec} {resource : RouteResourceSpec} (hbuilt : Built spec)
    (hresource : resource.Built) (h : spec.withResource resource = .ok spec') : Built spec'

end RouteScopeSpec

structure RouteSpec where
  id : String
  method : RouteMethod
  pattern : RoutePattern
  scope : Option String
  middleware : List String
  errorBoundaries : List String
  loaders : List String
  actions : List String
  cachePolicy : Option String
  resources : List RouteResourceSpec
  deriving DecidableEq

namespace RouteSpec

def new (unicode : Unicode) (id : String) (method : RouteMethod) (pattern : String)
    : Except RouteError RouteSpec := do
  validateRouteId id
  let pattern ← RoutePattern.parse unicode pattern
  .ok {
    id := id
    method := method
    pattern := pattern
    scope := none
    middleware := []
    errorBoundaries := []
    loaders := []
    actions := []
    cachePolicy := none
    resources := [] }

def withScope (spec : RouteSpec) (id : String) : Except RouteError RouteSpec := do
  validateScopeId id
  .ok { spec with scope := some id }

def withMiddleware (spec : RouteSpec) (id : String) : Except RouteError RouteSpec := do
  let ids ← pushMiddleware spec.middleware id
  .ok { spec with middleware := ids }

def withErrorBoundary (spec : RouteSpec) (id : String) : Except RouteError RouteSpec := do
  let ids ← pushErrorBoundary spec.errorBoundaries id
  .ok { spec with errorBoundaries := ids }

def withLoader (spec : RouteSpec) (id : String) : Except RouteError RouteSpec := do
  let ids ← pushLoader spec.loaders id
  .ok { spec with loaders := ids }

def withAction (spec : RouteSpec) (id : String) : Except RouteError RouteSpec := do
  let ids ← pushAction spec.actions id
  .ok { spec with actions := ids }

def withCachePolicy (spec : RouteSpec) (id : String) : Except RouteError RouteSpec := do
  validateDataId id .invalidCachePolicyId
  .ok { spec with cachePolicy := some id }

def withResource (spec : RouteSpec) (resource : RouteResourceSpec) : Except RouteError RouteSpec := do
  let resources ← pushResource spec.resources resource
  .ok { spec with resources := resources }

inductive Built (unicode : Unicode) : RouteSpec → Prop where
  | new {id : String} {method : RouteMethod} {pattern : String} {spec : RouteSpec}
    (h : new unicode id method pattern = .ok spec) : Built unicode spec
  | withScope {spec spec' : RouteSpec} {id : String} (hbuilt : Built unicode spec)
    (h : spec.withScope id = .ok spec') : Built unicode spec'
  | withMiddleware {spec spec' : RouteSpec} {id : String} (hbuilt : Built unicode spec)
    (h : spec.withMiddleware id = .ok spec') : Built unicode spec'
  | withErrorBoundary {spec spec' : RouteSpec} {id : String} (hbuilt : Built unicode spec)
    (h : spec.withErrorBoundary id = .ok spec') : Built unicode spec'
  | withLoader {spec spec' : RouteSpec} {id : String} (hbuilt : Built unicode spec)
    (h : spec.withLoader id = .ok spec') : Built unicode spec'
  | withAction {spec spec' : RouteSpec} {id : String} (hbuilt : Built unicode spec)
    (h : spec.withAction id = .ok spec') : Built unicode spec'
  | withCachePolicy {spec spec' : RouteSpec} {id : String} (hbuilt : Built unicode spec)
    (h : spec.withCachePolicy id = .ok spec') : Built unicode spec'
  | withResource {spec spec' : RouteSpec} {resource : RouteResourceSpec}
    (hbuilt : Built unicode spec) (hresource : resource.Built)
    (h : spec.withResource resource = .ok spec') : Built unicode spec'

end RouteSpec

section Valid

-- A list that grew by `pushId` alone.
structure IdList (valid : String → Bool) (maximum : Nat) (ids : List String) : Prop where
  valid : ∀ id ∈ ids, valid id = true
  nodup : ids.Nodup
  length : ids.length ≤ maximum

theorem IdList.nil {valid : String → Bool} {maximum : Nat} : IdList valid maximum [] :=
  ⟨by simp, List.nodup_nil, Nat.zero_le _⟩

variable {id : String} {ids ids' : List String}

theorem IdList.push {valid : String → Bool} {maximum : Nat} {tooMany : Nat → RouteError}
    {duplicate : String → RouteError} (hids : IdList valid maximum ids) (hid : valid id = true)
    (h : pushId maximum tooMany duplicate ids id = .ok ids') : IdList valid maximum ids' := by
  unfold pushId at h
  split at h
  . cases h
  . next hroom =>
    split at h
    . cases h
    . next hfresh =>
      cases h
      refine ⟨?_, ?_, ?_⟩
      . intro other hmem
        cases List.mem_append.mp hmem with
        | inl hold => exact hids.valid other hold
        | inr hnew => rw [List.mem_singleton.mp hnew, hid]
      . exact List.nodup_append.mpr ⟨hids.nodup, by simp, by
          intro a ha b hb hab
          rw [List.mem_singleton.mp hb] at hab
          exact hfresh (hab ▸ ha)⟩
      . rw [List.length_append, List.length_singleton]
        omega

theorem validateRouteId_ok : validateRouteId id = .ok () ↔ isRouteId id = true := by
  unfold validateRouteId
  split <;> simp_all

theorem validateScopeId_ok : validateScopeId id = .ok () ↔ isRouteId id = true := by
  unfold validateScopeId
  split <;> simp_all

theorem validateBehaviorId_ok {kind : BehaviorKind}
    : validateBehaviorId id kind = .ok () ↔ isRouteId id = true := by
  unfold validateBehaviorId
  split
  . simp_all
  . cases kind <;> simp_all

theorem validateDataId_ok {invalid : String → RouteError}
    : validateDataId id invalid = .ok () ↔ isDataId id = true := by
  unfold validateDataId
  split <;> simp_all

theorem pushMiddleware_ok (hids : IdList isRouteId maxRouteMiddleware ids) (h : pushMiddleware ids id = .ok ids')
    : IdList isRouteId maxRouteMiddleware ids' := by
  obtain ⟨hid, h⟩ := Except.bind_unit_eq_ok.mp h
  exact hids.push (validateBehaviorId_ok.mp hid) h

theorem pushErrorBoundary_ok
    (hids : IdList isRouteId maxErrorBoundaries ids) (h : pushErrorBoundary ids id = .ok ids')
    : IdList isRouteId maxErrorBoundaries ids' := by
  obtain ⟨hid, h⟩ := Except.bind_unit_eq_ok.mp h
  exact hids.push (validateBehaviorId_ok.mp hid) h

theorem pushLoader_ok (hids : IdList isDataId maxRouteLoaders ids) (h : pushLoader ids id = .ok ids')
    : IdList isDataId maxRouteLoaders ids' := by
  obtain ⟨hid, h⟩ := Except.bind_unit_eq_ok.mp h
  exact hids.push (validateDataId_ok.mp hid) h

theorem pushAction_ok (hids : IdList isDataId maxRouteActions ids) (h : pushAction ids id = .ok ids')
    : IdList isDataId maxRouteActions ids' := by
  obtain ⟨hid, h⟩ := Except.bind_unit_eq_ok.mp h
  exact hids.push (validateDataId_ok.mp hid) h

structure RouteResourceSpec.Valid (spec : RouteResourceSpec) : Prop where
  id : isDataId spec.id = true
  capabilities : IdList isDataId maxResourceCapabilities spec.capabilities.keys

theorem RouteResourceSpec.Built.valid {spec : RouteResourceSpec} (h : spec.Built)
    : spec.Valid := by
  induction h with
  | new h =>
    obtain ⟨hid, h⟩ := Except.bind_unit_eq_ok.mp h
    cases h
    exact ⟨validateDataId_ok.mp hid, IdList.nil⟩
  | @requiring spec _ capability _ h ih =>
    obtain ⟨hid, h⟩ := Except.bind_unit_eq_ok.mp h
    split at h
    . cases h
    . next hroom =>
      cases h
      have hkeys : ∀ key, key ∈ (spec.capabilities.insert capability ()).keys ↔
          key = capability ∨ key ∈ spec.capabilities.keys := by
        intro key
        rw [SortedMap.mem_keys, SortedMap.mem_keys, SortedMap.get?_insert]
        split <;> simp_all
      have hnodup : (spec.capabilities.insert capability ()).keys.Nodup :=
        (SortedMap.keys_sorted _).imp (fun hlt => ne_of_lt hlt)
      refine ⟨ih.id, ?_, hnodup, ?_⟩
      . intro key hkey
        cases (hkeys key).mp hkey with
        | inl hnew => rw [hnew, validateDataId_ok.mp hid]
        | inr hold => exact ih.capabilities.valid key hold
      . have hsub : (spec.capabilities.insert capability ()).keys ⊆
            capability :: spec.capabilities.keys :=
          fun key hkey => List.mem_cons.mpr ((hkeys key).mp hkey)
        have hle := (List.subperm_of_subset hnodup hsub).length_le
        have hlen : spec.capabilities.keys.length = spec.capabilities.len := List.length_map _
        rw [List.length_cons] at hle
        dsimp only
        omega

-- A list that grew by `pushResource` alone.
structure ResourceList (resources : List RouteResourceSpec) : Prop where
  valid : ∀ resource ∈ resources, resource.Valid
  nodup : (resources.map RouteResourceSpec.id).Nodup
  length : resources.length ≤ maxRouteResources

theorem ResourceList.nil : ResourceList [] :=
  ⟨by simp, List.nodup_nil, Nat.zero_le _⟩

theorem ResourceList.push {resources resources' : List RouteResourceSpec}
    {resource : RouteResourceSpec} (hresources : ResourceList resources) (hvalid : resource.Valid)
    (h : pushResource resources resource = .ok resources') : ResourceList resources' := by
  unfold pushResource at h
  split at h
  . cases h
  . next hroom =>
    split at h
    . cases h
    . next hfresh =>
      cases h
      refine ⟨?_, ?_, ?_⟩
      . intro other hmem
        cases List.mem_append.mp hmem with
        | inl hold => exact hresources.valid other hold
        | inr hnew => exact List.mem_singleton.mp hnew ▸ hvalid
      . rw [List.map_append]
        exact List.nodup_append.mpr ⟨hresources.nodup, by simp, by
          intro a ha b hb hab
          rw [List.map_singleton, List.mem_singleton] at hb
          exact hfresh (hb ▸ hab ▸ ha)⟩
      . rw [List.length_append, List.length_singleton]
        omega

structure RouteScopeSpec.Valid (spec : RouteScopeSpec) : Prop where
  id : isRouteId spec.id = true
  parent : ∀ parent ∈ spec.parent, isRouteId parent = true
  middleware : IdList isRouteId maxRouteMiddleware spec.middleware
  errorBoundaries : IdList isRouteId maxErrorBoundaries spec.errorBoundaries
  loaders : IdList isDataId maxRouteLoaders spec.loaders
  resources : ResourceList spec.resources

theorem RouteScopeSpec.Built.valid {spec : RouteScopeSpec} (h : spec.Built) : spec.Valid := by
  induction h with
  | new h =>
    obtain ⟨hid, h⟩ := Except.bind_unit_eq_ok.mp h
    cases h
    exact ⟨validateScopeId_ok.mp hid, by simp, .nil, .nil, .nil, .nil⟩
  | withParent _ h ih =>
    obtain ⟨hid, h⟩ := Except.bind_unit_eq_ok.mp h
    cases h
    exact { ih with parent := by simpa using validateScopeId_ok.mp hid }
  | withMiddleware _ h ih =>
    obtain ⟨ids, hids, h⟩ := Except.bind_eq_ok.mp h
    cases h
    exact { ih with middleware := pushMiddleware_ok ih.middleware hids }
  | withErrorBoundary _ h ih =>
    obtain ⟨ids, hids, h⟩ := Except.bind_eq_ok.mp h
    cases h
    exact { ih with errorBoundaries := pushErrorBoundary_ok ih.errorBoundaries hids }
  | withLoader _ h ih =>
    obtain ⟨ids, hids, h⟩ := Except.bind_eq_ok.mp h
    cases h
    exact { ih with loaders := pushLoader_ok ih.loaders hids }
  | withResource _ hresource h ih =>
    obtain ⟨resources, hresources, h⟩ := Except.bind_eq_ok.mp h
    cases h
    exact { ih with resources := ih.resources.push hresource.valid hresources }

structure RouteSpec.Valid (unicode : Unicode) (spec : RouteSpec) : Prop where
  id : isRouteId spec.id = true
  pattern : spec.pattern.Parsed unicode
  scope : ∀ scope ∈ spec.scope, isRouteId scope = true
  middleware : IdList isRouteId maxRouteMiddleware spec.middleware
  errorBoundaries : IdList isRouteId maxErrorBoundaries spec.errorBoundaries
  loaders : IdList isDataId maxRouteLoaders spec.loaders
  actions : IdList isDataId maxRouteActions spec.actions
  cachePolicy : ∀ id ∈ spec.cachePolicy, isDataId id = true
  resources : ResourceList spec.resources

theorem RouteSpec.Built.valid {unicode : Unicode} (hslash : unicode.KeepsSlashes) {spec : RouteSpec}
    (h : spec.Built unicode) : spec.Valid unicode := by
  induction h with
  | new h =>
    obtain ⟨hid, h⟩ := Except.bind_unit_eq_ok.mp h
    obtain ⟨pattern, hpattern, h⟩ := Except.bind_eq_ok.mp h
    cases h
    exact ⟨validateRouteId_ok.mp hid, .of_parse hslash hpattern, by simp, .nil, .nil, .nil, .nil,
      by simp, .nil⟩
  | withScope _ h ih =>
    obtain ⟨hid, h⟩ := Except.bind_unit_eq_ok.mp h
    cases h
    exact { ih with scope := by simpa using validateScopeId_ok.mp hid }
  | withMiddleware _ h ih =>
    obtain ⟨ids, hids, h⟩ := Except.bind_eq_ok.mp h
    cases h
    exact { ih with middleware := pushMiddleware_ok ih.middleware hids }
  | withErrorBoundary _ h ih =>
    obtain ⟨ids, hids, h⟩ := Except.bind_eq_ok.mp h
    cases h
    exact { ih with errorBoundaries := pushErrorBoundary_ok ih.errorBoundaries hids }
  | withLoader _ h ih =>
    obtain ⟨ids, hids, h⟩ := Except.bind_eq_ok.mp h
    cases h
    exact { ih with loaders := pushLoader_ok ih.loaders hids }
  | withAction _ h ih =>
    obtain ⟨ids, hids, h⟩ := Except.bind_eq_ok.mp h
    cases h
    exact { ih with actions := pushAction_ok ih.actions hids }
  | withCachePolicy _ h ih =>
    obtain ⟨hid, h⟩ := Except.bind_unit_eq_ok.mp h
    cases h
    exact { ih with cachePolicy := by simpa using validateDataId_ok.mp hid }
  | withResource _ hresource h ih =>
    obtain ⟨resources, hresources, h⟩ := Except.bind_eq_ok.mp h
    cases h
    exact { ih with resources := ih.resources.push hresource.valid hresources }

end Valid

end Router

end Pliego
