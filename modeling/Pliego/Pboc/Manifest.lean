import Pliego.Lib.Sorting
import Pliego.Router.Pattern

/-!
The deployment manifest of `pliego-pboc` and its validation. The JSON encoder comes from an external
crate and is a parameter where it is used.
-/

namespace Pliego

open Bytes Text Sorting

namespace Pboc

open Router (Unicode)

def pbocSchema : String := "dev.pliegors.pboc/v1alpha1"

def pbocFileName : String := "pliego.pboc.json"

def maxManifestBytes : Nat := 16 * 1024 * 1024

def maxCollectionItems : Nat := 100000

def maxTextBytes : Nat := 4096

def maxPortablePathBytes : Nat := 4096

def maxComponentBytes : Nat := 255

def maxPathComponents : Nat := 128

inductive PbocError where
  | manifestTooLarge (actual maximum : Nat)
  | invalid (message : String)
  | unsupportedTarget (target : String)
  | unsupportedFeatures (features : List String)
  | artifact (message : String)
  | io (path : String)
  deriving DecidableEq, Repr

structure FrameworkIdentity where
  name : String
  version : String
  sourceRevision : String

structure ProvenanceIdentity where
  sbomPath : String
  provenancePath : String
  sourceRevision : String

structure BuildIdentity where
  applicationId : String
  releaseId : String
  routeGraphSha256 : String
  runtimeContractSha256 : String
  artifactLedgerSha256 : String
  provenance : ProvenanceIdentity

structure CompatibilityIdentity where
  epoch : Nat
  sequence : Nat
  stateSchema : String
  previousReleaseId : Option String
  rollbackSafe : Bool

structure FeatureRequirement where
  id : String
  version : Nat
  required : Bool
  deriving DecidableEq, Repr

inductive ArtifactRole where
  | staticAsset
  | nativeExecutable
  | cloudflareModule
  | sbom
  | provenance
  | configuration
  deriving DecidableEq, Repr

structure PbocArtifact where
  path : String
  bytes : Nat
  sha256 : String
  role : ArtifactRole
  mediaType : String
  deriving DecidableEq, Repr

inductive HostKind where
  | nativeOci
  | cloudflareWorkers
  deriving DecidableEq, Repr

structure DeploymentTarget where
  id : String
  hostKind : HostKind
  artifactPaths : List String
  requiredFeatures : List FeatureRequirement
  optionalFeatures : List FeatureRequirement

structure PbocAsset where
  requestPath : String
  artifactPath : String
  cachePolicyId : String
  immutable : Bool

inductive RouteKind where
  | static
  | dynamic
  deriving DecidableEq, Repr

inductive RenderMode where
  | complete
  | ordered
  | boundary
  | resource
  deriving DecidableEq, Repr

def RenderMode.rank (mode : RenderMode) : Nat :=
  match mode with
  | .complete => 0
  | .ordered => 1
  | .boundary => 2
  | .resource => 3

structure PbocRoute where
  id : String
  method : String
  pattern : String
  kind : RouteKind
  assetPath : Option String
  functionId : Option String
  renderMode : RenderMode
  cachePolicyId : Option String
  requiredFeatures : List FeatureRequirement
  deriving DecidableEq, Repr

structure PbocFunction where
  id : String
  entrypoint : String
  renderModes : List RenderMode
  maxResponseBytes : Nat
  secretReferences : List String
  permissionIds : List String

inductive CacheDomain where
  | publicCache
  | privateCache
  | session
  | request
  deriving DecidableEq, Repr

inductive CacheRevalidation where
  | immutable
  | timeBound
  | tagBound
  | noStore
  deriving DecidableEq, Repr

structure CachePolicy where
  id : String
  domain : CacheDomain
  revalidation : CacheRevalidation
  maxAgeSeconds : Option Nat
  staleWhileRevalidateSeconds : Option Nat
  varyHeaders : List String
  tags : List String

structure ResourcePermission where
  id : String
  resource : String
  capabilities : List String
  required : Bool

structure SecretReference where
  id : String
  purpose : String
  required : Bool

structure TelemetryHook where
  id : String
  signal : String
  required : Bool
  redactedFields : List String

structure PbocManifest where
  schema : String
  framework : FrameworkIdentity
  build : BuildIdentity
  compatibility : CompatibilityIdentity
  capabilities : List FeatureRequirement
  artifacts : List PbocArtifact
  targets : List DeploymentTarget
  assets : List PbocAsset
  routes : List PbocRoute
  functions : List PbocFunction
  cachePolicies : List CachePolicy
  permissions : List ResourcePermission
  secretReferences : List SecretReference
  telemetryHooks : List TelemetryHook

def ensure (condition : Bool) (message : String) : Except PbocError Unit :=
  if condition then .ok () else .error (.invalid message)

@[simp]
theorem ensure_ok {condition : Bool} {message : String}
    : ensure condition message = .ok () ↔ condition = true := by
  unfold ensure
  split <;> simp_all

def boundedText (value label : String) : Except PbocError Unit :=
  ensure (value ≠ "" && (utf8 value).length ≤ maxTextBytes && !value.toList.any isControl)
    (label ++ " is empty, too long, or contains controls")

def isPortableIdByte (byte : UInt8) : Bool :=
  isAsciiLowercase byte || isAsciiDigit byte || byte == 45 || byte == 46

def isPortableId (value : String) : Bool :=
  match utf8 value with
  | [] => false
  | first :: rest =>
    (utf8 value).length ≤ 128 && isAsciiLowercase first && rest.all isPortableIdByte
      && !endsWith '-' value && !endsWith '.' value
      && !containsPair '-' '-' value.toList && !containsPair '.' '.' value.toList

def boundedId (value label : String) : Except PbocError Unit := do
  boundedText value label
  ensure (isPortableId value) (label ++ " is not a portable identifier: " ++ value)

def isLowerHex (byte : UInt8) : Bool :=
  isAsciiDigit byte || (97 ≤ byte && byte ≤ 102)

def sha256 (value label : String) : Except PbocError Unit :=
  ensure ((utf8 value).length = 64 && (utf8 value).all isLowerHex)
    (label ++ " is not lowercase SHA-256")

def revision (value label : String) : Except PbocError Unit :=
  ensure ((utf8 value).length = 40 && (utf8 value).all isLowerHex)
    (label ++ " is not a 40-character lowercase revision")

def isPortableComponent (component : String) : Bool :=
  component ≠ "" && component ≠ "." && component ≠ ".."
    && (utf8 component).length ≤ maxComponentBytes
    && !endsWith '.' component && !endsWith ' ' component
    && !component.toList.any Router.isReservedCharacter

def isReservedComponent (unicode : Unicode) (component : String) : Bool :=
  Router.reservedNames.contains (unicode.portableCaseKey ((split '.' component).headD component))

def checkComponents (unicode : Unicode) (value : String) (components : List String)
    : Except String Unit :=
  components.forM (fun component =>
    if !isPortableComponent component then
      .error ("non-portable artifact path component: " ++ value)
    else if isReservedComponent unicode component then
      .error ("reserved artifact path component: " ++ value)
    else
      .ok ())

def validatePortablePath (unicode : Unicode) (value : String) : Except String String :=
  if value = "" || (utf8 value).length > maxPortablePathBytes || startsWith '/' value
      || endsWith '/' value || contains value '\\' then
    .error ("non-portable artifact path: " ++ value)
  else if (utf8 (unicode.nfc value)).length > maxPortablePathBytes || unicode.nfc value ≠ value then
    .error ("artifact path is not NFC-normalized: " ++ value)
  else if (split '/' (unicode.nfc value)).length > maxPathComponents then
    .error ("artifact path has too many components: " ++ value)
  else do
    checkComponents unicode value (split '/' (unicode.nfc value))
    .ok (unicode.nfc value)

def portablePath (unicode : Unicode) (value label : String) : Except PbocError Unit :=
  match validatePortablePath unicode value with
  | .ok _ => .ok ()
  | .error error => .error (.invalid (label ++ ": " ++ error))

def isRequestPath (value : String) : Bool :=
  value ≠ "" && (utf8 value).length ≤ maxTextBytes && startsWith '/' value
    && !(value ≠ "/" && endsWith '/' value) && !containsPair '/' '/' value.toList
    && !contains value '\\' && !contains value '%' && !contains value '?' && !contains value '#'
    && !contains value '\x00' && !value.toList.any isControl

def requestPath (value label : String) : Except PbocError Unit :=
  ensure (isRequestPath value) (label ++ " is not a canonical request path: " ++ value)

def isUppercaseMethod (value : String) : Bool :=
  value ≠ "" && (utf8 value).length ≤ 32 && (utf8 value).all isAsciiUppercase

def method (value : String) : Except PbocError Unit :=
  ensure (isUppercaseMethod value) ("invalid route method " ++ value)

def collection {α : Type} (values : List α) (label : String) : Except PbocError Unit :=
  ensure (values.length ≤ maxCollectionItems) (label ++ " exceeds 100000 entries")

def requireSortedUnique {α : Type} (values : List α) (key : α → String) (label : String)
    : Except PbocError Unit :=
  ensure (ascending (values.map key)) (label ++ " must be sorted with unique identifiers")

def requireSortedUniqueByOrd (values : List RenderMode) (label : String) : Except PbocError Unit :=
  ensure (ascending (values.map RenderMode.rank)) (label ++ " must be sorted and unique")

def sortedStrings (values : List String) (label : String) (lowercase : Bool)
    : Except PbocError Unit := do
  ensure (ascending values) (label ++ " must be sorted and unique")
  values.forM (fun value => do
    boundedText value label
    ensure (!(lowercase && (utf8 value).any isAsciiUppercase)) (label ++ " values must be lowercase"))

def validateFeature (feature : FeatureRequirement) (label : String) : Except PbocError Unit := do
  boundedId feature.id label
  ensure (feature.version ≠ 0) (label ++ " " ++ feature.id ++ " has version zero")

def validateIdentity (manifest : PbocManifest) : Except PbocError Unit := do
  ensure (manifest.schema = pbocSchema) ("unsupported schema " ++ manifest.schema)
  boundedId manifest.framework.name "framework.name"
  boundedText manifest.framework.version "framework.version"
  revision manifest.framework.sourceRevision "framework.sourceRevision"
  boundedId manifest.build.applicationId "build.applicationId"
  boundedId manifest.build.releaseId "build.releaseId"
  sha256 manifest.build.routeGraphSha256 "build.routeGraphSha256"
  sha256 manifest.build.runtimeContractSha256 "build.runtimeContractSha256"
  sha256 manifest.build.artifactLedgerSha256 "build.artifactLedgerSha256"
  revision manifest.build.provenance.sourceRevision "build.provenance.sourceRevision"
  ensure (manifest.build.provenance.sourceRevision = manifest.framework.sourceRevision)
    "framework and provenance source revisions differ"
  ensure (manifest.compatibility.epoch ≠ 0 && manifest.compatibility.sequence ≠ 0)
    "compatibility epoch and sequence must be non-zero"
  boundedId manifest.compatibility.stateSchema "compatibility.stateSchema"
  match manifest.compatibility.previousReleaseId with
  | none => .ok ()
  | some previous => do
    boundedId previous "compatibility.previousReleaseId"
    ensure (previous ≠ manifest.build.releaseId) "previous release cannot equal the current release"

def validateCollections (manifest : PbocManifest) : Except PbocError Unit := do
  collection manifest.capabilities "capabilities"
  collection manifest.artifacts "artifacts"
  collection manifest.targets "targets"
  collection manifest.assets "assets"
  collection manifest.routes "routes"
  collection manifest.functions "functions"
  collection manifest.cachePolicies "cachePolicies"
  collection manifest.permissions "permissions"
  collection manifest.secretReferences "secretReferences"
  collection manifest.telemetryHooks "telemetryHooks"

def validateCapabilities (capabilities : List FeatureRequirement) : Except PbocError Unit := do
  requireSortedUnique capabilities FeatureRequirement.id "capabilities"
  capabilities.forM (validateFeature · "capability")

def addArtifact (unicode : Unicode) (total : Nat) (artifact : PbocArtifact)
    : Except PbocError Nat := do
  portablePath unicode artifact.path "artifact.path"
  sha256 artifact.sha256 "artifact.sha256"
  boundedText artifact.mediaType "artifact.mediaType"
  ensure (artifact.bytes ≠ 0) ("artifact " ++ artifact.path ++ " has zero bytes")
  ensure (total + artifact.bytes < 2 ^ 64) "artifact byte total overflows u64"
  .ok (total + artifact.bytes)

def artifactPaths (artifacts : List PbocArtifact) : List String := artifacts.map PbocArtifact.path

def validateArtifacts (unicode : Unicode) (artifacts : List PbocArtifact)
    (provenance : ProvenanceIdentity) : Except PbocError Unit := do
  requireSortedUnique artifacts PbocArtifact.path "artifacts"
  let total ← artifacts.foldlM (addArtifact unicode) 0
  ensure (total ≠ 0) "PBOC contains no artifact bytes"
  [("provenance.sbomPath", provenance.sbomPath),
    ("provenance.provenancePath", provenance.provenancePath)].forM (fun (label, path) => do
      portablePath unicode path label
      ensure ((artifactPaths artifacts).contains path)
        (label ++ " references undeclared artifact " ++ path))

def validateTarget (artifactPaths : List String) (target : DeploymentTarget)
    : Except PbocError Unit := do
  boundedId target.id "target.id"
  sortedStrings target.artifactPaths "target.artifactPaths" false
  ensure (!target.artifactPaths.isEmpty) ("target " ++ target.id ++ " contains no artifacts")
  target.artifactPaths.forM (fun path =>
    ensure (artifactPaths.contains path)
      ("target " ++ target.id ++ " references unknown artifact " ++ path))
  requireSortedUnique target.requiredFeatures FeatureRequirement.id "target.requiredFeatures"
  requireSortedUnique target.optionalFeatures FeatureRequirement.id "target.optionalFeatures"
  target.requiredFeatures.forM (fun feature => do
    validateFeature feature "target required feature"
    ensure feature.required ("target " ++ target.id ++ " required feature is marked optional"))
  target.optionalFeatures.forM (fun feature => do
    validateFeature feature "target optional feature"
    ensure (!feature.required) ("target " ++ target.id ++ " optional feature is marked required"))
  match target.optionalFeatures.find? (fun feature => target.requiredFeatures.any
      (fun required => required.id = feature.id && required.version = feature.version)) with
  | some feature =>
    .error (.invalid ("target " ++ target.id ++ " repeats feature " ++ feature.id))
  | none => .ok ()

def validateTargets (artifactPaths : List String) (targets : List DeploymentTarget)
    : Except PbocError Unit := do
  requireSortedUnique targets DeploymentTarget.id "targets"
  ensure (!targets.isEmpty) "at least one deployment target is required"
  targets.forM (validateTarget artifactPaths)

def validateCachePolicy (policy : CachePolicy) : Except PbocError Unit := do
  boundedId policy.id "cachePolicy.id"
  ensure (!(policy.revalidation = .timeBound && policy.maxAgeSeconds.isNone))
    ("cache policy " ++ policy.id ++ " requires maxAgeSeconds")
  ensure (!((policy.domain = .privateCache || policy.domain = .session)
      && !policy.varyHeaders.any (fun value => value = "cookie" || value = "authorization")))
    ("private cache policy " ++ policy.id ++ " must vary on cookie or authorization")
  sortedStrings policy.varyHeaders "cachePolicy.varyHeaders" true
  sortedStrings policy.tags "cachePolicy.tags" false

def validateCachePolicies (policies : List CachePolicy) : Except PbocError Unit := do
  requireSortedUnique policies CachePolicy.id "cachePolicies"
  policies.forM validateCachePolicy

def cacheIds (policies : List CachePolicy) : List String := policies.map CachePolicy.id

def validateAsset (unicode : Unicode) (artifactPaths cacheIds : List String) (asset : PbocAsset)
    : Except PbocError Unit := do
  requestPath asset.requestPath "asset.requestPath"
  portablePath unicode asset.artifactPath "asset.artifactPath"
  ensure (artifactPaths.contains asset.artifactPath)
    ("asset " ++ asset.requestPath ++ " references undeclared bytes")
  ensure (cacheIds.contains asset.cachePolicyId)
    ("asset " ++ asset.requestPath ++ " references unknown cache policy")

def validateAssets (unicode : Unicode) (artifactPaths cacheIds : List String)
    (assets : List PbocAsset) : Except PbocError Unit := do
  requireSortedUnique assets PbocAsset.requestPath "assets"
  assets.forM (validateAsset unicode artifactPaths cacheIds)

def containsText (text word : String) : Bool :=
  decide (word.toList <:+: text.toList)

def validateSecretReference (secret : SecretReference) : Except PbocError Unit := do
  boundedId secret.id "secretReference.id"
  boundedText secret.purpose "secretReference.purpose"
  ensure (!(contains secret.purpose '=' || containsText secret.purpose "Bearer "))
    ("secret reference " ++ secret.id ++ " appears to contain a value")

def validateSecretReferences (secrets : List SecretReference) : Except PbocError Unit := do
  requireSortedUnique secrets SecretReference.id "secretReferences"
  secrets.forM validateSecretReference

def validatePermission (permission : ResourcePermission) : Except PbocError Unit := do
  boundedId permission.id "permission.id"
  boundedId permission.resource "permission.resource"
  sortedStrings permission.capabilities "permission.capabilities" false
  ensure (!permission.capabilities.isEmpty)
    ("permission " ++ permission.id ++ " has no capabilities")

def validatePermissions (permissions : List ResourcePermission) : Except PbocError Unit := do
  requireSortedUnique permissions ResourcePermission.id "permissions"
  permissions.forM validatePermission

def validateFunction (secretIds permissionIds : List String) (function : PbocFunction)
    : Except PbocError Unit := do
  boundedId function.id "function.id"
  boundedId function.entrypoint "function.entrypoint"
  ensure (function.maxResponseBytes ≠ 0)
    ("function " ++ function.id ++ " has zero response budget")
  ensure (!function.renderModes.isEmpty) ("function " ++ function.id ++ " has no render modes")
  requireSortedUniqueByOrd function.renderModes "function.renderModes"
  sortedStrings function.secretReferences "function.secretReferences" false
  function.secretReferences.forM (fun secret =>
    ensure (secretIds.contains secret)
      ("function " ++ function.id ++ " references unknown secret " ++ secret))
  sortedStrings function.permissionIds "function.permissionIds" false
  function.permissionIds.forM (fun permission =>
    ensure (permissionIds.contains permission)
      ("function " ++ function.id ++ " references unknown permission " ++ permission))

def validateFunctions (secretIds permissionIds : List String) (functions : List PbocFunction)
    : Except PbocError Unit := do
  requireSortedUnique functions PbocFunction.id "functions"
  functions.forM (validateFunction secretIds permissionIds)

structure RouteReferences where
  assetPaths : List String
  functions : List PbocFunction
  cacheIds : List String
  capabilities : List FeatureRequirement

def validateRouteTarget (references : RouteReferences) (route : PbocRoute)
    : Except PbocError Unit :=
  match route.kind with
  | .static =>
    match route.functionId, route.assetPath with
    | none, some asset => do
      ensure (references.assetPaths.contains asset)
        ("static route " ++ route.id ++ " references unknown asset")
      ensure (route.renderMode = .complete)
        ("static route " ++ route.id ++ " must use complete render mode")
    | _, _ => .error (.invalid ("static route " ++ route.id ++ " has invalid target"))
  | .dynamic =>
    match route.assetPath, route.functionId with
    | none, some functionId =>
      match references.functions.find? (fun candidate => candidate.id = functionId) with
      | none => .error (.invalid ("dynamic route " ++ route.id ++ " references unknown function"))
      | some function =>
        ensure (function.renderModes.contains route.renderMode)
          ("route " ++ route.id ++ " render mode is not implemented by function " ++ function.id)
    | _, _ => .error (.invalid ("dynamic route " ++ route.id ++ " has invalid target"))

def validateRouteFeatures (references : RouteReferences) (route : PbocRoute)
    : Except PbocError Unit := do
  requireSortedUnique route.requiredFeatures FeatureRequirement.id "route.requiredFeatures"
  route.requiredFeatures.forM (fun feature => do
    validateFeature feature "route feature"
    ensure feature.required ("route " ++ route.id ++ " lists an optional feature as required")
    ensure (references.capabilities.any
        (fun declared => declared.id = feature.id && declared.version = feature.version))
      ("route " ++ route.id ++ " feature " ++ feature.id ++ " is not globally declared"))

-- `seen` holds the identifiers and the keys of the routes before.
def validateRoute (references : RouteReferences) (seen : List String × List (String × String))
    (route : PbocRoute) : Except PbocError (List String × List (String × String)) := do
  boundedId route.id "route.id"
  method route.method
  requestPath route.pattern "route.pattern"
  ensure (!seen.1.contains route.id) ("duplicate route ID " ++ route.id)
  ensure (!seen.2.contains (route.method, route.pattern))
    ("duplicate route " ++ route.method ++ " " ++ route.pattern)
  validateRouteTarget references route
  ensure (route.cachePolicyId.all (fun id => references.cacheIds.contains id))
    ("route " ++ route.id ++ " references unknown cache policy")
  validateRouteFeatures references route
  .ok (route.id :: seen.1, (route.method, route.pattern) :: seen.2)

def routeOrder (route : PbocRoute) : String ×ₗ (String ×ₗ String) :=
  toLex (route.method, toLex (route.pattern, route.id))

def validateRoutes (references : RouteReferences) (routes : List PbocRoute)
    : Except PbocError Unit := do
  let _ ← routes.foldlM (validateRoute references) ([], [])
  ensure (ascending (routes.map routeOrder)) "routes are not in canonical method/pattern/id order"

def validateTelemetryHooks (hooks : List TelemetryHook) : Except PbocError Unit := do
  requireSortedUnique hooks TelemetryHook.id "telemetryHooks"
  hooks.forM (fun hook => do
    boundedId hook.id "telemetryHook.id"
    boundedId hook.signal "telemetryHook.signal"
    sortedStrings hook.redactedFields "telemetryHook.redactedFields" false)

def PbocManifest.references (manifest : PbocManifest) : RouteReferences :=
  { assetPaths := manifest.assets.map PbocAsset.artifactPath
    functions := manifest.functions
    cacheIds := cacheIds manifest.cachePolicies
    capabilities := manifest.capabilities }

def validateManifest (unicode : Unicode) (manifest : PbocManifest) : Except PbocError Unit := do
  validateIdentity manifest
  validateCollections manifest
  validateCapabilities manifest.capabilities
  validateArtifacts unicode manifest.artifacts manifest.build.provenance
  validateTargets (artifactPaths manifest.artifacts) manifest.targets
  validateCachePolicies manifest.cachePolicies
  validateAssets unicode (artifactPaths manifest.artifacts) (cacheIds manifest.cachePolicies)
    manifest.assets
  validateSecretReferences manifest.secretReferences
  validatePermissions manifest.permissions
  validateFunctions (manifest.secretReferences.map SecretReference.id)
    (manifest.permissions.map ResourcePermission.id) manifest.functions
  validateRoutes manifest.references manifest.routes
  validateTelemetryHooks manifest.telemetryHooks

end Pboc

end Pliego
