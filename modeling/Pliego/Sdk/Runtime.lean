import Pliego.Sdk.Component
import Pliego.Sdk.Capability

/-!
Admission and the component host of `pliego-sdk`. Version numbers, JSON and the WebAssembly engine come from external
crates and are parameters.
-/

namespace Pliego

open Bytes Text

namespace Sdk

-- The version numbers and requirements of the `semver` crate.
structure Semver where
  Version : Type
  [decEq : DecidableEq Version]
  Requirement : Type
  parse : String → Except String Version
  parseReq : String → Except String Requirement
  satisfies : Requirement → Version → Bool
  display : Version → String

instance (semver : Semver) : DecidableEq semver.Version := semver.decEq

structure AdmissionReceipt where
  schema : String
  extension : String
  digest : String
  hostVersion : String
  apiVersion : String
  grantedCapabilities : List Capability
  negotiatedFeatures : List String
  deriving DecidableEq, Repr

structure ValidatedExtension where
  manifest : ExtensionManifest
  receipt : AdmissionReceipt
  deriving DecidableEq, Repr

structure HostContract (semver : Semver) where
  version : semver.Version
  apiVersion : semver.Version
  features : SortedSet String
  policy : CapabilityPolicy

namespace HostContract

variable {semver : Semver}

def requireFeatures (host : HostContract semver) (features : List String)
    : Except AdmissionError Unit :=
  features.forM (fun feature => ensure (host.features.contains feature) (.missingFeature feature))

def requireCapabilities (host : HostContract semver) (capabilities : List Capability)
    : Except AdmissionError Unit :=
  capabilities.forM (fun capability =>
    (host.policy.require capability "extension admission").mapError
      (fun _ => .capabilityDenied capability))

def admissionReceipt (host : HostContract semver) (manifest : ExtensionManifest)
    (extensionVersion : semver.Version)
    : AdmissionReceipt :=
  { schema := "dev.pliegors.sdk-admission/v1"
    extension := manifest.identity.nameSpace ++ ":" ++ manifest.identity.name ++ "/"
      ++ semver.display extensionVersion
    digest := manifest.identity.digest
    hostVersion := semver.display host.version
    apiVersion := semver.display host.apiVersion
    grantedCapabilities := manifest.capabilities
    negotiatedFeatures := (SortedSet.ofList
      ((manifest.requiredFeatures ++ manifest.optionalFeatures).filter
        host.features.contains)).keys }

def admitExtension (host : HostContract semver) (manifest : ExtensionManifest) (extensionBytes : List UInt8)
    : Except AdmissionError ValidatedExtension := do
  validateManifestShape manifest
  let extensionVersion ← (semver.parse manifest.identity.version).mapError .invalidVersion
  let apiVersion ← (semver.parse manifest.apiVersion).mapError .invalidApiVersion
  ensure (apiVersion = host.apiVersion)
    (.incompatibleApi (semver.display apiVersion) (semver.display host.apiVersion))
  let hostRequirement ← (semver.parseReq manifest.hostVersion).mapError .invalidHostRequirement
  ensure (semver.satisfies hostRequirement host.version)
    (.incompatibleHost manifest.hostVersion (semver.display host.version))
  ensure (manifest.identity.digest = sha256Text extensionBytes)
    (.digestMismatch manifest.identity.digest (sha256Text extensionBytes))
  host.requireFeatures manifest.requiredFeatures
  host.requireCapabilities manifest.capabilities
  .ok ⟨manifest, host.admissionReceipt manifest extensionVersion⟩

def admitComponent (wasm : Wasm) (host : HostContract semver) (manifest : ExtensionManifest)
    (extensionBytes : List UInt8)
    : Except AdmissionError ValidatedExtension := do
  let inspection ← (inspectComponent wasm extensionBytes).mapError .invalidComponent
  (inspection.verifyManifest manifest).mapError .invalidComponent
  host.admitExtension manifest extensionBytes

end HostContract

-- What a call of the executor came to: `catch_unwind` turns a panic into a value.
inductive Executed where
  | output (bytes : List UInt8)
  | failure (message : String)
  | panicked
  deriving DecidableEq, Repr

structure ExecutorCall where
  capability : Capability
  operation : String
  input : List UInt8
  executed : Executed
  deriving DecidableEq, Repr

-- An executor may keep state of its own, so an answer depends on the calls before it.
def EffectExecutor : Type :=
  List ExecutorCall → Capability → String → List UInt8 → Executed

def Executed.bounded (limit : Nat) (executed : Executed) : Except String (List UInt8) :=
  let result : Except String (List UInt8) :=
    match executed with
    | output bytes => .ok bytes
    | failure message => .error message
    | panicked => .error "effect executor panicked"
  match result with
  | .ok bytes =>
    if bytes.length > limit then
      .error ("effect output exceeds the " ++ toString limit ++ "-byte budget")
    else
      .ok bytes
  | .error message =>
    if (utf8 message).length > limit then
      .error ("effect failure exceeds the " ++ toString limit ++ "-byte budget")
    else
      .error message

structure EffectRequest where
  capability : String
  operation : String
  payload : List UInt8

structure EffectResponse where
  payload : List UInt8
  receiptJson : String

structure RequestFailure where
  message : String
  receiptJson : Option String

structure HostState where
  effectBroker : Option EffectBroker
  effectExecutor : Option EffectExecutor
  outputLimitBytes : Nat
  -- every call of the executor in this run
  calls : List ExecutorCall

-- The JSON of the `serde_json` crate: a receipt's text, and whether a text is an array.
structure Json where
  receiptText : EffectReceipt → Except String String
  isArray : String → Except String Bool

namespace HostState

def callExecutor (executor : EffectExecutor) (limit : Nat) (capability : Capability)
    (operation : String) (input : List UInt8) (calls : List ExecutorCall)
    : Except String (List UInt8) × List ExecutorCall :=
  let executed := executor calls capability operation input
  (executed.bounded limit, calls ++ [⟨capability, operation, input, executed⟩])

def answer (json : Json) (broker : EffectBroker) (result : Except EffectError (List UInt8))
    : Except RequestFailure EffectResponse :=
  match result with
  | .ok output =>
    match broker.receipts.getLast? with
    | none => .error ⟨"effect completed without a receipt", none⟩
    | some receipt =>
      match json.receiptText receipt with
      | .error error => .error ⟨"cannot encode effect receipt: " ++ error, none⟩
      | .ok receiptJson => .ok ⟨output, receiptJson⟩
  | .error (.executor failure) =>
    match json.receiptText failure.receipt with
    | .error error => .error ⟨"cannot encode effect receipt: " ++ error, none⟩
    | .ok receiptJson => .error ⟨failure.message, some receiptJson⟩
  | .error error => .error ⟨error.display, none⟩

def execute (json : Json) (state : HostState) (request : EffectRequest)
    : Except RequestFailure EffectResponse × HostState :=
  match Capability.fromStr request.capability with
  | .error error => (.error ⟨error, none⟩, state)
  | .ok capability =>
    match state.effectExecutor with
    | none => (.error ⟨"effect executor is unavailable", none⟩, state)
    | some executor =>
      match state.effectBroker with
      | none => (.error ⟨"effect broker was not admitted", none⟩, state)
      | some broker =>
        let limit := state.outputLimitBytes
        if request.payload.length > limit then
          (.error ⟨"effect input exceeds the " ++ toString limit ++ "-byte budget", none⟩, state)
        else
          let ran := broker.execute capability request.operation request.payload
            (callExecutor executor limit capability request.operation request.payload) state.calls
          (answer json ran.2.1 ran.1,
            { state with effectBroker := some ran.2.1, calls := ran.2.2 })

end HostState

structure HostFunction where
  interface : String
  name : String
  call : HostState → EffectRequest → Except RequestFailure EffectResponse × HostState

def brokerInterface : String := "pliego:effects/broker@0.1.0"

def brokerFunction (json : Json) : HostFunction :=
  ⟨brokerInterface, "execute", HostState.execute json⟩

-- Fuel ends every run, so a run is a finite tree; its leaves hold the fuel that was left.
inductive Guest (linker : List HostFunction) (α : Type) where
  | done (result : Except String α) (fuel : Except String Nat)
  | call (function : HostFunction) (h : function ∈ linker) (request : EffectRequest)
      (resume : Except RequestFailure EffectResponse → Guest linker α)

structure Finished (α : Type) where
  result : Except String α
  fuel : Except String Nat

def Guest.run {linker : List HostFunction} (state : HostState) (guest : Guest linker α)
    : Finished α × HostState :=
  match guest with
  | done result fuel => (⟨result, fuel⟩, state)
  | call function _ request resume =>
    let answered := function.call state request
    (resume answered.1).run answered.2

structure StoreLimits where
  memorySize : Nat
  instances : Nat := 16
  memories : Nat := 1
  tables : Nat := 16
  trapOnGrowFailure : Bool := true

structure BuildTransformInput where
  path : String
  mediaType : String
  bytes : List UInt8
  optionsJson : String

structure BuildTransformOutput where
  mediaType : String
  bytes : List UInt8
  diagnosticsJson : String

-- One run of the engine: what it answers to each call of the host, and the guests it starts.
structure Engine where
  Code : Type
  new : Except String Unit
  compile : List UInt8 → Except String Code
  setFuel : Nat → Except String Unit
  addToLinker : Except String Unit
  -- whether the deadline passed, or `none` when its thread panicked
  finishDeadline : Nat → Option Bool
  instantiate : (linker : List HostFunction) → Code → StoreLimits → Nat → Guest linker Unit
  transform : Code → StoreLimits → Nat → BuildTransformInput →
    Guest [] (Except String BuildTransformOutput)

inductive ComponentHostError where
  | wrongEntryKind
  | wrongPlane
  | wrongWorld
  | component (error : ComponentError)
  | contract (error : String)
  | unlinkedImports (imports : List String)
  | budget (error : String)
  | runtime (error : String)
  | guest (error : String)
  | deadline
  | fuelExhausted
  deriving DecidableEq, Repr

structure ComponentHostReceipt where
  schema : String
  extension : String
  digest : String
  runtime : String
  fuelLimit : Nat
  memoryLimitBytes : Nat
  imports : List String
  deriving DecidableEq, Repr

structure BuildTransformReceipt where
  schema : String
  extension : String
  extensionDigest : String
  inputSha256 : String
  outputSha256 : String
  fuelLimit : Nat
  fuelConsumed : Nat
  memoryLimitBytes : Nat
  outputLimitBytes : Nat
  deriving DecidableEq, Repr

structure BuildTransformExecution where
  output : BuildTransformOutput
  receipt : BuildTransformReceipt

-- A call of the host with what it linked and the effects of the guest.
structure Run (α : Type) where
  result : Except ComponentHostError α
  linked : List HostFunction
  calls : List ExecutorCall
  receipts : List EffectReceipt

def Run.refused (error : ComponentHostError) : Run α :=
  ⟨.error error, [], [], []⟩

def HostState.receipts (state : HostState) : List EffectReceipt :=
  match state.effectBroker with
  | none => []
  | some broker => broker.receipts

structure ComponentHost where
  effectExecutor : Option EffectExecutor

def fuelPerDeclaredCpuMs : Nat := 100000

def maxTransformInputBytes : Nat := 128 * 1024 * 1024

structure Store where
  limits : StoreLimits
  outputLimit : Nat
  fuelLimit : Nat

def openStore (engine : Engine) (budgets : Budget) (bytes : List UInt8)
    : Except ComponentHostError (engine.Code × Store) := do
  engine.new.mapError .runtime
  let code ← (engine.compile bytes).mapError .runtime
  ensure (budgets.memoryBytes < 2 ^ 64) (.budget "memory budget exceeds host usize")
  ensure (budgets.outputBytes < 2 ^ 64) (.budget "output budget exceeds host usize")
  let fuelLimit := budgets.cpuMs * fuelPerDeclaredCpuMs
  ensure (fuelLimit < 2 ^ 64) (.budget "fuel limit overflow")
  (engine.setFuel fuelLimit).mapError .runtime
  .ok (code, ⟨{ memorySize := budgets.memoryBytes }, budgets.outputBytes, fuelLimit⟩)

-- The deadline and the fuel tell a failed run's cause.
def concludeRun (deadline : Option Bool) (finished : Finished α) : Except ComponentHostError α :=
  match deadline with
  | none => .error (.runtime "deadline thread panicked")
  | some true => .error .deadline
  | some false =>
    match finished.result with
    | .ok result => .ok result
    | .error error =>
      if finished.fuel.toOption = some 0 then .error .fuelExhausted else .error (.runtime error)

namespace ComponentHost

variable (wasm : Wasm) (json : Json) (engine : Engine)

def isBrokerImport (name : String) : Bool :=
  startsWithText "pliego:effects/broker@" name

def hasEffectBroker (inspection : ComponentInspection) : Bool :=
  inspection.imports.any isBrokerImport

structure Prepared where
  inspection : ComponentInspection
  code : engine.Code
  store : Store
  linker : List HostFunction

def prepareInstance (host : ComponentHost) (extension : ValidatedExtension) (bytes : List UInt8)
    : Except ComponentHostError (Prepared engine) := do
  let manifest := extension.manifest
  ensure (manifest.entry.kind = .wasmComponent) .wrongEntryKind
  let inspection ← (inspectComponent wasm bytes).mapError .component
  (inspection.verifyManifest manifest).mapError .component
  ensure (inspection.imports.all isBrokerImport
      && !(hasEffectBroker inspection && host.effectExecutor.isNone))
    (.unlinkedImports inspection.imports)
  let (code, store) ← openStore engine manifest.budgets bytes
  if hasEffectBroker inspection then
    engine.addToLinker.mapError .runtime
    .ok ⟨inspection, code, store, [brokerFunction json]⟩
  else
    .ok ⟨inspection, code, store, []⟩

def effectPolicy (extension : ValidatedExtension) : CapabilityPolicy :=
  extension.receipt.grantedCapabilities.foldl CapabilityPolicy.grant CapabilityPolicy.denyAll

def hostState (host : ComponentHost) (extension : ValidatedExtension)
    (inspection : ComponentInspection) (outputLimit : Nat)
    : HostState :=
  { effectBroker :=
      if hasEffectBroker inspection then some (.new (effectPolicy extension)) else none
    effectExecutor := host.effectExecutor
    outputLimitBytes := outputLimit
    calls := [] }

def instantiate (host : ComponentHost) (extension : ValidatedExtension) (bytes : List UInt8)
    : Run ComponentHostReceipt :=
  match prepareInstance wasm json engine host extension bytes with
  | .error error => .refused error
  | .ok prepared =>
    let guest := engine.instantiate prepared.linker prepared.code prepared.store.limits
      prepared.store.fuelLimit
    let ran := guest.run (hostState host extension prepared.inspection prepared.store.outputLimit)
    let result := do
      concludeRun (engine.finishDeadline extension.manifest.budgets.wallTimeMs) ran.1
      .ok
        { schema := "dev.pliegors.component-host/v1"
          extension := extension.receipt.extension
          digest := extension.receipt.digest
          runtime := "wasmtime-component-36.0.8"
          fuelLimit := prepared.store.fuelLimit
          memoryLimitBytes := extension.manifest.budgets.memoryBytes
          imports := prepared.inspection.imports }
    ⟨result, prepared.linker, ran.2.calls, ran.2.receipts⟩

def validateMediaType (value : String) : Except ComponentHostError Unit :=
  ensure (value ≠ "" && (utf8 value).length ≤ 256 && contains value '/'
      && !(utf8 value).any isControlByte)
    (.contract "transform media type must be a bounded visible MIME value")

def validateTransformInput (input : BuildTransformInput) : Except ComponentHostError Unit := do
  ensure (isSlashPath input.path)
    (.contract "transform path must be a normalized relative slash path")
  validateMediaType input.mediaType
  let _ ← (json.isArray input.optionsJson).mapError
    (fun error => .contract ("transform options_json is invalid JSON: " ++ error))
  .ok ()

def validateTransformOutput (output : BuildTransformOutput) : Except ComponentHostError Unit := do
  validateMediaType output.mediaType
  let isArray ← (json.isArray output.diagnosticsJson).mapError
    (fun error => .contract ("transform diagnostics_json is invalid JSON: " ++ error))
  ensure isArray (.contract "transform diagnostics_json must encode an array")

def leBytes (w n : Nat) : List UInt8 :=
  (beBytes w n).reverse

def framed (bytes : List UInt8) : List UInt8 :=
  leBytes 8 bytes.length ++ bytes

def hashTransformInput (input : BuildTransformInput) : String :=
  sha256Text (framed (utf8 input.path) ++ framed (utf8 input.mediaType) ++ framed input.bytes
    ++ framed (utf8 input.optionsJson))

def hashTransformOutput (output : BuildTransformOutput) : String :=
  sha256Text (framed (utf8 output.mediaType) ++ framed output.bytes
    ++ framed (utf8 output.diagnosticsJson))

def inputSize (input : BuildTransformInput) : Nat :=
  (utf8 input.path).length + (utf8 input.mediaType).length + input.bytes.length
    + (utf8 input.optionsJson).length

def outputSize (output : BuildTransformOutput) : Nat :=
  (utf8 output.mediaType).length + output.bytes.length + (utf8 output.diagnosticsJson).length

def prepareTransform (extension : ValidatedExtension) (bytes : List UInt8) (input : BuildTransformInput)
    : Except ComponentHostError (engine.Code × Store) := do
  let manifest := extension.manifest
  ensure (manifest.entry.kind = .wasmComponent) .wrongEntryKind
  ensure (manifest.plane = .build) .wrongPlane
  ensure (manifest.entry.world = some "pliego:build/transformer@0.1.0") .wrongWorld
  ensure (manifest.determinism = .pure)
    (.contract "build transform execution requires determinism pure")
  let inspection ← (inspectComponent wasm bytes).mapError .component
  (inspection.verifyManifest manifest).mapError .component
  ensure inspection.imports.isEmpty (.unlinkedImports inspection.imports)
  ensure (inputSize input ≤ maxTransformInputBytes)
    (.budget "transform input exceeds the 128 MiB runtime ceiling")
  validateTransformInput json input
  openStore engine manifest.budgets bytes

def concludeTransform (extension : ValidatedExtension) (input : BuildTransformInput)
    (store : Store) (finished : Finished (Except String BuildTransformOutput))
    : Except ComponentHostError BuildTransformExecution := do
  let answered ←
    concludeRun (engine.finishDeadline extension.manifest.budgets.wallTimeMs) finished
  let output ← answered.mapError .guest
  validateTransformOutput json output
  ensure (outputSize output ≤ store.outputLimit)
    (.budget ("transform output exceeds the " ++ toString store.outputLimit ++ "-byte budget"))
  let fuelRemaining ← finished.fuel.mapError .runtime
  .ok
    { output
      receipt :=
        { schema := "dev.pliegors.build-transform-receipt/v1"
          extension := extension.receipt.extension
          extensionDigest := extension.receipt.digest
          inputSha256 := hashTransformInput input
          outputSha256 := hashTransformOutput output
          fuelLimit := store.fuelLimit
          fuelConsumed := store.fuelLimit - fuelRemaining
          memoryLimitBytes := extension.manifest.budgets.memoryBytes
          outputLimitBytes := extension.manifest.budgets.outputBytes } }

-- The linker of a transform is empty, and its store has neither broker nor executor.
def executeBuildTransform (extension : ValidatedExtension) (bytes : List UInt8) (input : BuildTransformInput)
    : Run BuildTransformExecution :=
  match prepareTransform wasm json engine extension bytes input with
  | .error error => .refused error
  | .ok (code, store) =>
    let state : HostState :=
      { effectBroker := none
        effectExecutor := none
        outputLimitBytes := store.outputLimit
        calls := [] }
    let ran := (engine.transform code store.limits store.fuelLimit input).run state
    ⟨concludeTransform json engine extension input store ran.1, [], ran.2.calls, ran.2.receipts⟩

end ComponentHost

end Sdk

end Pliego
