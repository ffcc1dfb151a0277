import Pliego.Lib.Fields
import Pliego.Lib.Hex
import Pliego.Log.Basic
import Pliego.Lib.Sha2
import Pliego.Lib.Text
import Pliego.Lib.Sorting
import Pliego.Lib.SortedMap

/-!
The extension manifest of `pliego-sdk` and the checks on its shape that come before admission.
-/

namespace Pliego

open Bytes Text Sorting

namespace Sdk

def opensdkApiVersion : String := "0.2.0-beta.1"

def opensdkManifestSchema : String := "dev.pliegors.sdk-extension/v1"

inductive Plane where
  | build
  | server
  | browser
  | tooling
  deriving DecidableEq, Repr

inductive EntryKind where
  | wasmComponent
  | browserEsm
  | jsonRpcProcess
  deriving DecidableEq, Repr

inductive Determinism where
  | pure
  | recordedEffect
  | nativeTrusted
  deriving DecidableEq, Repr

inductive Capability where
  | filesystemRead
  | filesystemWrite
  | network
  | environment
  | clock
  | random
  | http
  | effectBroker
  | dom
  | motion
  | smoothScroll
  | audio
  | video
  | webgl
  | webgpu
  | highFrequencyRaf
  deriving DecidableEq, Repr

namespace Capability

def asStr (capability : Capability) : String :=
  match capability with
  | filesystemRead => "filesystem-read"
  | filesystemWrite => "filesystem-write"
  | network => "network"
  | environment => "environment"
  | clock => "clock"
  | random => "random"
  | http => "http"
  | effectBroker => "effect-broker"
  | dom => "dom"
  | motion => "motion"
  | smoothScroll => "smooth-scroll"
  | audio => "audio"
  | video => "video"
  | webgl => "webgl"
  | webgpu => "webgpu"
  | highFrequencyRaf => "high-frequency-raf"

def isBrowserOnly (capability : Capability) : Bool :=
  match capability with
  | dom | motion | smoothScroll | audio | video | webgl | webgpu | highFrequencyRaf => true
  | _ => false

def fromStr (value : String) : Except String Capability :=
  match value with
  | "filesystem-read" => .ok filesystemRead
  | "filesystem-write" => .ok filesystemWrite
  | "network" => .ok network
  | "environment" => .ok environment
  | "clock" => .ok clock
  | "random" => .ok random
  | "http" => .ok http
  | "effect-broker" => .ok effectBroker
  | "dom" => .ok dom
  | "motion" => .ok motion
  | "smooth-scroll" => .ok smoothScroll
  | "audio" => .ok audio
  | "video" => .ok video
  | "webgl" => .ok webgl
  | "webgpu" => .ok webgpu
  | "high-frequency-raf" => .ok highFrequencyRaf
  | _ => .error ("unknown OpenSDK capability `" ++ value ++ "`")

theorem ctorIdx_injective : Function.Injective Capability.ctorIdx := by
  intro a b h
  cases a <;> cases b <;> first | rfl | exact absurd h (by decide)

instance : LinearOrder Capability := LinearOrder.lift' Capability.ctorIdx ctorIdx_injective

end Capability

structure ExtensionIdentity where
  nameSpace : String
  name : String
  version : String
  digest : String
  deriving DecidableEq, Repr

structure ExtensionEntry where
  kind : EntryKind
  path : String
  world : Option String
  customElement : Option String
  deriving DecidableEq, Repr

structure Budget where
  cpuMs : Nat
  wallTimeMs : Nat
  memoryBytes : Nat
  outputBytes : Nat
  deriving DecidableEq, Repr

structure Lifecycle where
  init : Bool
  update : Bool
  suspend : Bool
  resume : Bool
  dispose : Bool
  hmr : Bool
  deriving DecidableEq, Repr

structure ExtensionManifest where
  schema : String
  apiVersion : String
  hostVersion : String
  plane : Plane
  identity : ExtensionIdentity
  entry : ExtensionEntry
  determinism : Determinism
  imports : List String
  exports : List String
  capabilities : List Capability
  requiredFeatures : List String
  optionalFeatures : List String
  budgets : Budget
  lifecycle : Lifecycle
  deriving DecidableEq, Repr

-- What the validation of a component reports; the texts of two mismatches quote both lists.
inductive ComponentError where
  | text (message : String)
  | importsMismatch (binary manifest : List String)
  | exportsMismatch (binary manifest : List String)
  deriving DecidableEq, Repr

inductive AdmissionError where
  | unknownSchema (schema : String)
  | invalidApiVersion (error : String)
  | invalidHostRequirement (error : String)
  | invalidVersion (error : String)
  | invalidIdentity (error : String)
  | invalidEntry (error : String)
  | invalidContract (error : String)
  | invalidBudget (error : String)
  | invalidComponent (error : ComponentError)
  | incompatibleApi (extension host : String)
  | incompatibleHost (requirement host : String)
  | digestMismatch (declared actual : String)
  | missingFeature (feature : String)
  | capabilityDenied (capability : Capability)
  deriving DecidableEq, Repr

def ensure (condition : Bool) (error : ε) : Except ε Unit :=
  if condition then .ok () else .error error

@[simp]
theorem ensure_ok {condition : Bool} {error : ε}
    : ensure condition error = .ok () ↔ condition = true := by
  unfold ensure
  split <;> simp_all

def isSlugByte (byte : UInt8) : Bool :=
  isAsciiLowercase byte || isAsciiDigit byte || byte == 45

def isSlug (value : String) : Bool :=
  value ≠ "" && (utf8 value).length ≤ 64 && !startsWith '-' value && !endsWith '-' value
    && (utf8 value).all isSlugByte

def validateIdentifier (value label : String) : Except AdmissionError Unit :=
  ensure (isSlug value)
    (.invalidIdentity (label ++ " must be 1-64 lowercase ASCII letters, digits, or interior hyphens"))

def validateFeature (value : String) : Except AdmissionError Unit :=
  ensure (isSlug value)
    (.invalidContract
      "feature IDs use 1-64 lowercase ASCII letters, digits, and interior hyphens")

def isLowerHex (byte : UInt8) : Bool :=
  isAsciiDigit byte || (97 ≤ byte && byte ≤ 102)

def validateDigest (value : String) : Except AdmissionError Unit :=
  match "sha256:".toList.isPrefixOf? value.toList with
  | none => .error (.invalidIdentity "digest must use sha256:<64 lowercase hex>")
  | some hex =>
    ensure ((utf8 (String.ofList hex)).length = 64 && (utf8 (String.ofList hex)).all isLowerHex)
      (.invalidIdentity "digest must use sha256:<64 lowercase hex>")

def isControlByte (byte : UInt8) : Bool :=
  byte < 0x20 || byte == 0x7f

def validateContractName (value : String) : Except AdmissionError Unit :=
  ensure (value ≠ "" && (utf8 value).length ≤ 256 && !(utf8 value).any isControlByte)
    (.invalidContract "contract names must contain 1-256 non-control bytes")

def isSlashPath (path : String) : Bool :=
  path ≠ "" && (utf8 path).length ≤ 1024 && !startsWith '/' path && !startsWith '\\' path
    && !contains path '\\'
    && !(split '/' path).any (fun part => part = "" || part = "." || part = "..")
    && !(utf8 path).any isControlByte

def reservedElements : List String :=
  ["annotation-xml", "color-profile", "font-face", "font-face-src", "font-face-uri",
   "font-face-format", "font-face-name", "missing-glyph"]

def isElementByte (byte : UInt8) : Bool :=
  isAsciiLowercase byte || isAsciiDigit byte || byte == 45 || byte == 46 || byte == 95

def validateCustomElement (value : String) : Except AdmissionError Unit :=
  ensure ((utf8 value).length ≤ 128 && contains value '-'
      && (utf8 value).head?.any isAsciiLowercase && !"xml".toList.isPrefixOf value.toList
      && !reservedElements.contains value && (utf8 value).all isElementByte)
    (.invalidEntry "customElement must be a non-reserved lowercase ASCII Custom Element name")

def Plane.entryKind (plane : Plane) : EntryKind :=
  match plane with
  | build | server => .wasmComponent
  | browser => .browserEsm
  | tooling => .jsonRpcProcess

def Plane.debug (plane : Plane) : String :=
  match plane with
  | build => "Build"
  | server => "Server"
  | browser => "Browser"
  | tooling => "Tooling"

def EntryKind.debug (kind : EntryKind) : String :=
  match kind with
  | wasmComponent => "WasmComponent"
  | browserEsm => "BrowserEsm"
  | jsonRpcProcess => "JsonRpcProcess"

def validateEntryNames (entry : ExtensionEntry) : Except AdmissionError Unit :=
  match entry.kind with
  | .wasmComponent =>
    match entry.world with
    | none => .error (.invalidEntry "Wasm component entries require a WIT world")
    | some world => do
      validateContractName world
      ensure entry.customElement.isNone
        (.invalidEntry "Wasm component entries cannot declare a Custom Element")
  | .browserEsm => do
    ensure entry.world.isNone (.invalidEntry "browser ESM entries cannot declare a WIT world")
    match entry.customElement with
    | none => .error (.invalidEntry "browser ESM entries require customElement")
    | some element => validateCustomElement element
  | .jsonRpcProcess =>
    ensure (entry.world.isNone && entry.customElement.isNone)
      (.invalidEntry "JSON-RPC entries cannot declare a WIT world or Custom Element")

def validateEntry (manifest : ExtensionManifest) : Except AdmissionError Unit := do
  ensure (manifest.entry.kind = manifest.plane.entryKind)
    (.invalidEntry ("plane " ++ manifest.plane.debug ++ " requires entry kind "
      ++ manifest.plane.entryKind.debug))
  ensure (isSlashPath manifest.entry.path)
    (.invalidEntry "entry path must be a normalized relative slash path")
  validateEntryNames manifest.entry

def ensureSortedUnique (values : List String) (label : String) (validate : String → Except AdmissionError Unit)
    : Except AdmissionError Unit := do
  ensure (values.length ≤ 256 && ascending values)
    (.invalidContract (label ++ " must contain at most 256 sorted unique values"))
  values.forM validate

def validateLifecycle (manifest : ExtensionManifest) : Except AdmissionError Unit := do
  let lifecycle := manifest.lifecycle
  ensure (lifecycle.init && lifecycle.dispose)
    (.invalidContract "every preview extension must declare init and dispose")
  ensure (lifecycle.suspend == lifecycle.resume)
    (.invalidContract "suspend and resume must be declared together")
  ensure (!(lifecycle.hmr && (!lifecycle.update || manifest.plane ≠ .browser)))
    (.invalidContract "HMR requires browser update lifecycle support")

def maxCpuMs : Nat := 60000

def maxWallMs : Nat := 300000

def maxMemory : Nat := 1024 * 1024 * 1024

def maxOutput : Nat := 1024 * 1024 * 1024

def validateBudget (budget : Budget) : Except AdmissionError Unit :=
  ensure (1 ≤ budget.cpuMs && budget.cpuMs ≤ maxCpuMs
      && 1 ≤ budget.wallTimeMs && budget.wallTimeMs ≤ maxWallMs
      && 64 * 1024 ≤ budget.memoryBytes && budget.memoryBytes ≤ maxMemory
      && 1 ≤ budget.outputBytes && budget.outputBytes ≤ maxOutput)
    (.invalidBudget "budgets exceed preview bounds")

def validateManifestShape (manifest : ExtensionManifest) : Except AdmissionError Unit := do
  ensure (manifest.schema = opensdkManifestSchema) (.unknownSchema manifest.schema)
  validateIdentifier manifest.identity.nameSpace "namespace"
  validateIdentifier manifest.identity.name "name"
  validateDigest manifest.identity.digest
  ensure ((utf8 manifest.identity.version).length ≤ 64 && (utf8 manifest.apiVersion).length ≤ 64
      && manifest.hostVersion ≠ "" && (utf8 manifest.hostVersion).length ≤ 128)
    (.invalidVersion "version fields exceed preview bounds")
  validateEntry manifest
  ensureSortedUnique manifest.imports "imports" validateContractName
  ensureSortedUnique manifest.exports "exports" validateContractName
  ensureSortedUnique manifest.requiredFeatures "required_features" validateFeature
  ensureSortedUnique manifest.optionalFeatures "optional_features" validateFeature
  ensure (!manifest.requiredFeatures.any manifest.optionalFeatures.contains)
    (.invalidContract "a feature cannot be both required and optional")
  ensure (ascending manifest.capabilities)
    (.invalidContract "capabilities must be sorted and unique")
  ensure (!(manifest.plane ≠ .browser && manifest.capabilities.any Capability.isBrowserOnly))
    (.invalidContract "browser capabilities are only valid in the browser plane")
  ensure (!(manifest.determinism = .pure && !manifest.capabilities.isEmpty))
    (.invalidContract "pure extensions cannot request capabilities")
  ensure (!(manifest.determinism = .recordedEffect
      && !manifest.capabilities.contains .effectBroker))
    (.invalidContract "recorded-effect extensions must request effect-broker")
  validateLifecycle manifest
  validateBudget manifest.budgets

end Sdk

end Pliego
