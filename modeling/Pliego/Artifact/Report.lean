import Pliego.Lib.Hex
import Pliego.Lib.Sha2
import Pliego.Lib.Sorting
import Pliego.Artifact.Path

/-!
Build reports of `pliego-artifact`: the captured context, the receipt over the outputs, and their validation. The JSON
comes from an external crate and is a parameter.
-/

namespace Pliego

open Bytes Text Sorting

namespace Artifact

open Router (Unicode)

def buildLedgerName : String := "pliego.build.json"

def buildReportVersion : String := "2.0.0"

def receiptVersion : String := "2.0.0"

def namespaceVersion : String := "1.0.0"

def maxLedgerBytes : Nat := 8 * 1024 * 1024

def maxArtifactFiles : Nat := 100000

def maxOutputFileBytes : Nat := 512 * 1024 * 1024

def maxOutputTotalBytes : Nat := 4 * 1024 * 1024 * 1024

structure EvidenceFile where
  path : String
  bytes : Nat
  sha256 : String
  deriving DecidableEq, Repr

structure ToolchainEvidence where
  name : String
  version : String
  deriving DecidableEq, Repr

structure Ownership where
  projectId : String
  sitePackage : String
  deriving DecidableEq, Repr

structure FrameworkEvidence where
  version : String
  sourceRevision : String
  deriving DecidableEq, Repr

structure InputMaterial where
  id : String
  kind : String
  selection : String
  fileCount : Nat
  totalBytes : Nat
  sha256 : String
  deriving DecidableEq, Repr

structure BuildContext where
  ownership : Ownership
  framework : FrameworkEvidence
  toolchain : List ToolchainEvidence
  configuration : List EvidenceFile
  sources : List EvidenceFile
  materials : List InputMaterial
  sourceSetSha256 : String
  excludedPaths : List String
  deriving DecidableEq, Repr

structure OutputFile where
  path : String
  kind : String
  producer : String
  bytes : Nat
  sha256 : String
  deriving DecidableEq, Repr

structure OutputSet where
  files : List OutputFile
  fileCount : Nat
  totalBytes : Nat
  sha256 : String
  deriving DecidableEq, Repr

structure ReplacementPolicy where
  requiredPreviousProjectId : String
  deriving DecidableEq, Repr

structure PreviousOwnership where
  projectId : String
  sitePackage : String
  receiptSha256 : String
  deriving DecidableEq, Repr

structure ArtifactReceipt where
  receiptVersion : String
  namespaceVersion : String
  context : BuildContext
  replacementPolicy : ReplacementPolicy
  previousOwnership : Option PreviousOwnership
  outputs : OutputSet
  deriving DecidableEq, Repr

structure BuildReport where
  reportVersion : String
  receiptSha256 : String
  receipt : ArtifactReceipt
  deriving DecidableEq, Repr

-- The texts of the values that are hashed, and the ledger's text both ways.
structure Json where
  files : List OutputFile → List UInt8
  receipt : ArtifactReceipt → List UInt8
  sourceSet : List EvidenceFile → List InputMaterial → List UInt8
  reportPretty : BuildReport → List UInt8
  readReport : List UInt8 → Except ArtifactError BuildReport

def Json.RoundTrips (json : Json) : Prop :=
  ∀ report, json.readReport (json.reportPretty report ++ [10]) = .ok report

def sha256Bytes (bytes : List UInt8) : String :=
  encodeHex (Sha2.digest bytes)

def OutputFile.new (path kind producer : String) (bytes : List UInt8) : OutputFile :=
  ⟨path, kind, producer, bytes.length, sha256Bytes bytes⟩

def isBlank (value : String) : Bool :=
  value.toList.all isWhitespace

def isLowerHex (byte : UInt8) : Bool :=
  isAsciiDigit byte || (97 ≤ byte && byte ≤ 102)

def validateSha256 (value label : String) : Except ArtifactError Unit :=
  ensure ((utf8 value).length = 64 && (utf8 value).all isLowerHex)
    (.invalidReceipt (label ++ " has an invalid SHA-256"))

def isProjectIdCharacter (c : Char) : Bool :=
  c.isLower || c.isDigit || c == '-'

def validateProjectId (value : String) : Except ArtifactError Unit :=
  ensure ((utf8 value).length ≤ 64 && value.toList.head?.any Char.isLower
      && value.toList.all isProjectIdCharacter)
    (.invalidReceipt ("invalid project id " ++ value))

def validateOwnership (ownership : Ownership) : Except ArtifactError Unit := do
  validateProjectId ownership.projectId
  ensure (!isBlank ownership.sitePackage) (.invalidReceipt "site package is required")

def isMaterialByte (byte : UInt8) : Bool :=
  isAsciiAlphanumeric byte || [46, 45, 95, 64, 43, 47].contains byte

def validateMaterialToken (value label : String) : Except ArtifactError Unit :=
  ensure (value ≠ "" && (utf8 value).length ≤ 128 && (utf8 value).all isMaterialByte
      && !containsPair '.' '.' value.toList)
    (.invalidReceipt ("invalid " ++ label ++ " " ++ value))

-- A loop over paths in strict order that share one namespace.
structure PathCheck where
  space : OutputNamespace
  previous : Option String

def PathCheck.step (unicode : Unicode) (check : PathCheck) (path owner disordered nonCanonical : String)
    : Except ArtifactError PathCheck := do
  ensure (!check.previous.any (fun previous => decide (path ≤ previous)))
    (.invalidReceipt disordered)
  let (portable, space) ← check.space.insertStr unicode path owner
  ensure (portable.value = path) (.invalidReceipt (nonCanonical ++ path))
  .ok ⟨space, some path⟩

def checkEvidence (unicode : Unicode) (label : String) (check : PathCheck) (file : EvidenceFile)
    : Except ArtifactError PathCheck := do
  let next ← check.step unicode file.path label
    (label ++ " files are duplicated or not strictly ordered")
    (label ++ " path is not canonical NFC: ")
  validateSha256 file.sha256 label
  .ok next

def validateEvidenceSet (unicode : Unicode) (files : List EvidenceFile) (label : String)
    : Except ArtifactError Unit := do
  let _ ← files.foldlM (checkEvidence unicode label) ⟨.new, none⟩
  .ok ()

def checkMaterial (previous : Option String) (material : InputMaterial)
    : Except ArtifactError (Option String) := do
  validateMaterialToken material.id "material id"
  validateMaterialToken material.kind "material kind"
  ensure (!previous.any (fun previous => decide (material.id ≤ previous)))
    (.invalidReceipt "materials are duplicated or not strictly ordered")
  ensure ((material.selection = "tree-v1" || material.selection = "exact-files-v1")
      && material.fileCount ≠ 0)
    (.invalidReceipt ("material " ++ material.id ++ " has an invalid or empty selection"))
  validateSha256 material.sha256 "material"
  .ok (some material.id)

def checkExcluded (unicode : Unicode) (previous : Option String) (path : String)
    : Except ArtifactError (Option String) := do
  let portable ← PortablePath.parse unicode path
  ensure (portable.value = path && !previous.any (fun previous => decide (path ≤ previous)))
    (.invalidReceipt "excluded paths are non-canonical, duplicated, or not strictly ordered")
  .ok (some path)

def insertInput (unicode : Unicode) (space : OutputNamespace) (file : EvidenceFile)
    : Except ArtifactError OutputNamespace := do
  let (_, space) ← space.insertStr unicode file.path "build input"
  .ok space

def sourceSetSha256 (json : Json) (sources : List EvidenceFile) (materials : List InputMaterial)
    : String :=
  sha256Bytes (json.sourceSet sources materials)

def inputFileCount (context : BuildContext) : Nat :=
  context.configuration.length + context.sources.length
    + (context.materials.map InputMaterial.fileCount).sum

def BuildContext.sorted (context : BuildContext) : BuildContext :=
  { context with
    toolchain := sortBy ToolchainEvidence.name context.toolchain
    configuration := sortBy EvidenceFile.path context.configuration
    sources := sortBy EvidenceFile.path context.sources
    materials := sortBy InputMaterial.id context.materials
    excludedPaths := sortBy id context.excludedPaths }

def checkContext (unicode : Unicode) (json : Json) (context : BuildContext)
    : Except ArtifactError Unit := do
  validateEvidenceSet unicode context.configuration "configuration"
  validateEvidenceSet unicode context.sources "source"
  let _ ← context.materials.foldlM checkMaterial none
  ensure (inputFileCount context < 2 ^ 64) (.invalidReceipt "input file count overflowed u64")
  ensure (inputFileCount context ≤ maxArtifactFiles)
    (.invalidReceipt ("input set exceeds " ++ toString maxArtifactFiles ++ " files"))
  ensure (ascending (context.toolchain.map ToolchainEvidence.name))
    (.invalidReceipt "toolchain entries are duplicated or not strictly ordered")
  let names := context.toolchain.map ToolchainEvidence.name
  ensure (names.contains "cargo" && names.contains "rustc"
      && names.all (fun name => ["cargo", "rustc", "wasm-bindgen"].contains name))
    (.invalidReceipt "toolchain must contain cargo and rustc, plus optional wasm-bindgen")
  let _ ← (context.configuration ++ context.sources).foldlM (insertInput unicode) .new
  let _ ← context.excludedPaths.foldlM (checkExcluded unicode) none
  ensure (context.sourceSetSha256 = sourceSetSha256 json context.sources context.materials)
    (.invalidReceipt "source-set SHA-256 mismatch")
  context.toolchain.forM (fun entry =>
    ensure (!(isBlank entry.name || isBlank entry.version))
      (.invalidReceipt "toolchain name and version are required"))

def normalizeContext (unicode : Unicode) (json : Json) (context : BuildContext)
    : Except ArtifactError BuildContext := do
  validateOwnership context.ownership
  ensure (!(isBlank context.framework.version || isBlank context.framework.sourceRevision))
    (.invalidReceipt "framework version and source revision are required")
  ensure (!context.toolchain.isEmpty)
    (.invalidReceipt "at least one toolchain entry is required")
  checkContext unicode json context.sorted
  .ok context.sorted

structure OutputCheck where
  paths : PathCheck
  totalBytes : Nat

def checkOutput (unicode : Unicode) (check : OutputCheck) (file : OutputFile)
    : Except ArtifactError OutputCheck := do
  let paths ← check.paths.step unicode file.path file.producer
    "outputs are duplicated or not strictly ordered" "output path is not canonical NFC: "
  ensure (!(isBlank file.kind || isBlank file.producer))
    (.invalidReceipt "output kind and producer are required")
  ensure (file.bytes ≤ maxOutputFileBytes)
    (.invalidReceipt ("output " ++ file.path ++ " exceeds the per-file limit of "
      ++ toString maxOutputFileBytes ++ " bytes"))
  ensure (check.totalBytes + file.bytes ≤ maxOutputTotalBytes)
    (.invalidReceipt ("output set exceeds the aggregate limit of " ++ toString maxOutputTotalBytes
      ++ " bytes"))
  validateSha256 file.sha256 "output"
  .ok ⟨paths, check.totalBytes + file.bytes⟩

def validateOutputs (unicode : Unicode) (files : List OutputFile) : Except ArtifactError Unit := do
  ensure (files.length ≤ maxArtifactFiles)
    (.invalidReceipt ("output set exceeds " ++ toString maxArtifactFiles ++ " files"))
  let (_, space) ← OutputNamespace.new.insertStr unicode buildLedgerName "framework ledger"
  let _ ← files.foldlM (checkOutput unicode) ⟨⟨space, none⟩, 0⟩
  .ok ()

def totalOf (files : List OutputFile) : Nat :=
  (files.map OutputFile.bytes).sum

def checkTotal (files : List OutputFile) : Except ArtifactError Unit :=
  ensure (totalOf files < 2 ^ 64) (.invalidReceipt "output byte count overflowed u64")

def hashFiles (json : Json) (files : List OutputFile) : String :=
  sha256Bytes (json.files files)

def hashReceipt (json : Json) (receipt : ArtifactReceipt) : String :=
  sha256Bytes (json.receipt receipt)

namespace ArtifactReceipt

def fromContextFilesAndPrevious (unicode : Unicode) (json : Json) (context : BuildContext)
    (files : List OutputFile) (previousOwnership : Option PreviousOwnership)
    : Except ArtifactError ArtifactReceipt := do
  let context ← normalizeContext unicode json context
  let files := sortBy OutputFile.path files
  validateOutputs unicode files
  checkTotal files
  .ok
    { receiptVersion := Artifact.receiptVersion
      namespaceVersion := Artifact.namespaceVersion
      context
      replacementPolicy := ⟨context.ownership.projectId⟩
      previousOwnership
      outputs := ⟨files, files.length, totalOf files, hashFiles json files⟩ }

def sameArtifactCore (receipt other : ArtifactReceipt) : Bool :=
  receipt.receiptVersion = other.receiptVersion
    && receipt.namespaceVersion = other.namespaceVersion
    && receipt.context = other.context
    && receipt.replacementPolicy = other.replacementPolicy
    && receipt.outputs = other.outputs

end ArtifactReceipt

def validatePrevious (report : BuildReport) : Except ArtifactError Unit :=
  match report.receipt.previousOwnership with
  | none => .ok ()
  | some previous => do
    validateProjectId previous.projectId
    validateSha256 previous.receiptSha256 "previous receipt"
    ensure (!isBlank previous.sitePackage
        && previous.projectId = report.receipt.replacementPolicy.requiredPreviousProjectId
        && previous.receiptSha256 ≠ report.receiptSha256)
      (.invalidReceipt
        "previous ownership must identify a distinct receipt from the required project")

def validateReport (unicode : Unicode) (json : Json) (report : BuildReport)
    : Except ArtifactError Unit := do
  ensure (report.reportVersion = buildReportVersion)
    (.invalidReceipt ("unsupported report version " ++ report.reportVersion))
  ensure (report.receipt.receiptVersion = receiptVersion
      && report.receipt.namespaceVersion = namespaceVersion)
    (.invalidReceipt "unsupported receipt or namespace version")
  let context ← normalizeContext unicode json report.receipt.context
  ensure (context = report.receipt.context)
    (.invalidReceipt "context is not canonically ordered")
  let outputs := report.receipt.outputs
  validateOutputs unicode outputs.files
  checkTotal outputs.files
  ensure (outputs.fileCount = outputs.files.length && outputs.totalBytes = totalOf outputs.files
      && outputs.sha256 = hashFiles json outputs.files)
    (.invalidReceipt "output-set aggregate does not match declared files")
  ensure (report.receiptSha256 = hashReceipt json report.receipt)
    (.invalidReceipt "receipt SHA-256 mismatch")
  validateProjectId report.receipt.replacementPolicy.requiredPreviousProjectId
  ensure (report.receipt.replacementPolicy.requiredPreviousProjectId
      = report.receipt.context.ownership.projectId)
    (.invalidReceipt "previous ownership policy must match the receipt project")
  validatePrevious report

def BuildReport.new (unicode : Unicode) (json : Json) (receipt : ArtifactReceipt)
    : Except ArtifactError BuildReport := do
  let report : BuildReport := ⟨buildReportVersion, hashReceipt json receipt, receipt⟩
  validateReport unicode json report
  .ok report

def encodeBuildReport (unicode : Unicode) (json : Json) (report : BuildReport)
    : Except ArtifactError (List UInt8) := do
  validateReport unicode json report
  let bytes := json.reportPretty report ++ [10]
  ensure (bytes.length ≤ maxLedgerBytes)
    (.invalidReceipt ("build report exceeds " ++ toString maxLedgerBytes ++ " bytes"))
  .ok bytes

end Artifact

end Pliego
