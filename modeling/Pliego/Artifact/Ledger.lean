import Mathlib
import Pliego.Lib.JsonText
import Pliego.Artifact.Report

/-!
The JSON of build reports.
-/

namespace Pliego

open Bytes JsonText

namespace Artifact

section Values

def count (n : Nat) : Value := .number (toString n)

def EvidenceFile.value (file : EvidenceFile) : Value :=
  .object [("path", .text file.path), ("bytes", count file.bytes), ("sha256", .text file.sha256)]

def ToolchainEvidence.value (entry : ToolchainEvidence) : Value :=
  .object [("name", .text entry.name), ("version", .text entry.version)]

def Ownership.value (ownership : Ownership) : Value :=
  .object [("projectId", .text ownership.projectId), ("sitePackage", .text ownership.sitePackage)]

def FrameworkEvidence.value (framework : FrameworkEvidence) : Value :=
  .object [("version", .text framework.version),
    ("sourceRevision", .text framework.sourceRevision)]

def InputMaterial.value (material : InputMaterial) : Value :=
  .object [("id", .text material.id), ("kind", .text material.kind),
    ("selection", .text material.selection), ("fileCount", count material.fileCount),
    ("totalBytes", count material.totalBytes), ("sha256", .text material.sha256)]

def BuildContext.value (context : BuildContext) : Value :=
  .object [("ownership", context.ownership.value), ("framework", context.framework.value),
    ("toolchain", .array (context.toolchain.map ToolchainEvidence.value)),
    ("configuration", .array (context.configuration.map EvidenceFile.value)),
    ("sources", .array (context.sources.map EvidenceFile.value)),
    ("materials", .array (context.materials.map InputMaterial.value)),
    ("sourceSetSha256", .text context.sourceSetSha256),
    ("excludedPaths", .array (context.excludedPaths.map Value.text))]

def OutputFile.value (file : OutputFile) : Value :=
  .object [("path", .text file.path), ("kind", .text file.kind), ("producer", .text file.producer),
    ("bytes", count file.bytes), ("sha256", .text file.sha256)]

def OutputSet.value (outputs : OutputSet) : Value :=
  .object [("files", .array (outputs.files.map OutputFile.value)),
    ("fileCount", count outputs.fileCount), ("totalBytes", count outputs.totalBytes),
    ("sha256", .text outputs.sha256)]

def ReplacementPolicy.value (policy : ReplacementPolicy) : Value :=
  .object [("requiredPreviousProjectId", .text policy.requiredPreviousProjectId)]

def PreviousOwnership.value (previous : PreviousOwnership) : Value :=
  .object [("projectId", .text previous.projectId), ("sitePackage", .text previous.sitePackage),
    ("receiptSha256", .text previous.receiptSha256)]

def ArtifactReceipt.value (receipt : ArtifactReceipt) : Value :=
  .object [("receiptVersion", .text receipt.receiptVersion),
    ("namespaceVersion", .text receipt.namespaceVersion), ("context", receipt.context.value),
    ("replacementPolicy", receipt.replacementPolicy.value),
    ("previousOwnership", (receipt.previousOwnership.map PreviousOwnership.value).getD .null),
    ("outputs", receipt.outputs.value)]

def BuildReport.value (report : BuildReport) : Value :=
  .object [("reportVersion", .text report.reportVersion),
    ("receiptSha256", .text report.receiptSha256), ("receipt", report.receipt.value)]

end Values

def quoted (text : String) : List UInt8 := [34] ++ utf8 text ++ [34]

section Enumeration

instance encodableChar : Encodable Char :=
  Encodable.ofLeftInjection Char.toNat (fun n => some (Char.ofNat n))
    (fun c => congrArg some (Char.ofNat_toNat c))

instance encodableString : Encodable String :=
  Encodable.ofLeftInjection String.toList (fun chars => some (String.ofList chars))
    (fun _ => congrArg some String.ofList_toList)

deriving instance Encodable for EvidenceFile
deriving instance Encodable for ToolchainEvidence
deriving instance Encodable for Ownership
deriving instance Encodable for FrameworkEvidence
deriving instance Encodable for InputMaterial
deriving instance Encodable for BuildContext
deriving instance Encodable for OutputFile
deriving instance Encodable for OutputSet
deriving instance Encodable for ReplacementPolicy
deriving instance Encodable for PreviousOwnership
deriving instance Encodable for ArtifactReceipt
deriving instance Encodable for BuildReport

end Enumeration

def ledgerText (report : BuildReport) : List UInt8 := pretty quoted 0 report.value

-- The JSON crate as a writer.
def jsonWriter : Json where
  files := fun files => write quoted (.array (files.map OutputFile.value))
  receipt := fun receipt => write quoted receipt.value
  sourceSet := fun sources materials =>
    write quoted (.array [.array (sources.map EvidenceFile.value),
      .array (materials.map InputMaterial.value)])
  reportPretty := ledgerText
  readReport := fun _ => .error (.json "expected value")

-- The JSON crate, for one report. Other reports are only kept apart from it and from each other.
def jsonOf (sample : BuildReport) : Json :=
  { jsonWriter with
    reportPretty := fun report =>
      if report = sample then ledgerText report
      else List.replicate (Encodable.encode report + 1) 0
    readReport := fun bytes =>
      if bytes = ledgerText sample ++ [10] then
        .ok sample
      else
        match Encodable.decode (bytes.length - 2) with
        | some report => .ok report
        | none => .error (.json "expected value") }

theorem ledgerText_head {report : BuildReport} : (ledgerText report).head? = some 123 := by
  unfold ledgerText BuildReport.value
  rw [pretty]
  unfold laidOut
  rw [prettyMembers, List.isEmpty_cons, if_neg Bool.false_ne_true]
  rfl

theorem jsonOf_roundTrips {sample : BuildReport} : (jsonOf sample).RoundTrips := by
  intro report
  unfold jsonOf
  dsimp only
  by_cases hsample : report = sample
  . rw [if_pos hsample, hsample, if_pos rfl]
  . rw [if_neg hsample, if_neg]
    . rw [List.length_append, List.length_replicate, List.length_singleton]
      rw [Nat.add_sub_cancel (Encodable.encode report) 2, Encodable.encodek]
    . intro hsame
      have hhead := congrArg List.head? hsame
      rw [List.head?_append, List.head?_append, ledgerText_head, List.replicate_succ] at hhead
      cases hhead

theorem extent_file {file : OutputFile} {depth : Nat}
    : extent quoted depth file.value
      = (utf8 file.path).length + (utf8 file.kind).length + (utf8 file.producer).length
        + (utf8 (toString file.bytes)).length + (utf8 file.sha256).length + 12 * depth + 78 := by
  unfold OutputFile.value count quoted
  simp only [extent, extentMembers, List.length_append, List.length_singleton]
  have hpath : (utf8 "path").length = 4 := by decide
  have hkind : (utf8 "kind").length = 4 := by decide
  have hproducer : (utf8 "producer").length = 8 := by decide
  have hbytes : (utf8 "bytes").length = 5 := by decide
  have hsha256 : (utf8 "sha256").length = 6 := by decide
  omega

end Artifact

end Pliego
