import Pliego.Lib.Hex
import Pliego.Lib.Sha2
import Pliego.Lib.Utf8
import Pliego.Inspect.Manifest

/-!
The asset directory of an inspection: its walk, the files that the manifest declares, and the whole report.
-/

namespace Pliego

namespace Inspect

open Bytes

-- A name as a directory holds it, which need not be text.
structure OsName where
  bytes : List UInt8
  nonempty : bytes ≠ []
  noSlash : 47 ∉ bytes
  noNul : 0 ∉ bytes
  notSelf : bytes ≠ utf8 "."
  notParent : bytes ≠ utf8 ".."
  deriving DecidableEq

structure Content where
  bytes : List UInt8
  fits : bytes.length < 2 ^ 64

inductive Entry where
  | file (content : Content)
  | directory (entries : List (OsName × Entry))

-- How the machine writes what the report repeats, and what a path with `..` in it leads to.
structure Machine where
  debug : String → String
  root : String
  notFound : String
  notDirectory : String
  nulByte : String
  above : List String → Except String Content

def joinBytes (names : List (List UInt8)) : List UInt8 := [(47 : UInt8)].intercalate names

def pathBytes (path : List OsName) : List UInt8 := joinBytes (path.map OsName.bytes)

-- `to_string_lossy().replace('\\', "/")`.
def spelled (path : List OsName) : String :=
  String.ofList ((Utf8.lossy (pathBytes path)).toList.map fun c => if c = '\\' then '/' else c)

-- What stands behind the last dot of a name that does not only begin with it.
def fileExtension (name : List UInt8) : Option (List UInt8) :=
  let after := name.rtakeWhile (· ≠ 46)
  if after.length + 1 < name.length then some after else none

def trackedExtension (name : OsName) : Option String :=
  ((fileExtension name.bytes).bind Utf8.decode).map fun text => "." ++ toAsciiLowercase text

def isTracked (extensions : SortedSet String) (name : OsName) : Bool :=
  match trackedExtension name with
  | some text => extensions.contains text
  | none => false

mutual

def collectEntry (extensions : SortedSet String) (path : List OsName) (name : OsName) (entry : Entry)
    (paths : SortedSet String) : SortedSet String :=
  match entry with
  | .directory entries => collectTrackedFiles extensions (path ++ [name]) entries paths
  | .file _ => if isTracked extensions name then paths.insert (spelled (path ++ [name])) () else paths

def collectTrackedFiles (extensions : SortedSet String) (path : List OsName) (entries : List (OsName × Entry))
    (paths : SortedSet String) : SortedSet String :=
  match entries with
  | [] => paths
  | (name, entry) :: rest =>
    collectTrackedFiles extensions path rest (collectEntry extensions path name entry paths)

end

-- `value.split('/').collect()`: the pieces that are pushed one after another.
def pathFromManifest (value : String) : List String := Text.split '/' value

def pushPiece (path piece : String) : String :=
  if path = "" || Text.endsWith '/' path then path ++ piece else path ++ "/" ++ piece

-- How a path below the root is printed.
def Machine.display (machine : Machine) (pieces : List String) : String :=
  pushPiece machine.root (pieces.foldl pushPiece "")

-- What the pieces of a path lead to from a directory, each but the last through a directory.
def resolve (machine : Machine) (entries : List (OsName × Entry)) (pieces : List String) : Except String Entry :=
  match pieces with
  | [] => .ok (.directory entries)
  | piece :: rest =>
    if piece = "" ∨ piece = "." then
      resolve machine entries rest
    else
      match entries.find? (fun entry => entry.1.bytes = utf8 piece) with
      | none => .error machine.notFound
      | some (_, .directory sub) => resolve machine sub rest
      | some (_, .file content) => if rest.isEmpty then .ok (.file content) else .error machine.notDirectory

def hashConfinedFile (machine : Machine) (entries : List (OsName × Entry)) (pieces : List String)
    : Except String Content :=
  if pieces.any (fun piece => Text.contains piece (Char.ofNat 0)) then
    .error machine.nulByte
  else if pieces.contains ".." then
    machine.above pieces
  else
    match resolve machine entries pieces with
    | .error text => .error text
    | .ok (.file content) => .ok content
    | .ok (.directory _) => .error "asset variant must be a real file"

def hexDigest (content : Content) : String := encodeHex (Sha2.digest content.bytes)

def verifyVariant (machine : Machine) (entries : List (OsName × Entry)) (variant : Variant) : List Issue :=
  match hashConfinedFile machine entries (pathFromManifest variant.path) with
  | .ok content =>
    issueUnless (content.bytes.length = variant.bytes.toNat) "file.bytes.mismatch"
        (variant.path ++ " declares " ++ toString variant.bytes ++ " bytes but disk has "
          ++ toString content.bytes.length)
      ++ issueUnless (hexDigest content = variant.sha256) "file.sha256.mismatch"
        (variant.path ++ " does not match its declared SHA-256")
  | .error text =>
    [⟨"file.missing", "cannot read " ++ machine.display (pathFromManifest variant.path) ++ ": " ++ text⟩]

def checkCoverage (disk declared excluded : SortedSet String) : List Issue :=
  disk.keys.flatMap (fun path =>
      issueUnless (declared.contains path || excluded.contains path) "coverage.untracked"
        ("tracked file " ++ path ++ " is absent from the manifest"))
    ++ declared.keys.flatMap fun path =>
      issueUnless (disk.contains path) "coverage.declared-missing"
        ("declared tracked file " ++ path ++ " is absent from disk")

def verifyFiles (machine : Machine) (entries : List (OsName × Entry)) (extensions declared excluded : SortedSet String)
    (variants : SortedMap String Variant) : List Issue :=
  variants.values.flatMap (verifyVariant machine entries)
    ++ checkCoverage (collectTrackedFiles extensions [] entries .empty) declared excluded

def manifestIssues (debug : String → String) (manifest : AssetManifest) : List Issue :=
  issueUnless (manifest.manifestVersion = manifestVersion) "manifest.version"
      ("manifestVersion must be " ++ manifestVersion ++ ", got " ++ manifest.manifestVersion)
    ++ checkWork debug manifest.work
    ++ issueUnless ((extensionSet manifest.coverage).keys.length = manifest.coverage.trackedExtensions.length)
      "coverage.extension.duplicate" "trackedExtensions contains duplicates"
    ++ (checkExclusions debug manifest.coverage).1 ++ (gather debug manifest.assets).issues
    ++ checkFallbacks (gather debug manifest.assets).variants
    ++ checkExcludedDeclared (checkExclusions debug manifest.coverage).2 (gather debug manifest.assets).paths
    ++ (checkBudgets debug (gather debug manifest.assets).variants manifest.budgetScopes).1

def inspect (machine : Machine) (manifest : AssetManifest) (root : Option (List (OsName × Entry)))
    : InspectionReport :=
  let gathered := gather machine.debug manifest.assets
  let (_, excluded) := checkExclusions machine.debug manifest.coverage
  let (_, _, results) := checkBudgets machine.debug gathered.variants manifest.budgetScopes
  let issues := manifestIssues machine.debug manifest
    ++ match root with
      | some entries =>
        verifyFiles machine entries (extensionSet manifest.coverage) gathered.paths excluded gathered.variants
      | none => []
  { manifestVersion := manifest.manifestVersion
    work := manifest.work
    integrityMode := if root.isSome then .files else .metadata
    valid := issues.isEmpty
    budgetsPass := results.all BudgetResult.passed
    assetCount := manifest.assets.length
    variantCount := gathered.variants.keys.length
    totalBytes := gathered.totalBytes
    tierTotals := gathered.tierTotals
    budgetResults := results
    issues }

inductive InspectError where
  | io (path source : String)
  | json (path source : String)
  | invalidInput (path message : String)
  | invalidTargetSet (message : String)

structure TargetReference where
  id : String
  manifest : String

structure TargetSet where
  baselineVersion : String
  measurementPlan : String
  targets : List TargetReference

structure BaselineReport where
  baselineVersion : String
  measurementPlan : String
  measurementPlanSha256 : String
  valid : Bool
  budgetsPass : Bool
  targetCount : Nat
  assetCount : Nat
  variantCount : Nat
  totalBytes : UInt64
  failedBudgetCount : Nat
  targets : List InspectionReport

-- `sum` with overflow checks, which has no result where a sum does not fit.
def checkedSum (values : List UInt64) (sum : UInt64) : Option UInt64 :=
  match values with
  | [] => some sum
  | value :: rest => if sum.toNat + value.toNat < 2 ^ 64 then checkedSum rest (sum + value) else none

-- `read` is what reading a manifest below the target set gives.
def inspectTargets (machine : Machine) (read : String → Except InspectError AssetManifest) (ids : List String)
    (targets : List TargetReference) : Except InspectError (List InspectionReport) :=
  match targets with
  | [] => .ok []
  | target :: rest => do
    if ids.contains target.id then
      throw (.invalidTargetSet ("duplicate target id " ++ target.id))
    let manifest ← read target.manifest
    let report := inspect machine manifest none
    if report.work.id ≠ target.id then
      throw (.invalidTargetSet ("target id " ++ target.id ++ " does not match manifest work id " ++ report.work.id))
    let reports ← inspectTargets machine read (target.id :: ids) rest
    return report :: reports

-- The report over inspected targets, unless the sum panics. `plan` is the digest of the measurement plan.
def totalled (targetSet : TargetSet) (plan : String) (reports : List InspectionReport) : Option BaselineReport := do
  let totalBytes ← checkedSum (reports.map InspectionReport.totalBytes) 0
  return {
    baselineVersion := targetSet.baselineVersion
    measurementPlan := targetSet.measurementPlan
    measurementPlanSha256 := plan
    valid := reports.all InspectionReport.valid
    budgetsPass := reports.all InspectionReport.budgetsPass
    targetCount := reports.length
    assetCount := (reports.map InspectionReport.assetCount).sum
    variantCount := (reports.map InspectionReport.variantCount).sum
    totalBytes
    failedBudgetCount := ((reports.flatMap InspectionReport.budgetResults).filter (!·.passed)).length
    targets := reports }

def baseline (machine : Machine) (plan : Except InspectError String)
    (read : String → Except InspectError AssetManifest) (targetSet : TargetSet)
    : Option (Except InspectError BaselineReport) :=
  match plan with
  | .error error => some (.error error)
  | .ok plan =>
    match inspectTargets machine read [] targetSet.targets with
    | .error error => some (.error error)
    | .ok reports => (totalled targetSet plan reports).map .ok

end Inspect

end Pliego
