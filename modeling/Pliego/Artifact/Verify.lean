import Pliego.Lib.FileTree
import Pliego.Artifact.Report

/-!
Verification of an output directory against its ledger: the walk over what is on disk, and the comparison with the
declared outputs.
-/

namespace Pliego

open Bytes Text FileTree

namespace Artifact

open Router (Unicode)

-- A regular file that does not change while it is read, and its hard links.
structure DiskFile where
  bytes : List UInt8
  links : Nat

structure OutputLayout where
  files : SortedSet String
  directories : SortedSet String
  entries : Nat
  components : Nat
  pathBytes : Nat

namespace OutputLayout

def start : OutputLayout := ⟨.empty, .empty, 0, 0, 0⟩

def accountStoredPath (layout : OutputLayout) (relative : String)
    : Except ArtifactError OutputLayout := do
  let components := layout.components + (split '/' relative).length
  ensure (components ≤ maxNamespaceComponents)
    (.invalidReceipt ("output layout exceeds " ++ toString maxNamespaceComponents
      ++ " stored path components"))
  let pathBytes := layout.pathBytes + (utf8 relative).length
  ensure (pathBytes ≤ maxNamespacePrefixBytes)
    (.invalidReceipt ("output layout exceeds " ++ toString maxNamespacePrefixBytes
      ++ " stored path bytes"))
  .ok { layout with components, pathBytes }

def addDirectory (layout : OutputLayout) (relative : String)
    : Except ArtifactError OutputLayout := do
  let layout ← layout.accountStoredPath relative
  ensure (!layout.directories.contains relative)
    (.namespaceCollision relative relative "duplicate directory discovered on disk")
  .ok { layout with directories := layout.directories.extend [relative] }

def addFile (layout : OutputLayout) (relative : String) : Except ArtifactError OutputLayout := do
  let layout ← layout.accountStoredPath relative
  ensure (!layout.files.contains relative)
    (.namespaceCollision relative relative "duplicate output discovered on disk")
  .ok { layout with files := layout.files.extend [relative] }

def countEntry (layout : OutputLayout) : Except ArtifactError OutputLayout := do
  ensure (layout.entries + 1 ≤ maxArtifactFiles)
    (.invalidReceipt ("output exceeds " ++ toString maxArtifactFiles ++ " entries"))
  .ok { layout with entries := layout.entries + 1 }

end OutputLayout

def joinPortable (stem name : String) : String :=
  if stem = "" then name else stem ++ "/" ++ name

def requireCanonicalDiskPath (unicode : Unicode) (raw : String) : Except ArtifactError String := do
  let portable ← PortablePath.parse unicode raw
  ensure (portable.value = raw) (.invalidPath raw)
  .ok raw

def visitEntry (unicode : Unicode) (layout : OutputLayout) (raw : String) (node : Node DiskFile)
    : Except ArtifactError OutputLayout := do
  let layout ← layout.countEntry
  let relative ← requireCanonicalDiskPath unicode raw
  match node with
  | .symlink => .error (.invalidPath ("linked output " ++ relative))
  | .directory _ => layout.addDirectory relative
  | .special => .error (.invalidPath ("non-regular output " ++ relative))
  | .file _ => if relative = buildLedgerName then .ok layout else layout.addFile relative

mutual

def collectBelow (unicode : Unicode) (stem : String) (node : Node DiskFile)
    (layout : OutputLayout) : Except ArtifactError OutputLayout :=
  match node with
  | .directory entries => collectOutputDirectory unicode stem entries layout
  | _ => .ok layout

def collectOutputDirectory (unicode : Unicode) (stem : String) (entries : Entries DiskFile)
    (layout : OutputLayout) : Except ArtifactError OutputLayout :=
  match entries with
  | [] => .ok layout
  | (name, node) :: rest => do
    let layout ← visitEntry unicode layout (joinPortable stem name) node
    let layout ← collectBelow unicode (joinPortable stem name) node layout
    collectOutputDirectory unicode stem rest layout

end

def insertDiskOutput (unicode : Unicode) (space : OutputNamespace) (path : String)
    : Except ArtifactError OutputNamespace := do
  let (_, space) ← space.insertStr unicode path "disk output"
  .ok space

def checkDiskDirectory (unicode : Unicode) (space : OutputNamespace)
    (keys : SortedMap String String) (directory : String)
    : Except ArtifactError (SortedMap String String) := do
  let portable ← PortablePath.parse unicode directory
  match keys.get? portable.collisionKey with
  | some existing =>
    .error (.namespaceCollision portable.value existing
      "two directories resolve to the same portable path")
  | none => do
    match space.files.get? portable.collisionKey with
    | some existing =>
      .error (.namespaceCollision portable.value existing.1 "a path is both a file and a directory")
    | none => do
      let implied := (space.directories.get? portable.collisionKey).getD portable.value
      ensure (implied = portable.value)
        (.namespaceCollision portable.value implied
          "an explicit directory aliases a directory implied by a file")
      .ok (keys.insert portable.collisionKey portable.value)

def validateOutputLayoutNamespace (unicode : Unicode) (layout : OutputLayout)
    : Except ArtifactError Unit := do
  let space ← layout.files.keys.foldlM (insertDiskOutput unicode) .new
  let _ ← layout.directories.keys.foldlM (checkDiskDirectory unicode space) .empty
  .ok ()

def collectOutputLayout (unicode : Unicode) (entries : Entries DiskFile)
    : Except ArtifactError OutputLayout := do
  let layout ← collectOutputDirectory unicode "" entries .start
  validateOutputLayoutNamespace unicode layout
  .ok layout

structure ExpectedDirectories where
  directories : SortedSet String
  components : Nat
  prefixBytes : Nat

def storeExpected (unicode : Unicode) (expected : ExpectedDirectories) (stem : String)
    : Except ArtifactError ExpectedDirectories :=
  if expected.directories.contains stem then
    .ok expected
  else do
    let portable ← PortablePath.parse unicode stem
    let prefixBytes := expected.prefixBytes + (utf8 portable.value).length
      + (utf8 portable.collisionKey).length
    ensure (prefixBytes ≤ maxNamespacePrefixBytes)
      (.invalidReceipt ("expected output directories exceed " ++ toString maxNamespacePrefixBytes
        ++ " stored prefix bytes"))
    .ok { expected with prefixBytes, directories := expected.directories.extend [stem] }

def addExpectedDirectory (unicode : Unicode) (expected : ExpectedDirectories) (stem : String)
    : Except ArtifactError ExpectedDirectories := do
  let expected ← storeExpected unicode expected stem
  ensure (expected.directories.len ≤ maxNamespaceComponents)
    (.invalidReceipt ("expected output directories exceed " ++ toString maxNamespaceComponents
      ++ " nodes"))
  .ok expected

def addExpectedPath (unicode : Unicode) (expected : ExpectedDirectories) (path : String)
    : Except ArtifactError ExpectedDirectories := do
  let portable ← PortablePath.parse unicode path
  let components := expected.components + portable.components.length
  ensure (components ≤ maxNamespaceComponents)
    (.invalidReceipt ("expected output directories exceed " ++ toString maxNamespaceComponents
      ++ " path components"))
  (portable.directories.map Prod.snd).foldlM (addExpectedDirectory unicode)
    { expected with components }

def expectedOutputDirectories (unicode : Unicode) (paths : List String)
    : Except ArtifactError ExpectedDirectories :=
  paths.foldlM (addExpectedPath unicode) ⟨.empty, 0, 0⟩

def readRegularBounded (entries : Entries DiskFile) (name : String) (limit : Nat) (label : String)
    : Except ArtifactError (List UInt8) :=
  match lookup entries [name] with
  | some (.file file) => do
    ensure (file.bytes.length ≤ limit)
      (.invalidReceipt (label ++ " must be a regular file no larger than " ++ toString limit
        ++ " bytes"))
    ensure (file.links = 1) (.invalidPath ("hard-linked file is not independently owned: " ++ name))
    .ok file.bytes
  | some .symlink => .error (.io name)
  | none => .error (.io name)
  | some _ =>
    .error (.invalidReceipt (label ++ " must be a regular file no larger than " ++ toString limit
      ++ " bytes"))

def readBuildReport (unicode : Unicode) (json : Json) (entries : Entries DiskFile)
    : Except ArtifactError BuildReport := do
  let bytes ← readRegularBounded entries buildLedgerName maxLedgerBytes "build ledger"
  let report ← json.readReport bytes
  validateReport unicode json report
  .ok report

def evidenceForOutputRelative (unicode : Unicode) (entries : Entries DiskFile)
    (expected : OutputFile) : Except ArtifactError EvidenceFile := do
  let portable ← PortablePath.parse unicode expected.path
  match lookup entries portable.components with
  | some (.file file) => do
    ensure (file.bytes.length = expected.bytes) (.modified expected.path)
    ensure (file.links = 1)
      (.invalidPath ("hard-linked file is not independently owned: " ++ portable.value))
    ensure (file.bytes.length ≤ maxOutputFileBytes)
      (.invalidReceipt ("file exceeds the verification limit of " ++ toString maxOutputFileBytes
        ++ " bytes: " ++ portable.value))
    .ok ⟨portable.value, file.bytes.length, sha256Bytes file.bytes⟩
  | some .symlink => .error (.io portable.value)
  | none => .error (.io portable.value)
  | some _ => .error (.invalidPath ("output must be a regular file: " ++ portable.value))

def checkFile (unicode : Unicode) (entries : Entries DiskFile) (expected : OutputFile)
    : Except ArtifactError Unit := do
  let actual ← evidenceForOutputRelative unicode entries expected
  ensure (actual.bytes = expected.bytes && actual.sha256 = expected.sha256)
    (.modified expected.path)

structure VerifiedBuild where
  report : BuildReport
  files : Nat
  bytes : Nat

-- The loops over the declared paths and over the layout run in the order of the paths, which is the
-- order of a valid report's outputs.
def verifyBuildReport (unicode : Unicode) (json : Json) (root : Node DiskFile)
    : Except ArtifactError VerifiedBuild :=
  match root with
  | .directory entries => do
    let report ← readBuildReport unicode json entries
    let actual ← collectOutputLayout unicode entries
    let files := report.receipt.outputs.files
    let paths := files.map OutputFile.path
    paths.forM (fun path => ensure (actual.files.contains path) (.missing path))
    actual.files.keys.forM (fun path => ensure (paths.contains path) (.extra path))
    let expected ← expectedOutputDirectories unicode paths
    actual.directories.keys.forM (fun directory =>
      ensure (expected.directories.contains directory) (.extra (directory ++ "/")))
    files.forM (checkFile unicode entries)
    .ok ⟨report, actual.files.len, report.receipt.outputs.totalBytes⟩
  | _ => .error (.invalidPath "")

end Artifact

end Pliego
