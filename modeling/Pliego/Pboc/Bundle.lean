import Pliego.Lib.FileTree
import Pliego.Lib.Hex
import Pliego.Pboc.Manifest

/-!
The bundle that a manifest declares, as the file system holds it, and the admission of a manifest by a host.
-/

namespace Pliego

open Bytes Text Sorting FileTree

namespace Pboc

open Router (Unicode)

structure FileContent where
  bytes : Nat
  sha256 : String

-- The canonical JSON of a manifest comes from an external crate.
abbrev ManifestJson := PbocManifest → List UInt8

def encodeManifest (unicode : Unicode) (json : ManifestJson) (manifest : PbocManifest)
    : Except PbocError (List UInt8) := do
  validateManifest unicode manifest
  if (json manifest).length > maxManifestBytes then
    .error (.manifestTooLarge (json manifest).length maxManifestBytes)
  else
    .ok (json manifest)

def sha256Bytes (sha256 : Sha256) (bytes : List UInt8) : String := encodeHex (sha256 bytes).bytes

def PbocManifest.sha256 (unicode : Unicode) (json : ManifestJson) (sha256 : Sha256)
    (manifest : PbocManifest) : Except PbocError String := do
  let bytes ← encodeManifest unicode json manifest
  .ok (sha256Bytes sha256 bytes)

def pathText (path : List String) : String := join '/' path

-- The results of the entries of a directory, in the order of their names.
def inOrder (results : List (String × Except PbocError (List String)))
    : Except PbocError (List String) :=
  (sortBy Prod.fst results).foldlM (fun files result => result.2.map (files ++ ·)) []

mutual

def collectNode (unicode : Unicode) (path : List String) (node : Node FileContent)
    : Except PbocError (List String) :=
  match node with
  | .symlink => .error (.artifact ("symlink is forbidden: " ++ pathText path))
  | .directory entries => inOrder (collectEntries unicode path entries)
  | .file _ =>
    match validatePortablePath unicode (pathText path) with
    | .error error => .error (.artifact error)
    | .ok _ => .ok [pathText path]
  | .special => .error (.artifact ("unsupported file type: " ++ pathText path))

def collectEntries (unicode : Unicode) (path : List String) (entries : Entries FileContent)
    : List (String × Except PbocError (List String)) :=
  match entries with
  | [] => []
  | (name, node) :: rest =>
    (name, collectNode unicode (path ++ [name]) node) :: collectEntries unicode path rest

end

def collectFiles (unicode : Unicode) (entries : Entries FileContent)
    : Except PbocError (List String) :=
  inOrder (collectEntries unicode [] entries)

structure BundleVerification where
  contract : String
  manifestSha256 : String
  artifactCount : Nat
  totalBytes : Nat
  artifactSetSha256 : String

def artifactRecord (artifact : PbocArtifact) : List UInt8 :=
  lenPrefixed (utf8 artifact.path) ++ beBytes 8 artifact.bytes ++ utf8 artifact.sha256

def verifyArtifact (entries : Entries FileContent) (total : Nat) (artifact : PbocArtifact)
    : Except PbocError Nat :=
  match lookup entries (split '/' artifact.path) with
  | none => .error (.io artifact.path)
  | some (.file content) =>
    if content.bytes ≠ artifact.bytes then
      .error (.artifact (artifact.path ++ " byte length differs"))
    else if content.sha256 ≠ artifact.sha256 then
      .error (.artifact (artifact.path ++ " digest differs"))
    else if 2 ^ 64 ≤ total + artifact.bytes then
      .error (.artifact "bundle byte total overflows u64")
    else
      .ok (total + artifact.bytes)
  | some _ => .error (.artifact (artifact.path ++ " is not a regular file"))

def differ (missing extra : List String) : String :=
  "bundle exact set differs; missing=[" ++ join ',' missing ++ "] extra=[" ++ join ',' extra ++ "]"

def verifyBundle (unicode : Unicode) (json : ManifestJson) (sha256 : Sha256)
    (root : Node FileContent) (manifest : PbocManifest) : Except PbocError BundleVerification := do
  validateManifest unicode manifest
  match root with
  | .directory entries => do
    let found ← collectFiles unicode entries
    let observed := (SortedSet.ofList found).remove pbocFileName
    let expected := SortedSet.ofList (artifactPaths manifest.artifacts)
    if observed ≠ expected then
      .error (.artifact (differ (expected.keys.filter (fun path => path ∉ observed.keys))
        (observed.keys.filter (fun path => path ∉ expected.keys))))
    else
      -- a valid manifest lists its artifacts in the order of their paths
      let total ← manifest.artifacts.foldlM (verifyArtifact entries) 0
      let manifestSha256 ← manifest.sha256 unicode json sha256
      .ok {
        contract := "dev.pliegors.pboc-bundle-verification/v1"
        manifestSha256 := manifestSha256
        artifactCount := expected.len
        totalBytes := total
        artifactSetSha256 := sha256Bytes sha256 (manifest.artifacts.flatMap artifactRecord) }
  | _ => .error (.artifact "bundle root must be a real directory")

structure HostProfile where
  hostId : String
  hostVersion : String
  targetId : String
  hostKind : HostKind
  features : List FeatureRequirement
  maxArtifactBytes : Nat
  maxBundleBytes : Nat

structure HostAdmission where
  contract : String
  manifestSha256 : String
  hostId : String
  hostVersion : String
  targetId : String
  artifactPaths : List String
  unsupportedOptionalFeatures : List String
  requiredSecretReferences : List String

def HostProfile.provides (host : HostProfile) (feature : FeatureRequirement) : Bool :=
  host.features.any (fun available => available.id = feature.id && available.version = feature.version)

def HostProfile.lacks (host : HostProfile) (features : List FeatureRequirement) : List String :=
  (SortedSet.ofList ((features.filter (fun feature => !host.provides feature)).map
    (fun feature => feature.id ++ "@" ++ toString feature.version))).keys

def uploadPaths (manifest : PbocManifest) (target : DeploymentTarget) : List String :=
  (SortedSet.ofList (target.artifactPaths ++ manifest.assets.map PbocAsset.artifactPath
    ++ [manifest.build.provenance.sbomPath, manifest.build.provenance.provenancePath])).keys

def addUpload (host : HostProfile) (total : Nat) (artifact : PbocArtifact) : Except PbocError Nat :=
  if artifact.bytes > host.maxArtifactBytes then
    .error (.invalid ("artifact " ++ artifact.path ++ " exceeds host limit "
      ++ toString host.maxArtifactBytes))
  else if 2 ^ 64 ≤ total + artifact.bytes then
    .error (.invalid "host upload byte total overflows u64")
  else
    .ok (total + artifact.bytes)

def HostAdmission.new (unicode : Unicode) (json : ManifestJson) (sha256 : Sha256)
    (manifest : PbocManifest) (host : HostProfile) : Except PbocError HostAdmission := do
  validateManifest unicode manifest
  boundedId host.hostId "host.id"
  boundedText host.hostVersion "host.version"
  match manifest.targets.find? (fun target =>
      target.id = host.targetId && target.hostKind = host.hostKind) with
  | none => .error (.unsupportedTarget host.targetId)
  | some target => do
    let missing := host.lacks (manifest.capabilities.filter FeatureRequirement.required
      ++ target.requiredFeatures ++ manifest.routes.flatMap PbocRoute.requiredFeatures)
    if !missing.isEmpty then
      .error (.unsupportedFeatures missing)
    else
      let paths := uploadPaths manifest target
      -- every path of the upload was declared as an artifact when the manifest was validated
      let uploads := paths.filterMap (fun path =>
        manifest.artifacts.find? (fun artifact => artifact.path = path))
      let total ← uploads.foldlM (addUpload host) 0
      if total > host.maxBundleBytes then
        .error (.invalid ("host upload is " ++ toString total ++ " bytes; maximum is "
          ++ toString host.maxBundleBytes))
      else
        let manifestSha256 ← manifest.sha256 unicode json sha256
        .ok {
          contract := "dev.pliegors.pboc-admission/v1"
          manifestSha256 := manifestSha256
          hostId := host.hostId
          hostVersion := host.hostVersion
          targetId := target.id
          artifactPaths := paths
          unsupportedOptionalFeatures := host.lacks (manifest.capabilities.filter
            (fun feature => !feature.required) ++ target.optionalFeatures)
          requiredSecretReferences := (manifest.secretReferences.filter
            SecretReference.required).map SecretReference.id }

section Collection

variable {unicode : Unicode} {results : List (String × Except PbocError (List String))}

theorem foldlM_gather_ok {files start : List String}
    (h : results.foldlM (fun files result => result.2.map (files ++ ·)) start = .ok files)
    : (∀ result ∈ results, ∃ found, result.2 = .ok found)
      ∧ ∀ file, file ∈ files ↔ file ∈ start
        ∨ ∃ result ∈ results, ∃ found, result.2 = .ok found ∧ file ∈ found := by
  induction results generalizing start with
  | nil =>
    cases h
    simp
  | cons result results ih =>
    rw [List.foldlM_cons] at h
    obtain ⟨next, hnext, h⟩ := Except.bind_eq_ok.mp h
    cases hresult : result.2 with
    | error error =>
      rw [hresult] at hnext
      cases hnext
    | ok found =>
      rw [hresult] at hnext
      cases hnext
      obtain ⟨hall, hmem⟩ := ih h
      refine ⟨?_, ?_⟩
      . intro other hother
        cases List.mem_cons.mp hother with
        | inl hsame => exact ⟨found, hsame ▸ hresult⟩
        | inr hrest => exact hall other hrest
      . intro file
        rw [hmem, List.mem_append, or_assoc]
        constructor
        . rintro (hstart | hfound | ⟨other, hother, hrest⟩)
          . exact .inl hstart
          . exact .inr ⟨result, List.mem_cons_self, found, hresult, hfound⟩
          . exact .inr ⟨other, List.mem_cons_of_mem _ hother, hrest⟩
        . rintro (hstart | ⟨other, hother, found', hok, hfile⟩)
          . exact .inl hstart
          . cases List.mem_cons.mp hother with
            | inl hsame =>
              rw [hsame, hresult] at hok
              cases hok
              exact .inr (.inl hfile)
            | inr hrest => exact .inr (.inr ⟨other, hrest, found', hok, hfile⟩)

theorem foldlM_gather_of {start : List String} (h : ∀ result ∈ results, ∃ found, result.2 = .ok found)
    : ∃ files, results.foldlM (fun files result => result.2.map (files ++ ·)) start = .ok files := by
  induction results generalizing start with
  | nil => exact ⟨start, rfl⟩
  | cons result results ih =>
    obtain ⟨found, hfound⟩ := h result List.mem_cons_self
    rw [List.foldlM_cons, hfound]
    exact ih (fun other hother => h other (List.mem_cons_of_mem _ hother))

theorem inOrder_ok {files : List String} (h : inOrder results = .ok files)
    : (∀ result ∈ results, ∃ found, result.2 = .ok found)
      ∧ ∀ file, file ∈ files ↔ ∃ result ∈ results, ∃ found, result.2 = .ok found ∧ file ∈ found := by
  obtain ⟨hall, hmem⟩ := foldlM_gather_ok h
  refine ⟨fun result hresult => hall result (mem_sortBy.mpr hresult), ?_⟩
  intro file
  rw [hmem]
  simp only [List.not_mem_nil, false_or, mem_sortBy]

theorem inOrder_of (h : ∀ result ∈ results, ∃ found, result.2 = .ok found)
    : ∃ files, inOrder results = .ok files :=
  foldlM_gather_of (fun result hresult => h result (mem_sortBy.mp hresult))

def Collectable (unicode : Unicode) (path : List String) (node : Node FileContent) : Prop :=
  match node with
  | .file _ => ∃ value, validatePortablePath unicode (pathText path) = .ok value
  | .directory _ => True
  | .symlink | .special => False

-- Whether the entries of a directory are collected, and what is then found.
structure Collects (unicode : Unicode) (base : List String) (entries : Entries FileContent)
    : Prop where
  ok : (∀ result ∈ collectEntries unicode base entries, ∃ found, result.2 = .ok found)
    ↔ ∀ item ∈ listing base entries, Collectable unicode item.1 item.2
  mem : (∀ result ∈ collectEntries unicode base entries, ∃ found, result.2 = .ok found) →
    ∀ file, (∃ result ∈ collectEntries unicode base entries, ∃ found, result.2 = .ok found
        ∧ file ∈ found)
      ↔ ∃ path content, (path, .file content) ∈ listing base entries ∧ file = pathText path

theorem collectNode_ok {path : List String} {node : Node FileContent}
    (hsub : ∀ sub, node = .directory sub → Collects unicode path sub)
    : (∃ found, collectNode unicode path node = .ok found)
      ↔ Collectable unicode path node
        ∧ ∀ item ∈ node.contents path, Collectable unicode item.1 item.2 := by
  cases node with
  | directory sub =>
    have hcollects := hsub sub rfl
    unfold collectNode Node.contents
    rw [← hcollects.ok]
    constructor
    . rintro ⟨found, hfound⟩
      exact ⟨trivial, (inOrder_ok hfound).1⟩
    . rintro ⟨_, hall⟩
      exact inOrder_of hall
  | file content =>
    unfold collectNode Collectable Node.contents
    cases validatePortablePath unicode (pathText path) <;> simp
  | symlink =>
    unfold collectNode Collectable
    simp
  | special =>
    unfold collectNode Collectable
    simp

theorem mem_collectNode {path : List String} {node : Node FileContent}
    (hsub : ∀ sub, node = .directory sub → Collects unicode path sub) {found : List String}
    (h : collectNode unicode path node = .ok found) (file : String)
    : file ∈ found ↔ ∃ below content,
        (below, .file content) ∈ (path, node) :: node.contents path ∧ file = pathText below := by
  cases node with
  | directory sub =>
    unfold collectNode at h
    obtain ⟨hall, hmem⟩ := inOrder_ok h
    rw [hmem, (hsub sub rfl).mem hall]
    unfold Node.contents
    simp
  | file content =>
    unfold collectNode at h
    split at h
    . cases h
    . cases h
      unfold Node.contents
      simp
  | symlink => cases h
  | special => cases h

theorem collectEntries_spec {base : List String} {entries : Entries FileContent}
    : Collects unicode base entries := by
  induction entries using Entries.induct generalizing base with
  | nil =>
    constructor
    . unfold collectEntries listing
      simp
    . unfold collectEntries listing
      simp
  | cons name node rest ihSub ih =>
    have hsub : ∀ sub, node = .directory sub → Collects unicode (base ++ [name]) sub :=
      fun sub hsame => ihSub sub hsame
    have hnode := collectNode_ok hsub
    constructor
    . rw [collectEntries, listing, List.forall_mem_cons, List.forall_mem_cons,
        List.forall_mem_append, hnode, (@ih base).ok, and_assoc]
    . intro hall file
      rw [collectEntries, List.forall_mem_cons] at hall
      obtain ⟨⟨found, hfound⟩, hrest⟩ := hall
      have hmem := mem_collectNode hsub hfound file
      rw [collectEntries, listing]
      constructor
      . rintro ⟨result, hresult, found', hok, hfile⟩
        cases List.mem_cons.mp hresult with
        | inl hsame =>
          rw [hsame, hfound] at hok
          cases hok
          obtain ⟨below, content, hbelow, htext⟩ := hmem.mp hfile
          refine ⟨below, content, ?_, htext⟩
          rw [← List.cons_append]
          exact List.mem_append_left _ hbelow
        | inr hlater =>
          obtain ⟨below, content, hbelow, htext⟩ :=
            (ih.mem hrest file).mp ⟨result, hlater, found', hok, hfile⟩
          refine ⟨below, content, ?_, htext⟩
          rw [← List.cons_append]
          exact List.mem_append_right _ hbelow
      . rintro ⟨below, content, hbelow, htext⟩
        rw [← List.cons_append] at hbelow
        cases List.mem_append.mp hbelow with
        | inl hfirst =>
          exact ⟨_, List.mem_cons_self, found, hfound, hmem.mpr ⟨below, content, hfirst, htext⟩⟩
        | inr hlater =>
          obtain ⟨result, hresult, found', hok, hfile⟩ :=
            (ih.mem hrest file).mpr ⟨below, content, hlater, htext⟩
          exact ⟨result, List.mem_cons_of_mem _ hresult, found', hok, hfile⟩

theorem mem_collectFiles {entries : Entries FileContent} (hwell : FileTree.WellFormed entries)
    {files : List String} (h : collectFiles unicode entries = .ok files) (file : String)
    : file ∈ files ↔ ∃ path content, lookup entries path = some (.file content)
      ∧ file = pathText path := by
  obtain ⟨hall, hmem⟩ := inOrder_ok h
  rw [hmem, collectEntries_spec.mem hall]
  simp only [FileTree.mem_listing hwell, List.nil_append, exists_eq_left']

theorem collectFiles_of {entries : Entries FileContent} (hwell : FileTree.WellFormed entries)
    (h : ∀ path node, lookup entries path = some node → Collectable unicode path node)
    : ∃ files, collectFiles unicode entries = .ok files := by
  apply inOrder_of
  apply collectEntries_spec.ok.mpr
  rintro ⟨path, node⟩ hitem
  obtain ⟨tail, rfl, hlookup⟩ := (FileTree.mem_listing hwell).mp hitem
  exact h _ _ hlookup

end Collection

end Pboc

end Pliego
