import Pliego.Artifact.Layout
import Pliego.Artifact.Namespace

/-!
What verification accepts: exactly the declared files and the directories they lie in.
-/

namespace Pliego

open Bytes Text FileTree

namespace Artifact

open Router (Unicode)

-- What NFC is relied on for.
structure Normalizes (unicode : Unicode) : Prop where
  keepsSlashes : unicode.KeepsSlashes
  ascii : ∀ text, (∀ c ∈ text.toList, c.toNat < 128) → unicode.nfc text = text

variable {unicode : Unicode} {json : Json} {entries : Entries DiskFile} {report : BuildReport}

def ancestors (path : String) : List String :=
  (List.range ((split '/' path).length - 1)).map (fun i => join '/' ((split '/' path).take (i + 1)))

def impliedDirectories (paths : List String) : SortedSet String :=
  SortedSet.ofList (paths.flatMap ancestors)

def outputPaths (files : List OutputFile) : List String := files.map OutputFile.path

def layoutPaths (files : List OutputFile) : List String :=
  outputPaths files ++ (impliedDirectories (outputPaths files)).keys

-- The budgets of the walk, over the outputs and the directories they imply, with the ledger.
structure LayoutFits (files : List OutputFile) : Prop where
  entries : (layoutPaths files).length + 1 ≤ maxArtifactFiles
  components : componentCount (layoutPaths files) ≤ maxNamespaceComponents
  pathBytes : byteCount (layoutPaths files) ≤ maxNamespacePrefixBytes

-- A directory with the ledger and the declared outputs, and nothing else.
structure Publishes (report : BuildReport) (ledger : List UInt8) (entries : Entries DiskFile)
    : Prop where
  wellFormed : WellFormed entries
  ledger : lookup entries [buildLedgerName] = some (.file ⟨ledger, 1⟩)
  outputs : ∀ file ∈ report.receipt.outputs.files, ∃ bytes,
    lookup entries (split '/' file.path) = some (.file ⟨bytes, 1⟩)
      ∧ bytes.length = file.bytes ∧ sha256Bytes bytes = file.sha256
  only : ∀ path node, lookup entries path = some node →
    path = [buildLedgerName]
      ∨ (∃ file ∈ report.receipt.outputs.files, path = split '/' file.path)
      ∨ (∃ sub, node = .directory sub) ∧ ∃ file ∈ report.receipt.outputs.files,
          path <+: split '/' file.path ∧ path ≠ split '/' file.path

-- A tree that holds exactly what the outputs declare, beside its ledger.
structure Exact (files : List OutputFile) (entries : Entries DiskFile) : Prop where
  declared : ∀ path content, lookup entries path = some (.file content) →
    path = [buildLedgerName] ∨ ∃ file ∈ files, split '/' file.path = path
  present : ∀ file ∈ files, split '/' file.path ≠ [buildLedgerName]
    ∧ ∃ content, lookup entries (split '/' file.path) = some (.file content)
      ∧ content.bytes.length = file.bytes ∧ sha256Bytes content.bytes = file.sha256
  directories : ∀ path, (∃ sub, lookup entries path = some (.directory sub))
    ↔ path ≠ [] ∧ ∃ file ∈ files, path <+: split '/' file.path ∧ path ≠ split '/' file.path
  regular : ∀ path node, lookup entries path = some node →
    (∃ sub, node = .directory sub) ∨ ∃ content, node = .file content

section Ancestors

theorem mem_ancestors {path directory : String}
    : directory ∈ ancestors path ↔ split '/' directory <+: split '/' path
        ∧ split '/' directory ≠ split '/' path := by
  unfold ancestors
  rw [List.mem_map]
  constructor
  . rintro ⟨i, hi, rfl⟩
    rw [List.mem_range] at hi
    have hne : (split '/' path).take (i + 1) ≠ [] := by
      intro hnil
      have hlength := congrArg List.length hnil
      rw [List.length_take, List.length_nil] at hlength
      omega
    have hsplit : split '/' (join '/' ((split '/' path).take (i + 1)))
        = (split '/' path).take (i + 1) :=
      split_join (fun part hpart => not_mem_of_mem_split (List.mem_of_mem_take hpart)) hne
    rw [hsplit]
    refine ⟨List.take_prefix _ _, ?_⟩
    intro hsame
    have hlength := congrArg List.length hsame
    rw [List.length_take] at hlength
    omega
  . rintro ⟨hfront, hne⟩
    have hlength := hfront.length_le
    have hpos : 0 < (split '/' directory).length := List.length_pos_iff.mpr split_ne_nil
    have hlt : (split '/' directory).length < (split '/' path).length :=
      lt_of_le_of_ne hlength (fun h => hne (hfront.eq_of_length h))
    refine ⟨(split '/' directory).length - 1, List.mem_range.mpr (by omega), ?_⟩
    rw [Nat.sub_add_cancel hpos, ← List.prefix_iff_eq_take.mp hfront, join_split]

theorem ancestors_eq {path : PortablePath} : path.directories.map Prod.snd = ancestors path.value := by
  unfold PortablePath.directories ancestors
  rw [List.map_map]
  rfl

theorem mem_impliedDirectories {paths : List String} {directory : String}
    : directory ∈ (impliedDirectories paths).keys ↔ ∃ path ∈ paths, directory ∈ ancestors path := by
  unfold impliedDirectories
  rw [SortedSet.mem_keys_iff, SortedSet.contains_ofList, List.mem_flatMap]

end Ancestors

section Writer

variable {check check' : OutputCheck} {file : OutputFile} {files : List OutputFile}

theorem insertStr_ok {space : OutputNamespace} {path owner : String} {inserted : PortablePath × OutputNamespace}
    : space.insertStr unicode path owner = .ok inserted
      ↔ PortablePath.parse unicode path = .ok inserted.1
        ∧ space.insert inserted.1 owner = .ok inserted.2 := by
  unfold OutputNamespace.insertStr
  rw [Except.bind_eq_ok]
  constructor
  . rintro ⟨portable, hparse, h⟩
    rw [Except.bind_eq_ok] at h
    obtain ⟨next, hnext, h⟩ := h
    cases h
    exact ⟨hparse, hnext⟩
  . rintro ⟨hparse, hinsert⟩
    refine ⟨_, hparse, ?_⟩
    rw [Except.bind_eq_ok]
    exact ⟨_, hinsert, rfl⟩

structure Written (unicode : Unicode) (space space' : OutputNamespace) (file : OutputFile)
    (path : PortablePath) : Prop where
  canonical : path.Canonical unicode
  value : path.value = file.path
  inserted : space.insert path file.producer = .ok space'
  size : file.bytes ≤ maxOutputFileBytes

theorem checkOutput_ok (hunicode : unicode.KeepsSlashes) (h : checkOutput unicode check file = .ok check')
    : (∃ path, Written unicode check.paths.space check'.paths.space file path)
      ∧ (∀ previous ∈ check.paths.previous, previous < file.path)
      ∧ check'.paths.previous = some file.path := by
  unfold checkOutput PathCheck.step at h
  rw [Except.bind_eq_ok] at h
  obtain ⟨paths, hpaths, h⟩ := h
  rw [Except.bind_unit_eq_ok, ensure_ok, Bool.not_eq_true', Except.bind_eq_ok] at hpaths
  obtain ⟨hordered, ⟨path, space⟩, hinsert, hpaths⟩ := hpaths
  rw [Except.bind_unit_eq_ok, ensure_ok, decide_eq_true_eq] at hpaths
  obtain ⟨hvalue, hpaths⟩ := hpaths
  obtain ⟨hparse, hinserted⟩ := insertStr_ok.mp hinsert
  simp only [Except.bind_unit_eq_ok, ensure_ok, decide_eq_true_eq] at h
  obtain ⟨-, hsize, -, -, h⟩ := h
  cases hpaths
  cases h
  refine ⟨⟨path, PortablePath.canonical_of_parse hunicode hparse hvalue, hvalue, hinserted, hsize⟩,
    ?_, rfl⟩
  intro previous hprevious
  rw [hprevious, Option.any_some, decide_eq_false_iff_not, not_le] at hordered
  exact hordered

structure Covers (unicode : Unicode) (space : OutputNamespace) (files : List OutputFile) : Prop where
  sound : space.Sound unicode
  written : ∀ file ∈ files, ∃ path : PortablePath, path.Canonical unicode ∧ path.value = file.path
    ∧ (∀ directory ∈ path.directories, space.directories.get? directory.1 = some directory.2)
    ∧ file.bytes ≤ maxOutputFileBytes

theorem keeps_file {space space' : OutputNamespace} (hunicode : unicode.KeepsSlashes)
    (hsound : space.Sound unicode) {path : PortablePath} (hpath : path.Canonical unicode)
    {owner : String} (h : space.insert path owner = .ok space') {key : String}
    (hkey : space'.files.get? key = none)
    : space.files.get? key = none := by
  obtain ⟨-, -, mid, hmid, -, rfl⟩ := OutputNamespace.insert_ok.mp h
  obtain ⟨-, hextends, -⟩ :=
    hsound.addDirectories (OutputNamespace.keyed_directories hunicode hpath) hmid
  dsimp only at hkey
  rw [SortedMap.get?_insert] at hkey
  split at hkey
  . cases hkey
  . rw [← hextends.files]
    exact hkey

theorem foldlM_checkOutput_ok (hunicode : unicode.KeepsSlashes) (hsound : check.paths.space.Sound unicode)
    (h : files.foldlM (checkOutput unicode) check = .ok check')
    : Covers unicode check'.paths.space files
      ∧ (∀ key spelling, check.paths.space.directories.get? key = some spelling →
          check'.paths.space.directories.get? key = some spelling)
      ∧ (∀ file ∈ files, ∀ path : PortablePath, path.Canonical unicode → path.value = file.path →
          check.paths.space.files.get? path.collisionKey = none)
      ∧ (outputPaths files).Pairwise (· < ·)
      ∧ (∀ previous ∈ check.paths.previous, ∀ path ∈ outputPaths files, previous < path) := by
  induction files generalizing check with
  | nil =>
    cases h
    exact ⟨⟨hsound, fun _ h => absurd h List.not_mem_nil⟩, fun _ _ h => h,
      fun _ h => absurd h List.not_mem_nil, List.Pairwise.nil, fun _ _ _ h =>
        absurd h List.not_mem_nil⟩
  | cons file files ih =>
    rw [List.foldlM_cons, Except.bind_eq_ok] at h
    obtain ⟨next, hnext, h⟩ := h
    obtain ⟨⟨path, hpath⟩, hordered, hprevious⟩ := checkOutput_ok hunicode hnext
    obtain ⟨hnextSound, hkept, hstored⟩ := hsound.insert hunicode hpath.canonical hpath.inserted
    obtain ⟨hcovers, hlater, hfresh, hsorted, hbelow⟩ := ih hnextSound h
    have hfirst : ∀ other ∈ outputPaths files, file.path < other :=
      hbelow file.path hprevious
    refine ⟨⟨hcovers.sound, List.forall_mem_cons.mpr ⟨?_, hcovers.written⟩⟩, ?_, ?_, ?_, ?_⟩
    . exact ⟨path, hpath.canonical, hpath.value,
        fun directory hdirectory => hlater _ _ (hstored directory hdirectory), hpath.size⟩
    . exact fun key spelling hget => hlater key spelling (hkept key spelling hget)
    . rw [List.forall_mem_cons]
      constructor
      . intro other hother hvalue
        have hsame : other = path := by
          have hparse := hother.parse
          rw [hvalue, ← hpath.value, hpath.canonical.parse] at hparse
          exact (Except.ok.inj hparse).symm
        rw [hsame]
        exact (OutputNamespace.insert_ok.mp hpath.inserted).2.1
      . intro later hmem other hother hvalue
        exact keeps_file hunicode hsound hpath.canonical hpath.inserted
          (hfresh later hmem other hother hvalue)
    . exact List.pairwise_cons.mpr ⟨hfirst, hsorted⟩
    . intro previous hmem other hother
      cases List.mem_cons.mp hother with
      | inl h => exact h ▸ hordered previous hmem
      | inr h => exact (hordered previous hmem).trans (hfirst other h)

end Writer

end Artifact

end Pliego
