import Pliego.Artifact.Spread
import Pliego.Artifact.Ledger

/-!
The writer's budgets and the walk's. A report within the first and beyond the second can be written and never
verified.
-/

namespace Pliego

open Bytes Text FileTree JsonText

namespace Artifact

open Router (Unicode)

variable {unicode : Unicode} {json : Json} {entries : Entries DiskFile} {report : BuildReport}
  {files : List OutputFile} {ledger : List UInt8} {receipt : ArtifactReceipt}

theorem encodeBuildReport_ok
    : encodeBuildReport unicode json report = .ok ledger
      ↔ validateReport unicode json report = .ok () ∧ ledger.length ≤ maxLedgerBytes
        ∧ ledger = json.reportPretty report ++ [10] := by
  unfold encodeBuildReport
  rw [Except.bind_unit_eq_ok]
  dsimp only
  rw [Except.bind_unit_eq_ok, ensure_ok, decide_eq_true_eq]
  constructor
  . rintro ⟨hvalid, hsize, h⟩
    cases h
    exact ⟨hvalid, hsize, rfl⟩
  . rintro ⟨hvalid, hsize, rfl⟩
    exact ⟨hvalid, hsize, rfl⟩

theorem outputs_of_validateReport (h : validateReport unicode json report = .ok ())
    : validateOutputs unicode report.receipt.outputs.files = .ok () := by
  unfold validateReport at h
  rw [Except.bind_unit_eq_ok, Except.bind_unit_eq_ok, Except.bind_eq_ok] at h
  obtain ⟨-, -, context, -, h⟩ := h
  rw [Except.bind_unit_eq_ok] at h
  obtain ⟨-, h⟩ := h
  dsimp only at h
  rw [Except.bind_unit_eq_ok] at h
  exact h.1

theorem readBuildReport_of (hjson : json.RoundTrips)
    (hencode : encodeBuildReport unicode json report = .ok ledger)
    (hledger : lookup entries [buildLedgerName] = some (.file ⟨ledger, 1⟩))
    : readBuildReport unicode json entries = .ok report := by
  obtain ⟨hvalid, hsize, rfl⟩ := encodeBuildReport_ok.mp hencode
  unfold readBuildReport readRegularBounded
  rw [hledger]
  dsimp only [bind, Except.bind]
  rw [ensure_ok.mpr (decide_eq_true hsize)]
  dsimp only
  rw [ensure_ok.mpr (decide_eq_true rfl)]
  dsimp only
  rw [hjson report]
  dsimp only
  rw [hvalid]

theorem checkFile_ok {file : OutputFile} {path : PortablePath}
    (hpath : path.Canonical unicode) (hvalue : path.value = file.path)
    : checkFile unicode entries file = .ok ()
      ↔ ∃ content, lookup entries (split '/' file.path) = some (.file content)
        ∧ content.links = 1 ∧ content.bytes.length = file.bytes
        ∧ content.bytes.length ≤ maxOutputFileBytes ∧ sha256Bytes content.bytes = file.sha256 := by
  have hparse := hpath.parse
  have hcomponents : path.components = split '/' file.path := by
    unfold PortablePath.components
    rw [hvalue]
  rw [hvalue] at hparse
  unfold checkFile evidenceForOutputRelative
  rw [hparse, ← hcomponents]
  dsimp only [bind, Except.bind]
  cases hlookup : lookup entries path.components with
  | none => simp
  | some node =>
    cases node with
    | directory sub => simp
    | symlink => simp
    | special => simp
    | file content =>
      simp only [Option.some.injEq, Node.file.injEq, exists_eq_left']
      by_cases hbytes : content.bytes.length = file.bytes
      . rw [ensure_ok.mpr (decide_eq_true hbytes)]
        dsimp only
        by_cases hlinks : content.links = 1
        . rw [ensure_ok.mpr (decide_eq_true hlinks)]
          dsimp only
          by_cases hsize : content.bytes.length ≤ maxOutputFileBytes
          . rw [ensure_ok.mpr (decide_eq_true hsize)]
            simp [hbytes, hlinks, hbytes ▸ hsize]
          . unfold ensure
            simp [hsize]
        . unfold ensure
          simp [hlinks]
      . unfold ensure
        simp [hbytes]

theorem keys_ofList_of_sorted {paths : List String} (h : paths.Pairwise (· < ·))
    : (SortedSet.ofList paths).keys = paths := by
  have hsorted := SortedMap.keys_sorted (SortedSet.ofList paths)
  have hperm : (SortedSet.ofList paths).keys.Perm paths := by
    apply (List.perm_ext_iff_of_nodup (hsorted.imp (fun hlt => ne_of_lt hlt))
      (h.imp (fun hlt => ne_of_lt hlt))).mpr
    intro path
    rw [SortedSet.mem_keys_iff, SortedSet.contains_ofList]
  exact hperm.eq_of_pairwise (fun _ _ _ _ hab hba => absurd hba (lt_asymm hab)) hsorted h

theorem collect_eq (hwell : WellFormed entries)
    : collectOutputDirectory unicode "" entries .start
        = (listing [] entries).foldlM (visitListed unicode) .start := by
  have hnames : ∀ name ∈ ([] : List String), name ≠ "" := fun _ hname => absurd hname List.not_mem_nil
  exact collectOutputDirectory_eq hwell hnames

section Published

variable {ledgerPath : PortablePath} {start : OutputNamespace} {last : OutputCheck}

theorem Publishes.visitable (h : Publishes report ledger entries)
    (haccepted : Accepted unicode report.receipt.outputs.files ledgerPath start last)
    (hunicode : unicode.KeepsSlashes)
    : ∀ item ∈ listing [] entries, Visitable unicode item := by
  intro item hitem
  have hlookup := (mem_listing_iff h.wellFormed).mp hitem
  refine ⟨?_, h.regular item hitem⟩
  have hwritten := (haccepted.covers hunicode).written
  rcases h.only _ _ hlookup with hpath | ⟨file, hfile, hpath⟩ | ⟨-, file, hfile, hfront, hne⟩
  . rw [hpath, pathText_ledger, ← haccepted.value]
    exact ⟨ledgerPath, haccepted.canonical.parse, rfl⟩
  . obtain ⟨path, hcanonical, hvalue, -⟩ := hwritten file hfile
    rw [hpath, pathText_split, ← hvalue]
    exact ⟨path, hcanonical.parse, rfl⟩
  . obtain ⟨path, hcanonical, hvalue, -⟩ := hwritten file hfile
    have hancestor : pathText item.1 ∈ ancestors path.value := by
      rw [mem_ancestors, split_pathText h.wellFormed hlookup, hvalue]
      exact ⟨hfront, hne⟩
    rw [← ancestors_eq] at hancestor
    obtain ⟨⟨key, spelling⟩, hdirectory, hspelling⟩ := List.mem_map.mp hancestor
    obtain ⟨parent, hparent, hparentValue, -⟩ := hcanonical.directory hunicode hdirectory
    rw [← hspelling, ← hparentValue]
    exact ⟨parent, hparent.parse, rfl⟩

theorem Publishes.collect (h : Publishes report ledger entries)
    (haccepted : Accepted unicode report.receipt.outputs.files ledgerPath start last)
    (hunicode : unicode.KeepsSlashes) (hfits : LayoutFits report.receipt.outputs.files)
    : ∃ layout, collectOutputDirectory unicode "" entries .start = .ok layout
        ∧ layout.files = SortedSet.ofList (outputPaths report.receipt.outputs.files)
        ∧ layout.directories = impliedDirectories (outputPaths report.receipt.outputs.files) := by
  have hledger := haccepted.ledger_not_mem hunicode
  have hnodup : (outputPaths report.receipt.outputs.files).Nodup :=
    (haccepted.sorted hunicode).imp (fun hlt => ne_of_lt hlt)
  have hfresh : ∀ {texts : List String}, ∀ text ∈ texts,
      (SortedSet.contains (.empty : SortedSet String) text) = false := fun _ _ => rfl
  have hwalk := foldlM_visitListed_of (h.visitable haccepted hunicode)
    ((h.within_iff hledger hnodup).mpr hfits)
    ⟨filterMap_texts_nodup h.wellFormed storedFile_text, hfresh⟩
    ⟨filterMap_texts_nodup h.wellFormed storedDirectory_text, hfresh⟩
  refine ⟨_, (collect_eq h.wellFormed).trans hwalk, ?_, ?_⟩
  . have hfiles := h.storedFiles hledger
    rw [hnodup.dedup] at hfiles
    exact SortedSet.ofList_eq_of_mem_iff (fun _ => hfiles.mem_iff)
  . apply SortedSet.ext_contains
    intro text
    rw [← SortedSet.mem_keys_iff, ← SortedSet.mem_keys_iff, ← h.storedDirectories.mem_iff, SortedSet.mem_keys_iff]
    exact SortedSet.contains_ofList _ text

theorem Accepted.layoutNamespace (hunicode : unicode.KeepsSlashes)
    (h : Accepted unicode files ledgerPath start last) {layout : OutputLayout}
    (hfiles : layout.files = SortedSet.ofList (outputPaths files))
    (hdirectories : layout.directories = impliedDirectories (outputPaths files))
    : validateOutputLayoutNamespace unicode layout = .ok () := by
  obtain ⟨disk, hdisk, hfollows⟩ := h.disk hunicode
  have hcovers := h.covers hunicode
  unfold validateOutputLayoutNamespace
  rw [hfiles, hdirectories, keys_ofList_of_sorted (h.sorted hunicode), hdisk]
  have hstored : ∀ directory ∈ (impliedDirectories (outputPaths files)).keys,
      ∃ parent : PortablePath, parent.Canonical unicode ∧ parent.value = directory
        ∧ disk.directories.get? parent.collisionKey = some directory
        ∧ disk.files.get? parent.collisionKey = none := by
    intro directory hdirectory
    obtain ⟨text, htext, hancestor⟩ := mem_impliedDirectories.mp hdirectory
    obtain ⟨file, hfile, rfl⟩ := List.mem_map.mp htext
    obtain ⟨path, hpath, hvalue, hkept, -⟩ := hcovers.written file hfile
    rw [← hvalue, ← ancestors_eq] at hancestor
    obtain ⟨⟨key, spelling⟩, hpair, rfl⟩ := List.mem_map.mp hancestor
    obtain ⟨parent, hparent, hparentValue, hkey⟩ := hpath.directory hunicode hpair
    have hget := hkept _ hpair
    refine ⟨parent, hparent, hparentValue, ?_, ?_⟩
    . rw [hfollows.directories, hkey]
      exact hget
    . apply hfollows.files
      apply hcovers.sound.apart
      rw [hkey, hget]
      exact Option.some_ne_none _
  have hnodup : (impliedDirectories (outputPaths files)).keys.Nodup :=
    (SortedMap.keys_sorted _).imp (fun hlt => ne_of_lt hlt)
  have hempty : ∀ key value, (.empty : SortedMap String String).get? key = some value →
      value ∉ (impliedDirectories (outputPaths files)).keys
        ∧ disk.directories.get? key = some value := fun _ _ hget => (by cases hget)
  obtain ⟨keys, hkeys⟩ := foldlM_checkDiskDirectory_of hnodup hstored hempty
  dsimp only [bind, Except.bind]
  rw [hkeys]

end Published

theorem verify_of_fits (hunicode : Normalizes unicode) (hjson : json.RoundTrips)
    (hencode : encodeBuildReport unicode json report = .ok ledger)
    (htree : Publishes report ledger entries) (hfits : LayoutFits report.receipt.outputs.files)
    : ∃ verified, verifyBuildReport unicode json (.directory entries) = .ok verified := by
  obtain ⟨hvalid, -, -⟩ := encodeBuildReport_ok.mp hencode
  obtain ⟨ledgerPath, start, last, haccepted⟩ :=
    validateOutputs_ok hunicode (outputs_of_validateReport hvalid)
  obtain ⟨layout, hcollect, hfiles, hdirectories⟩ :=
    htree.collect haccepted hunicode.keepsSlashes hfits
  have hnamespace := haccepted.layoutNamespace hunicode.keepsSlashes hfiles hdirectories
  have hfew : (impliedDirectories (outputPaths report.receipt.outputs.files)).keys.length
      ≤ maxNamespaceComponents := by
    have hentries := hfits.entries
    unfold layoutPaths at hentries
    rw [List.length_append] at hentries
    exact (show _ ≤ maxArtifactFiles by omega).trans (by decide)
  obtain ⟨expected, hexpected, hmirrors⟩ := haccepted.expected hunicode.keepsSlashes hfew
  have hlayout : collectOutputLayout unicode entries = .ok layout := by
    unfold collectOutputLayout
    rw [hcollect]
    dsimp only [bind, Except.bind]
    rw [hnamespace]
  have hcovers := haccepted.covers hunicode.keepsSlashes
  unfold verifyBuildReport
  simp only [Except.bind_eq_ok]
  refine ⟨_, report, readBuildReport_of hjson hencode htree.ledger, layout, hlayout, ⟨⟩, ?_, ⟨⟩, ?_,
    expected, hexpected, ⟨⟩, ?_, ⟨⟩, ?_, rfl⟩
  . apply Except.forM_eq_ok.mpr
    intro path hpath
    rw [ensure_ok, hfiles, SortedSet.contains_ofList]
    exact hpath
  . apply Except.forM_eq_ok.mpr
    intro path hpath
    rw [hfiles, SortedSet.mem_keys_iff, SortedSet.contains_ofList] at hpath
    rw [ensure_ok, List.contains_eq_mem, decide_eq_true_eq]
    exact hpath
  . apply Except.forM_eq_ok.mpr
    intro directory hdirectory
    rw [hdirectories, mem_impliedDirectories] at hdirectory
    obtain ⟨text, htext, hancestor⟩ := hdirectory
    obtain ⟨file, hfile, rfl⟩ := List.mem_map.mp htext
    obtain ⟨path, hpath, hvalue, hkept, -⟩ := hcovers.written file hfile
    rw [← hvalue, ← ancestors_eq] at hancestor
    obtain ⟨⟨key, spelling⟩, hpair, rfl⟩ := List.mem_map.mp hancestor
    rw [ensure_ok, hmirrors.directories]
    exact ⟨key, hkept _ hpair⟩
  . apply Except.forM_eq_ok.mpr
    intro file hfile
    obtain ⟨path, hpath, hvalue, -, hsize⟩ := hcovers.written file hfile
    obtain ⟨bytes, hlookup, hlength, hdigest⟩ := htree.outputs file hfile
    apply (checkFile_ok hpath hvalue).mpr
    exact ⟨⟨bytes, 1⟩, hlookup, rfl, hlength, hlength.trans_le hsize, hdigest⟩

structure Verification (unicode : Unicode) (json : Json) (entries : Entries DiskFile)
    (report : BuildReport) (expected : ExpectedDirectories) : Prop where
  valid : validateReport unicode json report = .ok ()
  walk : (listing [] entries).foldlM (visitListed unicode) .start
    = .ok (OutputLayout.start.after (listing [] entries))
  present : ∀ path ∈ outputPaths report.receipt.outputs.files,
    path ∈ (listing [] entries).filterMap storedFile
  declared : ∀ path ∈ (listing [] entries).filterMap storedFile,
    path ∈ outputPaths report.receipt.outputs.files
  listed : expectedOutputDirectories unicode (outputPaths report.receipt.outputs.files)
    = .ok expected
  directories : ∀ directory ∈ (listing [] entries).filterMap storedDirectory,
    expected.directories.contains directory = true
  files : ∀ file ∈ report.receipt.outputs.files, checkFile unicode entries file = .ok ()

theorem verify_ok (hwell : WellFormed entries) {verified : VerifiedBuild}
    (h : verifyBuildReport unicode json (.directory entries) = .ok verified)
    : ∃ expected, Verification unicode json entries verified.report expected := by
  unfold verifyBuildReport at h
  simp only [Except.bind_eq_ok] at h
  obtain ⟨report, hreport, layout, hlayout, ⟨⟩, hpresent, ⟨⟩, hdeclared, expected, hexpected, ⟨⟩,
    hdirectories, ⟨⟩, hfiles, h⟩ := h
  cases h
  unfold collectOutputLayout at hlayout
  rw [Except.bind_eq_ok] at hlayout
  obtain ⟨collected, hcollect, hlayout⟩ := hlayout
  rw [Except.bind_unit_eq_ok] at hlayout
  cases hlayout.2
  rw [collect_eq hwell] at hcollect
  obtain ⟨-, hafter, -⟩ := foldlM_visitListed_ok hcollect
  rw [hafter] at hcollect hpresent hdeclared hdirectories
  have hvalid : validateReport unicode json report = .ok () := by
    unfold readBuildReport at hreport
    rw [Except.bind_eq_ok] at hreport
    obtain ⟨bytes, -, hreport⟩ := hreport
    rw [Except.bind_eq_ok] at hreport
    obtain ⟨read, -, hreport⟩ := hreport
    rw [Except.bind_unit_eq_ok] at hreport
    cases hreport.2
    exact hreport.1
  refine ⟨expected, hvalid, hcollect, ?_, ?_, hexpected, ?_, Except.forM_eq_ok.mp hfiles⟩
  . intro path hpath
    have hcontains := ensure_ok.mp (Except.forM_eq_ok.mp hpresent path hpath)
    exact (SortedSet.contains_ofList _ path).mp hcontains
  . intro path hpath
    have hkey : path ∈ (OutputLayout.start.after (listing [] entries)).files.keys :=
      SortedSet.mem_keys_iff.mpr ((SortedSet.contains_ofList _ path).mpr hpath)
    have hcontains := ensure_ok.mp (Except.forM_eq_ok.mp hdeclared path hkey)
    rw [List.contains_eq_mem, decide_eq_true_eq] at hcontains
    exact hcontains
  . intro directory hdirectory
    have hkey : directory ∈ (OutputLayout.start.after (listing [] entries)).directories.keys :=
      SortedSet.mem_keys_iff.mpr ((SortedSet.contains_ofList _ directory).mpr hdirectory)
    have hcontains := ensure_ok.mp (Except.forM_eq_ok.mp hdirectories directory hkey)
    exact hcontains

theorem fits_of_verify (hunicode : Normalizes unicode)
    (hencode : encodeBuildReport unicode json report = .ok ledger)
    (htree : Publishes report ledger entries) {verified : VerifiedBuild}
    (h : verifyBuildReport unicode json (.directory entries) = .ok verified)
    : LayoutFits report.receipt.outputs.files := by
  obtain ⟨hvalid, -, -⟩ := encodeBuildReport_ok.mp hencode
  obtain ⟨ledgerPath, start, last, haccepted⟩ :=
    validateOutputs_ok hunicode (outputs_of_validateReport hvalid)
  obtain ⟨expected, hsteps⟩ := verify_ok htree.wellFormed h
  obtain ⟨-, -, hwithin⟩ := foldlM_visitListed_ok hsteps.walk
  have hnodup : (outputPaths report.receipt.outputs.files).Nodup :=
    (haccepted.sorted hunicode.keepsSlashes).imp (fun hlt => ne_of_lt hlt)
  apply (htree.within_iff (haccepted.ledger_not_mem hunicode.keepsSlashes) hnodup).mp
  exact hwithin ⟨Nat.zero_le _, Nat.zero_le _, Nat.zero_le _⟩

theorem addExpectedDirectory_inv {expected expected' : ExpectedDirectories} {stem : String}
    (h : addExpectedDirectory unicode expected stem = .ok expected') {directory : String}
    (hdirectory : expected'.directories.contains directory = true)
    : expected.directories.contains directory = true ∨ directory = stem := by
  unfold addExpectedDirectory storeExpected at h
  rw [Except.bind_eq_ok] at h
  obtain ⟨stored, hstored, h⟩ := h
  rw [Except.bind_unit_eq_ok] at h
  cases h.2
  split at hstored
  . cases hstored
    exact .inl hdirectory
  . rw [Except.bind_eq_ok] at hstored
    obtain ⟨parent, -, hstored⟩ := hstored
    dsimp only at hstored
    rw [Except.bind_unit_eq_ok] at hstored
    cases hstored.2
    rw [SortedSet.contains_extend, List.mem_singleton] at hdirectory
    exact hdirectory

theorem expected_ancestors {paths : List String} {expected : ExpectedDirectories}
    (h : expectedOutputDirectories unicode paths = .ok expected)
    : ∀ directory, expected.directories.contains directory = true →
        ∃ path ∈ paths, ∃ portable : PortablePath, PortablePath.parse unicode path = .ok portable
          ∧ directory ∈ ancestors portable.value := by
  have hstep : ∀ path ∈ paths, ∀ b b' : ExpectedDirectories,
      (∀ directory, b.directories.contains directory = true →
        ∃ path ∈ paths, ∃ portable : PortablePath, PortablePath.parse unicode path = .ok portable
          ∧ directory ∈ ancestors portable.value) →
      addExpectedPath unicode b path = .ok b' →
      ∀ directory, b'.directories.contains directory = true →
        ∃ path ∈ paths, ∃ portable : PortablePath, PortablePath.parse unicode path = .ok portable
          ∧ directory ∈ ancestors portable.value := by
    intro path hpath b b' hknown hok
    unfold addExpectedPath at hok
    rw [Except.bind_eq_ok] at hok
    obtain ⟨portable, hparse, hok⟩ := hok
    dsimp only at hok
    rw [Except.bind_unit_eq_ok] at hok
    have hinner := hok.2
    rw [ancestors_eq] at hinner
    have hadd : ∀ stem ∈ ancestors portable.value, ∀ c c' : ExpectedDirectories,
        (∀ directory, c.directories.contains directory = true →
          b.directories.contains directory = true ∨ directory ∈ ancestors portable.value) →
        addExpectedDirectory unicode c stem = .ok c' →
        ∀ directory, c'.directories.contains directory = true →
          b.directories.contains directory = true ∨ directory ∈ ancestors portable.value := by
      intro stem hstem c c' hinv hstored directory hdirectory
      cases addExpectedDirectory_inv hstored hdirectory with
      | inl hold => exact hinv directory hold
      | inr hsame => exact .inr (hsame ▸ hstem)
    intro directory hdirectory
    have hstart : ∀ directory, (ExpectedDirectories.mk b.directories
          (b.components + portable.components.length) b.prefixBytes).directories.contains
            directory = true →
        b.directories.contains directory = true ∨ directory ∈ ancestors portable.value :=
      fun _ hold => .inl hold
    cases Except.foldlM_inv hadd hstart hinner directory hdirectory with
    | inl hold => exact hknown directory hold
    | inr hnew => exact ⟨path, hpath, portable, hparse, hnew⟩
  have hstart : ∀ directory, (ExpectedDirectories.mk .empty 0 0).directories.contains directory
        = true →
      ∃ path ∈ paths, ∃ portable : PortablePath, PortablePath.parse unicode path = .ok portable
        ∧ directory ∈ ancestors portable.value :=
    fun _ hnone => absurd hnone Bool.false_ne_true
  exact Except.foldlM_inv hstep hstart h

theorem exact_of_verify (hunicode : Normalizes unicode) (hwell : WellFormed entries) {verified : VerifiedBuild}
    (h : verifyBuildReport unicode json (.directory entries) = .ok verified)
    : Exact verified.report.receipt.outputs.files entries := by
  obtain ⟨expected, hsteps⟩ := verify_ok hwell h
  obtain ⟨ledgerPath, start, last, haccepted⟩ :=
    validateOutputs_ok hunicode (outputs_of_validateReport hsteps.valid)
  have hwritten := (haccepted.covers hunicode.keepsSlashes).written
  obtain ⟨hvisitable, -, -⟩ := foldlM_visitListed_ok hsteps.walk
  have hfound : ∀ file ∈ verified.report.receipt.outputs.files, ∃ content,
      lookup entries (split '/' file.path) = some (.file content)
        ∧ content.bytes.length = file.bytes ∧ sha256Bytes content.bytes = file.sha256 := by
    intro file hfile
    obtain ⟨path, hpath, hvalue, -⟩ := hwritten file hfile
    obtain ⟨content, hlookup, -, hlength, -, hdigest⟩ :=
      (checkFile_ok hpath hvalue).mp (hsteps.files file hfile)
    exact ⟨content, hlookup, hlength, hdigest⟩
  refine ⟨?_, ?_, ?_, ?_⟩
  . intro path content hlookup
    by_cases hledger : pathText path = buildLedgerName
    . left
      rw [← split_pathText hwell hlookup, hledger]
      decide
    . right
      have hstored : pathText path ∈ (listing [] entries).filterMap storedFile := by
        rw [mem_storedFiles hwell, split_pathText hwell hlookup]
        exact ⟨hledger, content, hlookup⟩
      obtain ⟨file, hfile, hpath⟩ := List.mem_map.mp (hsteps.declared _ hstored)
      refine ⟨file, hfile, ?_⟩
      rw [hpath]
      exact split_pathText hwell hlookup
  . intro file hfile
    refine ⟨?_, hfound file hfile⟩
    intro hledger
    have htext := congrArg pathText hledger
    rw [pathText_split, pathText_ledger] at htext
    apply haccepted.ledger_not_mem hunicode.keepsSlashes
    rw [← htext]
    exact List.mem_map_of_mem hfile
  . intro path
    constructor
    . rintro ⟨sub, hlookup⟩
      refine ⟨ne_nil_of_lookup hlookup, ?_⟩
      have hstored : pathText path ∈ (listing [] entries).filterMap storedDirectory := by
        rw [mem_storedDirectories hwell, split_pathText hwell hlookup]
        exact ⟨sub, hlookup⟩
      obtain ⟨text, htext, portable, hparse, hancestor⟩ :=
        expected_ancestors hsteps.listed _ (hsteps.directories _ hstored)
      obtain ⟨file, hfile, rfl⟩ := List.mem_map.mp htext
      obtain ⟨canonical, hcanonical, hvalue, -⟩ := hwritten file hfile
      have hsame := hcanonical.parse
      rw [hvalue, hparse] at hsame
      cases hsame
      rw [hvalue, mem_ancestors, split_pathText hwell hlookup] at hancestor
      exact ⟨file, hfile, hancestor⟩
    . rintro ⟨hne, file, hfile, ⟨tail, htail⟩, hproper⟩
      obtain ⟨content, hlookup, -⟩ := hfound file hfile
      rw [← htail] at hlookup
      apply lookup_of_append hlookup hne
      rintro rfl
      rw [List.append_nil] at htail
      exact hproper htail
  . intro path node hlookup
    exact (hvisitable (path, node) ((mem_listing_iff hwell).mpr hlookup)).sort

section Samples

theorem sampleUnicode_normalizes : Normalizes Router.sampleUnicode := by
  refine ⟨Router.sampleUnicode_keepsSlashes, ?_⟩
  intro text hascii
  apply String.toList_inj.mp
  change (mapChars Router.decomposed text).toList = text.toList
  unfold mapChars
  rw [String.toList_ofList]
  have hsame : text.toList.flatMap Router.decomposed = text.toList.flatMap (fun c => [c]) := by
    apply List.flatMap_congr
    intro c hc
    unfold Router.decomposed
    rw [if_neg]
    rintro rfl
    exact absurd (hascii _ hc) (by decide)
  rw [hsame, List.flatMap_singleton']

def sampleContext : BuildContext where
  ownership := ⟨"atlas", "site"⟩
  framework := ⟨"0.1.0", "a1b2c3"⟩
  toolchain := [⟨"cargo", "1.85.0"⟩, ⟨"rustc", "1.85.0"⟩]
  configuration := []
  sources := []
  materials := []
  sourceSetSha256 := sourceSetSha256 jsonWriter [] []
  excludedPaths := []

def sampleReport (files : List OutputFile) : BuildReport := reportOf jsonWriter sampleContext files

def indexFile : OutputFile := OutputFile.new "index.html" "page" "site" []

theorem sample_facts
    : normalizeContext Router.sampleUnicode jsonWriter sampleContext = .ok sampleContext
      ∧ extent quoted 2 sampleContext.value ≤ 3000
      ∧ validateSha256 (sha256Bytes []) "output" = .ok ()
      ∧ extentItems quoted 4 ([indexFile].map OutputFile.value) ≤ 1000
      ∧ ∀ name ∈ [buildLedgerName, "index.html"],
          ('/' ∉ name.toList ∧ contains name '\\' = false ∧ isPortableComponent name = true
            ∧ isReservedComponent Router.sampleUnicode name = false)
          ∧ Router.sampleUnicode.nfc name = name ∧ Router.sampleUnicode.portableCaseKey name = name := by
  decide +kernel

theorem sampleContext_normal {sample : BuildReport}
    : normalizeContext Router.sampleUnicode (jsonOf sample) sampleContext = .ok sampleContext := by
  change normalizeContext Router.sampleUnicode jsonWriter sampleContext = .ok sampleContext
  exact sample_facts.1

theorem name_literal {name : String} (hname : name ∈ [buildLedgerName, "index.html"]) (hjoin : join '/' [name] = name)
    (hsize : (utf8 name).length ≤ maxPortablePathBytes)
    : ∃ path : PortablePath, path.Literal Router.sampleUnicode ∧ path.value = name := by
  obtain ⟨hplain, hnormal⟩ := sample_facts.2.2.2.2 name hname
  have hpath := @literal_of_parts _ Router.sampleUnicode_keepsSlashes [name] (List.cons_ne_nil _ _) (by decide : 1 ≤ 128)
    (by rw [hjoin]; exact hsize) (by rw [List.forall_mem_singleton]; exact hplain)
    (by rw [List.forall_mem_singleton]; exact hnormal)
  rw [hjoin] at hpath
  exact hpath

theorem ledger_literal
    : ∃ path : PortablePath, path.Literal Router.sampleUnicode ∧ path.value = buildLedgerName := by
  have hjoin : join '/' [buildLedgerName] = buildLedgerName := by
    rw [← split_ledger, join_split]
  exact name_literal List.mem_cons_self hjoin (by decide)

variable {contents : String → List UInt8}

theorem sampleReport_written (hspread : Spread Router.sampleUnicode files)
    (hsize : (ledgerText (sampleReport files)).length < maxLedgerBytes) (hcontents : ∀ file ∈ files,
      (contents file.path).length = file.bytes ∧ sha256Bytes (contents file.path) = file.sha256)
    : ∃ ledger entries,
        BuildReport.new Router.sampleUnicode (jsonOf (sampleReport files))
          (sampleReport files).receipt = .ok (sampleReport files)
        ∧ encodeBuildReport Router.sampleUnicode (jsonOf (sampleReport files)) (sampleReport files)
          = .ok ledger
        ∧ Publishes (sampleReport files) ledger entries := by
  have htotal : totalOf files < 2 ^ 64 := hspread.total.trans_lt (by decide)
  have hvalid : validateReport Router.sampleUnicode (jsonOf (sampleReport files))
      (sampleReport files) = .ok () :=
    validateReport_of sampleContext_normal (validateOutputs_of ledger_literal hspread) htotal
  have hparts : ∀ path ∈ outputPaths files, ∀ part ∈ split '/' path, part ≠ "" := by
    intro path hpath part hpart
    obtain ⟨file, hfile, rfl⟩ := List.mem_map.mp hpath
    obtain ⟨portable, hportable, hvalue⟩ := (hspread.sound file hfile).path
    rw [← hvalue] at hpart
    exact (hportable.canonical.plain part hpart).2.2
  obtain ⟨entries, htree⟩ := @publishes_of_spread (sampleReport files) contents
    (ledgerText (sampleReport files) ++ [10]) hspread.tops hparts hcontents
  refine ⟨_, entries, ?_, encodeBuildReport_ok.mpr ⟨hvalid, ?_, ?_⟩, htree⟩
  . unfold BuildReport.new
    dsimp only
    rw [Except.bind_unit_eq_ok]
    exact ⟨hvalid, rfl⟩
  . rw [List.length_append, List.length_singleton]
    exact hsize
  . unfold jsonOf
    dsimp only
    rw [if_pos rfl]

theorem indexFile_digest : validateSha256 (sha256Bytes []) "output" = .ok () := sample_facts.2.2.1

theorem indexFile_spread : Spread Router.sampleUnicode [indexFile] := by
  have hpath : ∃ path : PortablePath, path.Literal Router.sampleUnicode
      ∧ path.value = "index.html" := by
    have hjoin : join '/' ["index.html"] = "index.html" := by decide
    exact name_literal (List.mem_cons_of_mem _ List.mem_cons_self) hjoin (by decide)
  refine ⟨?_, List.pairwise_singleton _ _, by decide, by decide, by decide, by decide, by decide⟩
  intro file hfile
  rw [List.mem_singleton.mp hfile]
  exact ⟨hpath, by decide, by decide, indexFile_digest⟩

theorem length_sha256Bytes {bytes : List UInt8} : (utf8 (sha256Bytes bytes)).length = 64 := by
  unfold sha256Bytes
  rw [length_encodeHex, Sha2.digest_length]

theorem extent_sampleReport
    : extent quoted 0 (sampleReport files).value
      ≤ extentItems quoted 4 (files.map OutputFile.value) + (utf8 (toString files.length)).length
        + (utf8 (toString (totalOf files))).length + 4000 := by
  have hcontext : extent quoted 2 sampleContext.value ≤ 3000 := sample_facts.2.1
  have hproject : (utf8 sampleContext.ownership.projectId).length = 5 := by decide
  unfold sampleReport reportOf BuildReport.value ArtifactReceipt.value OutputSet.value
    ReplacementPolicy.value hashReceipt hashFiles count
  dsimp only [Option.map_none, Option.getD_none]
  generalize sampleContext.value = context at hcontext ⊢
  have hversions : (utf8 buildReportVersion).length = 5 ∧ (utf8 receiptVersion).length = 5
      ∧ (utf8 namespaceVersion).length = 5 := by decide
  have hnames : (utf8 "reportVersion").length = 13 ∧ (utf8 "receiptSha256").length = 13 ∧ (utf8
      "receipt").length = 7 ∧ (utf8 "receiptVersion").length = 14 ∧ (utf8
      "namespaceVersion").length = 16 ∧ (utf8 "context").length = 7 ∧ (utf8
      "replacementPolicy").length = 17 ∧ (utf8 "previousOwnership").length = 17 ∧ (utf8
      "outputs").length = 7 ∧ (utf8 "files").length = 5 ∧ (utf8 "fileCount").length = 9 ∧
      (utf8 "totalBytes").length = 10 ∧ (utf8 "sha256").length = 6 ∧ (utf8
      "requiredPreviousProjectId").length = 25 := by
    decide
  simp only [extent, extentMembers, quoted, Nat.zero_add, Nat.reduceAdd, List.length_append,
    List.length_singleton, length_sha256Bytes, hproject, hversions, hnames]
  omega

end Samples

/--
A report that can be written is verified exactly when its outputs, together with the directories they
imply, are within the budgets of the walk; and what is verified is exact.
-/
theorem written_verifies_iff (hunicode : Normalizes unicode) (hjson : json.RoundTrips)
    : (∀ receipt report ledger entries, BuildReport.new unicode json receipt = .ok report →
        encodeBuildReport unicode json report = .ok ledger → Publishes report ledger entries →
        ((∃ verified, verifyBuildReport unicode json (.directory entries) = .ok verified)
          ↔ LayoutFits report.receipt.outputs.files))
      ∧ (∀ root verified, root.WellFormed → verifyBuildReport unicode json root = .ok verified →
        ∃ entries, root = .directory entries ∧ Exact verified.report.receipt.outputs.files entries) := by
  constructor
  . intro receipt report ledger entries _ hencode htree
    constructor
    . rintro ⟨verified, hverified⟩
      exact fits_of_verify hunicode hencode htree hverified
    . intro hfits
      exact verify_of_fits hunicode hjson hencode htree hfits
  . intro root verified hwell hverified
    cases root with
    | directory entries => exact ⟨entries, rfl, exact_of_verify hunicode hwell hverified⟩
    | _ => cases hverified

theorem written_verifies_index
    : ∃ ledger entries verified, Publishes (sampleReport [indexFile]) ledger entries
      ∧ verifyBuildReport Router.sampleUnicode (jsonOf (sampleReport [indexFile]))
        (.directory entries) = .ok verified := by
  have hsize : (ledgerText (sampleReport [indexFile])).length < maxLedgerBytes := by
    have hextent := @extent_sampleReport [indexFile]
    have hitems : extentItems quoted 4 ([indexFile].map OutputFile.value) ≤ 1000 := sample_facts.2.2.2.1
    have hcount : (utf8 (toString [indexFile].length)).length + (utf8 (toString (totalOf [indexFile]))).length = 2 := by
      decide
    have hmax : maxLedgerBytes = 8 * 1024 * 1024 := rfl
    apply (length_pretty_le _ _).trans_lt
    omega
  have hcontents : ∀ file ∈ [indexFile], ([] : List UInt8).length = file.bytes
      ∧ sha256Bytes [] = file.sha256 := by
    intro file hfile
    rw [List.mem_singleton.mp hfile]
    exact ⟨rfl, rfl⟩
  have hfits : LayoutFits [indexFile] := ⟨by decide, by decide, by decide⟩
  obtain ⟨ledger, entries, hnew, hencode, htree⟩ :=
    @sampleReport_written _ (fun _ => []) indexFile_spread hsize hcontents
  obtain ⟨hwritten, -⟩ := written_verifies_iff sampleUnicode_normalizes
    (@jsonOf_roundTrips (sampleReport [indexFile]))
  obtain ⟨verified, hverified⟩ := (hwritten _ _ _ _ hnew hencode htree).mpr hfits
  exact ⟨ledger, entries, verified, htree, hverified⟩

section Deep

def deepTops : List Char :=
  ['0', '1', '2', '3', '4', '5', '6', '7', '8', '9', 'a', 'b', 'c', 'd', 'e', 'f', 'g', 'h', 'i',
    'j', 'k', 'l', 'm', 'n', 'o', 'p', 'q', 'r', 's', 't', 'u', 'v', 'w']

def plainComponent (component : String) : Bool :=
  '/' ∉ component.toList && contains component '\\' = false && isPortableComponent component
    && isReservedComponent Router.sampleUnicode component = false
    && Router.sampleUnicode.nfc component = component
    && Router.sampleUnicode.portableCaseKey component = component
    && (utf8 component).length = 1

@[irreducible]
def deepRest : List String := List.replicate 127 "d"

theorem deepRest_eq : deepRest = List.replicate 127 "d" := by
  unfold deepRest
  rfl

def deepParts (c : Char) : List String := String.ofList [c] :: deepRest

theorem length_deepParts {c : Char} : (deepParts c).length = 128 := by
  unfold deepParts
  rw [deepRest_eq, List.length_cons, List.length_replicate]

theorem mem_deepParts {c : Char} {part : String} (h : part ∈ deepParts c)
    : part = String.ofList [c] ∨ part = "d" := by
  unfold deepParts at h
  rw [deepRest_eq] at h
  cases List.mem_cons.mp h with
  | inl h => exact .inl h
  | inr h => exact .inr (List.mem_replicate.mp h).2

def deepFile (c : Char) : OutputFile := OutputFile.new (join '/' (deepParts c)) "page" "site" []

def deepFiles : List OutputFile := deepTops.map deepFile

theorem deepParts_plain {c : Char} (hc : c ∈ deepTops) {part : String} (h : part ∈ deepParts c)
    : plainComponent part = true := by
  have hplain : ("d" :: deepTops.map (fun c => String.ofList [c])).all plainComponent = true := by
    decide +kernel
  apply List.all_eq_true.mp hplain
  cases mem_deepParts h with
  | inl hfirst =>
    rw [hfirst]
    exact List.mem_cons_of_mem _ (List.mem_map_of_mem hc)
  | inr hrest =>
    rw [hrest]
    exact List.mem_cons_self

theorem plainComponent_iff {component : String}
    : plainComponent component = true
      ↔ ('/' ∉ component.toList ∧ contains component '\\' = false
          ∧ isPortableComponent component = true
          ∧ isReservedComponent Router.sampleUnicode component = false)
        ∧ (Router.sampleUnicode.nfc component = component
          ∧ Router.sampleUnicode.portableCaseKey component = component)
        ∧ (utf8 component).length = 1 := by
  unfold plainComponent
  simp only [Bool.and_eq_true, decide_eq_true_eq, and_assoc]

theorem split_deepParts {c : Char} (hc : c ∈ deepTops)
    : split '/' (join '/' (deepParts c)) = deepParts c := by
  apply split_join _ (List.cons_ne_nil _ _)
  intro part hpart
  exact (plainComponent_iff.mp (deepParts_plain hc hpart)).1.1

theorem length_deepPath {c : Char} (hc : c ∈ deepTops)
    : (utf8 (join '/' (deepParts c))).length = 255 := by
  have hlength := @length_utf8_join '/' (deepParts c) (by decide) (List.cons_ne_nil _ _)
  have hsum : ((deepParts c).map (fun part => (utf8 part).length + 1)).sum = 128 * 2 := by
    have hparts : (deepParts c).map (fun part => (utf8 part).length + 1)
        = (deepParts c).map (fun _ => 2) := by
      apply List.map_congr_left
      intro part hpart
      rw [(plainComponent_iff.mp (deepParts_plain hc hpart)).2.2]
    rw [hparts, List.map_const', List.sum_replicate, length_deepParts, smul_eq_mul]
  omega

theorem deepFile_sound {c : Char} (hc : c ∈ deepTops) : (deepFile c).Sound Router.sampleUnicode := by
  have hnamed : (isBlank "page" || isBlank "site") = false := by decide
  refine ⟨?_, hnamed, Nat.zero_le _, indexFile_digest⟩
  apply @literal_of_parts _ Router.sampleUnicode_keepsSlashes (deepParts c) (List.cons_ne_nil _ _)
  . exact length_deepParts.trans_le (by decide)
  . exact (length_deepPath hc).trans_le (by decide)
  . intro part hpart
    exact (plainComponent_iff.mp (deepParts_plain hc hpart)).1
  . intro part hpart
    exact (plainComponent_iff.mp (deepParts_plain hc hpart)).2.1

theorem top_deepPath {c : Char} (hc : c ∈ deepTops)
    : top (join '/' (deepParts c)) = String.ofList [c] := by
  unfold top
  rw [split_deepParts hc]
  rfl

theorem deepPath_lt {a b : Char} (h : a < b) : join '/' (deepParts a) < join '/' (deepParts b) := by
  have hchars : ∀ c, (join '/' (deepParts c)).toList
      = c :: '/' :: (join '/' (List.replicate 127 "d")).toList := by
    intro c
    unfold deepParts
    rw [deepRest_eq]
    generalize 126 = n
    rw [List.replicate_succ, join_cons_cons, String.toList_append, String.toList_append, String.toList_ofList]
    rfl
  rw [String.lt_iff_toList_lt, hchars, hchars]
  exact List.Lex.rel h

theorem deepPaths : outputPaths deepFiles = deepTops.map (fun c => join '/' (deepParts c)) := by
  unfold outputPaths deepFiles
  rw [List.map_map]
  rfl

theorem deepPaths_tops
    : (outputPaths deepFiles).map top = deepTops.map (fun c => String.ofList [c]) := by
  rw [deepPaths, List.map_map]
  exact List.map_congr_left (fun c hc => top_deepPath hc)

theorem componentCount_deepPaths : componentCount (outputPaths deepFiles) = 33 * 128 := by
  have hcount : (outputPaths deepFiles).map (fun path => (split '/' path).length)
      = deepTops.map (fun _ => 128) := by
    rw [deepPaths, List.map_map]
    apply List.map_congr_left
    intro c hc
    rw [Function.comp_apply, split_deepParts hc, length_deepParts]
  unfold componentCount
  rw [hcount, List.map_const', List.sum_replicate, smul_eq_mul]
  rfl

theorem totalOf_deepFiles : totalOf deepFiles = 0 := by
  unfold totalOf deepFiles
  rw [List.map_map]
  exact List.sum_eq_zero (fun size hsize => by
    obtain ⟨c, -, rfl⟩ := List.mem_map.mp hsize
    rfl)

theorem length_deepFiles : deepFiles.length = 33 := by
  unfold deepFiles
  rw [List.length_map]
  rfl

theorem deepFiles_spread : Spread Router.sampleUnicode deepFiles := by
  refine ⟨?_, ?_, ?_, ?_, ?_, ?_, ?_⟩
  . intro file hfile
    obtain ⟨c, hc, rfl⟩ := List.mem_map.mp hfile
    exact deepFile_sound hc
  . rw [deepPaths, List.pairwise_map]
    have hsorted : deepTops.Pairwise (· < ·) := by decide
    exact hsorted.imp deepPath_lt
  . rw [deepPaths_tops]
    have hledger : ∀ c, buildLedgerName ≠ String.ofList [c] := by
      intro c hsame
      have hlength := congrArg (fun text => text.toList.length) hsame
      rw [String.toList_ofList] at hlength
      cases hlength
    have hnodup : deepTops.Nodup := by decide
    rw [List.nodup_cons]
    constructor
    . rw [List.mem_map]
      rintro ⟨c, -, hsame⟩
      exact hledger c hsame.symm
    . exact hnodup.map (fun a b hsame => List.head_eq_of_cons_eq (String.ofList_injective hsame))
  . rw [length_deepFiles]
    decide
  . rw [totalOf_deepFiles]
    exact Nat.zero_le _
  . rw [componentCount_deepPaths]
    decide
  . have hbytes : ((outputPaths deepFiles).map ancestorBytes).sum
        ≤ (deepTops.map (fun _ => 128 * (2 * 255))).sum := by
      rw [deepPaths, List.map_map]
      apply List.sum_le_sum
      intro c hc
      have hle := @ancestorBytes_le (join '/' (deepParts c))
      rw [length_deepPath hc, split_deepParts hc, length_deepParts] at hle
      exact hle
    rw [List.map_const', List.sum_replicate, smul_eq_mul] at hbytes
    exact hbytes.trans (by decide)

theorem deepFiles_not_fit : ¬ LayoutFits deepFiles := by
  intro hfits
  have hcomponents := hfits.components
  have himplied : componentCount (impliedDirectories (outputPaths deepFiles)).keys
      = 33 * 8128 := by
    have hnodup : ((outputPaths deepFiles).map top).Nodup :=
      (List.nodup_cons.mp deepFiles_spread.tops).2
    have hsum : ((List.range 127).map (· + 1)).sum = 8128 := by simp [List.range_succ]
    have hancestors : deepTops.map ((fun path => componentCount (ancestors path))
        ∘ fun c => join '/' (deepParts c)) = deepTops.map (fun _ => 8128) := by
      apply List.map_congr_left
      intro c hc
      rw [Function.comp_apply, componentCount_ancestors, split_deepParts hc, length_deepParts, hsum]
    rw [componentCount_implied hnodup, deepPaths, List.map_map, hancestors, List.map_const',
      List.sum_replicate, smul_eq_mul]
    rfl
  unfold layoutPaths at hcomponents
  rw [componentCount_append, componentCount_deepPaths, himplied] at hcomponents
  exact absurd hcomponents (by decide)


theorem length_deepLedger : (ledgerText (sampleReport deepFiles)).length < maxLedgerBytes := by
  have hfiles : extentItems quoted 4 (deepFiles.map OutputFile.value) ≤ deepFiles.length * 1000 := by
    apply extentItems_map_le
    intro file hfile
    obtain ⟨c, hc, rfl⟩ := List.mem_map.mp hfile
    have hpath : (utf8 (deepFile c).path).length = 255 := length_deepPath hc
    have hdigest : (utf8 (deepFile c).sha256).length = 64 := length_sha256Bytes
    have hkind : (utf8 (deepFile c).kind).length = 4 := by
      change (utf8 "page").length = 4
      decide
    have hproducer : (utf8 (deepFile c).producer).length = 4 := by
      change (utf8 "site").length = 4
      decide
    have hbytes : (utf8 (toString (deepFile c).bytes)).length = 1 := by
      change (utf8 (toString 0)).length = 1
      decide
    rw [extent_file, hpath, hkind, hproducer, hbytes, hdigest]
    decide
  have hsizes : (utf8 (toString 33)).length = 2 ∧ (utf8 (toString 0)).length = 1 := by decide
  have hextent := @extent_sampleReport deepFiles
  rw [length_deepFiles, totalOf_deepFiles, hsizes.1, hsizes.2] at hextent
  rw [length_deepFiles] at hfiles
  calc (ledgerText (sampleReport deepFiles)).length
      ≤ extent quoted 0 (sampleReport deepFiles).value := length_pretty_le _ _
    _ ≤ extentItems quoted 4 (deepFiles.map OutputFile.value) + 2 + 1 + 4000 := hextent
    _ ≤ 33 * 1000 + 2 + 1 + 4000 :=
      Nat.add_le_add_right (Nat.add_le_add_right (Nat.add_le_add_right hfiles 2) 1) 4000
    _ < maxLedgerBytes := by decide

/--
Thirty-three outputs of 128 components are written, and no directory that publishes them is verified.
-/
theorem deepFiles_not_verified
    : ∃ ledger entries,
        BuildReport.new Router.sampleUnicode (jsonOf (sampleReport deepFiles))
          (sampleReport deepFiles).receipt = .ok (sampleReport deepFiles)
        ∧ encodeBuildReport Router.sampleUnicode (jsonOf (sampleReport deepFiles))
          (sampleReport deepFiles) = .ok ledger
        ∧ Publishes (sampleReport deepFiles) ledger entries
        ∧ ∀ verified, verifyBuildReport Router.sampleUnicode (jsonOf (sampleReport deepFiles))
          (.directory entries) ≠ .ok verified := by
  have hcontents : ∀ file ∈ deepFiles, ([] : List UInt8).length = file.bytes
      ∧ sha256Bytes [] = file.sha256 := by
    intro file hfile
    obtain ⟨c, -, rfl⟩ := List.mem_map.mp hfile
    exact ⟨rfl, rfl⟩
  obtain ⟨ledger, entries, hnew, hencode, htree⟩ :=
    @sampleReport_written _ (fun _ => []) deepFiles_spread length_deepLedger hcontents
  refine ⟨ledger, entries, hnew, hencode, htree, ?_⟩
  intro verified hverified
  exact deepFiles_not_fit (fits_of_verify sampleUnicode_normalizes hencode htree hverified)

end Deep

end Artifact

end Pliego
