import Pliego.Artifact.Exact

/-!
Verification of the directory of an accepted report, and what a verified directory holds.
-/

namespace Pliego

open Bytes Text FileTree

namespace Artifact

open Router (Unicode)

variable {unicode : Unicode} {json : Json} {entries : Entries DiskFile} {report : BuildReport}
  {files : List OutputFile} {ledger : List UInt8}

section Accepted

-- The writer's check of its outputs, from the namespace that holds the ledger only.
structure Accepted (unicode : Unicode) (files : List OutputFile) (ledger : PortablePath)
    (start : OutputNamespace) (last : OutputCheck) : Prop where
  canonical : ledger.Canonical unicode
  value : ledger.value = buildLedgerName
  inserted : OutputNamespace.new.insert ledger "framework ledger" = .ok start
  checked : files.foldlM (checkOutput unicode) ⟨⟨start, none⟩, 0⟩ = .ok last

variable {ledgerPath : PortablePath} {start : OutputNamespace} {last : OutputCheck}

theorem validateOutputs_ok (hunicode : Normalizes unicode) (h : validateOutputs unicode files = .ok ())
    : ∃ ledgerPath start last, Accepted unicode files ledgerPath start last := by
  unfold validateOutputs at h
  rw [Except.bind_unit_eq_ok, Except.bind_eq_ok] at h
  obtain ⟨-, ⟨ledgerPath, start⟩, hinsert, h⟩ := h
  rw [Except.bind_eq_ok] at h
  obtain ⟨last, hlast, -⟩ := h
  obtain ⟨hparse, hinserted⟩ := insertStr_ok.mp hinsert
  have hvalue : ledgerPath.value = buildLedgerName := by
    obtain ⟨-, -, -, -, hpath⟩ := PortablePath.parse_ok.mp hparse
    have hascii : buildLedgerName.toList.all (fun c => c.toNat < 128) = true := by decide
    calc ledgerPath.value = unicode.nfc buildLedgerName := congrArg PortablePath.value hpath
      _ = buildLedgerName := hunicode.ascii _ (fun c hc =>
        of_decide_eq_true (List.all_eq_true.mp hascii c hc))
  have hcanonical := PortablePath.canonical_of_parse hunicode.keepsSlashes hparse hvalue
  exact ⟨ledgerPath, start, last, hcanonical, hvalue, hinserted, hlast⟩

theorem Accepted.ledgerOnly (h : Accepted unicode files ledgerPath start last)
    : start.directories = .empty ∧ start.prefixBytes = 0
      ∧ start.files.get? ledgerPath.collisionKey ≠ none := by
  obtain ⟨-, -, mid, hmid, -, rfl⟩ := OutputNamespace.insert_ok.mp h.inserted
  have hnone : ledgerPath.directories = [] := by
    have hcomponents : ledgerPath.components = [buildLedgerName] := by
      unfold PortablePath.components
      rw [h.value]
      decide
    unfold PortablePath.directories
    rw [hcomponents]
    rfl
  rw [hnone] at hmid
  cases hmid
  refine ⟨rfl, rfl, ?_⟩
  dsimp only
  rw [SortedMap.get?_insert, if_pos rfl]
  exact Option.some_ne_none _

section

variable (hunicode : unicode.KeepsSlashes)

include hunicode

theorem Accepted.sound (h : Accepted unicode files ledgerPath start last)
    : start.Sound unicode :=
  (OutputNamespace.sound_new.insert hunicode h.canonical h.inserted).1

theorem Accepted.covers (h : Accepted unicode files ledgerPath start last)
    : Covers unicode last.paths.space files :=
  (foldlM_checkOutput_ok hunicode (h.sound hunicode) h.checked).1

theorem Accepted.sorted (h : Accepted unicode files ledgerPath start last)
    : (outputPaths files).Pairwise (· < ·) :=
  (foldlM_checkOutput_ok hunicode (h.sound hunicode) h.checked).2.2.2.1

theorem Accepted.ledger_not_mem (h : Accepted unicode files ledgerPath start last)
    : buildLedgerName ∉ outputPaths files := by
  intro hmem
  obtain ⟨file, hfile, hpath⟩ := List.mem_map.mp hmem
  obtain ⟨-, -, hfresh, -, -⟩ := foldlM_checkOutput_ok hunicode (h.sound hunicode) h.checked
  exact h.ledgerOnly.2.2 (hfresh file hfile ledgerPath h.canonical (h.value.trans hpath.symm))

theorem Accepted.disk (h : Accepted unicode files ledgerPath start last)
    : ∃ disk, (outputPaths files).foldlM (insertDiskOutput unicode) .new = .ok disk
        ∧ last.paths.space.Follows disk := by
  obtain ⟨hdirectories, hfront, -⟩ := h.ledgerOnly
  have hfollows : start.Follows .new :=
    ⟨hdirectories.symm, hfront.symm, Nat.zero_le _, fun _ _ => rfl⟩
  have hstep : ∀ file ∈ files, ∀ check other check', check.paths.space.Follows other →
      checkOutput unicode check file = .ok check' →
      ∃ other', insertDiskOutput unicode other file.path = .ok other'
        ∧ check'.paths.space.Follows other' := by
    intro file _ check other check' hrel hok
    obtain ⟨⟨path, hpath⟩, -, -⟩ := checkOutput_ok hunicode hok
    have hinsert : ∃ other', other.insert path "disk output" = .ok other'
        ∧ check'.paths.space.Follows other' := hrel.insert hpath.inserted
    obtain ⟨other', hother, hnext⟩ := hinsert
    refine ⟨other', ?_, hnext⟩
    unfold insertDiskOutput
    rw [Except.bind_eq_ok]
    refine ⟨(path, other'), insertStr_ok.mpr ⟨?_, hother⟩, rfl⟩
    rw [← hpath.value]
    exact hpath.canonical.parse
  unfold outputPaths
  rw [List.foldlM_map]
  exact Except.foldlM_sim hstep hfollows h.checked

theorem Accepted.expected (h : Accepted unicode files ledgerPath start last)
    (hfew : (impliedDirectories (outputPaths files)).keys.length ≤ maxNamespaceComponents)
    : ∃ expected, expectedOutputDirectories unicode (outputPaths files) = .ok expected
        ∧ Mirrors (impliedDirectories (outputPaths files)).keys last.paths.space expected := by
  obtain ⟨hdirectories, hfront, -⟩ := h.ledgerOnly
  let all := (impliedDirectories (outputPaths files)).keys
  have hstart : Mirrors all start ⟨.empty, 0, 0⟩ := by
    refine ⟨?_, hfront.symm, fun _ h => absurd h Bool.false_ne_true⟩
    intro spelling
    rw [hdirectories]
    simp
  have hstep : ∀ file ∈ files, ∀ check expected check',
      Mirrors all check.paths.space expected ∧ check.paths.space.Sound unicode
        ∧ expected.components ≤ check.paths.space.components →
      checkOutput unicode check file = .ok check' →
      ∃ expected', addExpectedPath unicode expected file.path = .ok expected'
        ∧ Mirrors all check'.paths.space expected' ∧ check'.paths.space.Sound unicode
        ∧ expected'.components ≤ check'.paths.space.components := by
    intro file hfile check expected check' ⟨hmirrors, hsound, hcomponents⟩ hok
    obtain ⟨⟨path, hpath⟩, -, -⟩ := checkOutput_ok hunicode hok
    have hlisted : ∀ directory ∈ path.directories, directory.2 ∈ all := by
      intro directory hdirectory
      apply mem_impliedDirectories.mpr
      refine ⟨file.path, List.mem_map_of_mem hfile, ?_⟩
      rw [← hpath.value, ← ancestors_eq]
      exact List.mem_map_of_mem hdirectory
    obtain ⟨expected', hexpected, hnext, hcount⟩ := hmirrors.addPath hunicode hsound hfew
      hcomponents hpath.canonical hlisted hpath.inserted
    rw [← hpath.value]
    exact ⟨expected', hexpected, hnext,
      (hsound.insert hunicode hpath.canonical hpath.inserted).1, hcount⟩
  unfold expectedOutputDirectories outputPaths
  rw [List.foldlM_map]
  obtain ⟨expected, hexpected, hmirrors, -⟩ := Except.foldlM_sim hstep
    ⟨hstart, h.sound hunicode, Nat.zero_le _⟩ h.checked
  exact ⟨expected, hexpected, hmirrors⟩

end

theorem foldlM_checkDiskDirectory_of {disk : OutputNamespace} {directories : List String}
    (hnodup : directories.Nodup)
    (hstored : ∀ directory ∈ directories, ∃ parent : PortablePath, parent.Canonical unicode
      ∧ parent.value = directory ∧ disk.directories.get? parent.collisionKey = some directory
      ∧ disk.files.get? parent.collisionKey = none)
    {keys : SortedMap String String}
    (hkeys : ∀ key value, keys.get? key = some value →
      value ∉ directories ∧ disk.directories.get? key = some value)
    : ∃ keys', directories.foldlM (checkDiskDirectory unicode disk) keys = .ok keys' := by
  induction directories generalizing keys with
  | nil => exact ⟨keys, rfl⟩
  | cons directory rest ih =>
    obtain ⟨hfresh, hrest⟩ := List.nodup_cons.mp hnodup
    obtain ⟨⟨parent, hparent, hvalue, hdirectory, hfile⟩, hlater⟩ := List.forall_mem_cons.mp hstored
    have hnone : keys.get? parent.collisionKey = none := by
      cases hget : keys.get? parent.collisionKey with
      | none => rfl
      | some value =>
        obtain ⟨hnew, hsame⟩ := hkeys _ _ hget
        rw [hdirectory] at hsame
        cases hsame
        exact absurd List.mem_cons_self hnew
    have hstep : checkDiskDirectory unicode disk keys directory
        = .ok (keys.insert parent.collisionKey parent.value) := by
      have hparse := hparent.parse
      rw [hvalue] at hparse
      unfold checkDiskDirectory
      rw [hparse]
      dsimp only [bind, Except.bind]
      rw [hnone, hfile, hdirectory]
      dsimp only [Option.getD_some]
      rw [ensure_ok.mpr (decide_eq_true hvalue.symm)]
    have hnext : ∀ key value, (keys.insert parent.collisionKey parent.value).get? key = some value →
        value ∉ rest ∧ disk.directories.get? key = some value := by
      intro key value hget
      rw [SortedMap.get?_insert] at hget
      split at hget
      . next hsame =>
        cases hget
        rw [hsame, hvalue]
        exact ⟨hfresh, hdirectory⟩
      . obtain ⟨hnew, hsame⟩ := hkeys _ _ hget
        exact ⟨fun hmem => hnew (List.mem_cons_of_mem _ hmem), hsame⟩
    obtain ⟨last, hlast⟩ := ih hrest hlater hnext
    refine ⟨last, ?_⟩
    rw [List.foldlM_cons, hstep]
    exact hlast

end Accepted

section Tree

theorem pathText_split {path : String} : pathText (split '/' path) = path := join_split

section

variable (hwell : WellFormed entries)

include hwell

theorem split_pathText {path : List String} {node : Node DiskFile} (h : lookup entries path = some node)
    : split '/' (pathText path) = path :=
  split_join (lookup_names hwell h) (ne_nil_of_lookup h)

theorem mem_listing_iff {path : List String} {node : Node DiskFile}
    : (path, node) ∈ listing [] entries ↔ lookup entries path = some node := by
  rw [mem_listing hwell]
  simp

theorem mem_storedFiles {text : String}
    : text ∈ (listing [] entries).filterMap storedFile
      ↔ text ≠ buildLedgerName ∧ ∃ content, lookup entries (split '/' text) = some (.file content) := by
  rw [List.mem_filterMap]
  constructor
  . rintro ⟨⟨path, node⟩, hitem, htext⟩
    have hlookup := (mem_listing_iff hwell).mp hitem
    cases node with
    | file content =>
      unfold storedFile at htext
      dsimp only at htext
      split at htext
      . cases htext
      . next hne =>
        cases htext
        rw [split_pathText hwell hlookup]
        exact ⟨hne, content, hlookup⟩
    | _ => cases htext
  . rintro ⟨hne, content, hlookup⟩
    refine ⟨(split '/' text, .file content), (mem_listing_iff hwell).mpr hlookup, ?_⟩
    unfold storedFile
    dsimp only
    rw [pathText_split, if_neg hne]

theorem mem_storedDirectories {text : String}
    : text ∈ (listing [] entries).filterMap storedDirectory
      ↔ ∃ sub, lookup entries (split '/' text) = some (.directory sub) := by
  rw [List.mem_filterMap]
  constructor
  . rintro ⟨⟨path, node⟩, hitem, htext⟩
    have hlookup := (mem_listing_iff hwell).mp hitem
    cases node with
    | directory sub =>
      cases htext
      rw [split_pathText hwell hlookup]
      exact ⟨sub, hlookup⟩
    | _ => cases htext
  . rintro ⟨sub, hlookup⟩
    refine ⟨(split '/' text, .directory sub), (mem_listing_iff hwell).mpr hlookup, ?_⟩
    unfold storedDirectory
    dsimp only
    rw [pathText_split]

end

theorem storedFile_text (item : List String × Node DiskFile)
    : ∀ text ∈ storedFile item, text = pathText item.1 := by
  intro text htext
  unfold storedFile at htext
  split at htext
  . split at htext
    . cases htext
    . cases htext
      rfl
  . cases htext

theorem storedDirectory_text (item : List String × Node DiskFile)
    : ∀ text ∈ storedDirectory item, text = pathText item.1 := by
  intro text htext
  unfold storedDirectory at htext
  split at htext
  . cases htext
    rfl
  . cases htext

theorem pathText_ledger : pathText [buildLedgerName] = buildLedgerName := by
  decide

theorem Publishes.storedFiles (h : Publishes report ledger entries)
    (hledger : buildLedgerName ∉ outputPaths report.receipt.outputs.files)
    : ((listing [] entries).filterMap storedFile).Perm
        (outputPaths report.receipt.outputs.files).dedup := by
  apply (List.perm_ext_iff_of_nodup (filterMap_texts_nodup h.wellFormed storedFile_text)
    (List.nodup_dedup _)).mpr
  intro text
  rw [mem_storedFiles h.wellFormed, List.mem_dedup]
  constructor
  . rintro ⟨hne, content, hlookup⟩
    rcases h.only _ _ hlookup with hpath | ⟨file, hfile, hpath⟩ | ⟨⟨sub, hsub⟩, -⟩
    . have htext := congrArg pathText hpath
      rw [pathText_split, pathText_ledger] at htext
      exact absurd htext hne
    . have htext := split_inj hpath
      rw [htext]
      exact List.mem_map_of_mem hfile
    . cases hsub
  . intro hmem
    obtain ⟨file, hfile, rfl⟩ := List.mem_map.mp hmem
    obtain ⟨bytes, hlookup, -⟩ := h.outputs file hfile
    refine ⟨?_, _, hlookup⟩
    intro hsame
    exact hledger (hsame ▸ hmem)

theorem Publishes.storedDirectories (h : Publishes report ledger entries)
    : ((listing [] entries).filterMap storedDirectory).Perm
        (impliedDirectories (outputPaths report.receipt.outputs.files)).keys := by
  have hkeys : (impliedDirectories (outputPaths report.receipt.outputs.files)).keys.Nodup :=
    (SortedMap.keys_sorted _).imp (fun hlt => ne_of_lt hlt)
  apply (List.perm_ext_iff_of_nodup (filterMap_texts_nodup h.wellFormed storedDirectory_text)
    hkeys).mpr
  intro text
  rw [mem_storedDirectories h.wellFormed, mem_impliedDirectories]
  constructor
  . rintro ⟨sub, hlookup⟩
    rcases h.only _ _ hlookup with hpath | ⟨file, hfile, hpath⟩ | ⟨-, file, hfile, hfront, hne⟩
    . rw [hpath, h.ledger] at hlookup
      cases hlookup
    . obtain ⟨bytes, hbytes, -⟩ := h.outputs file hfile
      rw [hpath, hbytes] at hlookup
      cases hlookup
    . exact ⟨file.path, List.mem_map_of_mem hfile, mem_ancestors.mpr ⟨hfront, hne⟩⟩
  . rintro ⟨path, hpath, hancestor⟩
    obtain ⟨file, hfile, rfl⟩ := List.mem_map.mp hpath
    obtain ⟨hfront, hne⟩ := mem_ancestors.mp hancestor
    obtain ⟨bytes, hbytes, -⟩ := h.outputs file hfile
    obtain ⟨tail, htail⟩ := hfront
    rw [← htail] at hbytes
    apply lookup_of_append hbytes split_ne_nil
    rintro rfl
    rw [List.append_nil] at htail
    exact hne htail

def isLedger (item : List String × Node DiskFile) : Bool :=
  match item.2 with
  | .file _ => pathText item.1 = buildLedgerName
  | _ => false

theorem length_listed {items : Listed}
    (h : ∀ item ∈ items, (∃ sub, item.2 = .directory sub) ∨ ∃ content, item.2 = .file content)
    : items.length = (items.filterMap storedFile).length + (items.filterMap storedDirectory).length
        + (items.filter isLedger).length := by
  induction items with
  | nil => rfl
  | cons item rest ih =>
    obtain ⟨hitem, hrest⟩ := List.forall_mem_cons.mp h
    have ih := ih hrest
    obtain ⟨path, node⟩ := item
    rcases hitem with ⟨sub, rfl⟩ | ⟨content, rfl⟩
    . have hfile : storedFile (path, Node.directory sub) = none := rfl
      have hdirectory : storedDirectory (path, Node.directory sub) = some (pathText path) := rfl
      have hledger : isLedger (path, Node.directory sub) = false := rfl
      rw [List.filterMap_cons_none hfile, List.filterMap_cons_some hdirectory,
        List.filter_cons_of_neg (by simp [hledger]), List.length_cons, List.length_cons, ih]
      omega
    . have hdirectory : storedDirectory (path, Node.file content) = none := rfl
      by_cases hsame : pathText path = buildLedgerName
      . have hfile : storedFile (path, Node.file content) = none := if_pos hsame
        have hledger : isLedger (path, Node.file content) = true := decide_eq_true hsame
        rw [List.filterMap_cons_none hfile, List.filterMap_cons_none hdirectory,
          List.filter_cons_of_pos hledger, List.length_cons, List.length_cons, ih]
        omega
      . have hfile : storedFile (path, Node.file content) = some (pathText path) := if_neg hsame
        have hledger : isLedger (path, Node.file content) = false := decide_eq_false hsame
        rw [List.filterMap_cons_some hfile, List.filterMap_cons_none hdirectory,
          List.filter_cons_of_neg (by simp [hledger]), List.length_cons, List.length_cons, ih]
        omega

theorem Publishes.one_ledger (h : Publishes report ledger entries)
    : ((listing [] entries).filter isLedger).length = 1 := by
  have hledger : ([buildLedgerName], Node.file ⟨ledger, 1⟩) ∈ (listing [] entries).filter isLedger := by
    rw [List.mem_filter]
    refine ⟨(mem_listing_iff h.wellFormed).mpr h.ledger, ?_⟩
    unfold isLedger
    exact decide_eq_true pathText_ledger
  have hsame : ∀ item ∈ (listing [] entries).filter isLedger, item.1 = [buildLedgerName] := by
    intro item hitem
    obtain ⟨hmem, htext⟩ := List.mem_filter.mp hitem
    have hlookup := (mem_listing_iff h.wellFormed).mp hmem
    unfold isLedger at htext
    split at htext
    . have htext := of_decide_eq_true htext
      rw [← split_pathText h.wellFormed hlookup, htext]
      decide
    . cases htext
  have hnodup : (((listing [] entries).filter isLedger).map Prod.fst).Nodup :=
    (listing_nodup h.wellFormed).sublist ((List.filter_sublist).map _)
  have hle : (((listing [] entries).filter isLedger).map Prod.fst).length
      ≤ [[buildLedgerName]].length := by
    apply (hnodup.subperm _).length_le
    intro path hpath
    obtain ⟨item, hitem, rfl⟩ := List.mem_map.mp hpath
    rw [hsame item hitem]
    exact List.mem_singleton_self _
  rw [List.length_map] at hle
  exact le_antisymm hle (List.length_pos_of_mem hledger)

theorem Publishes.regular (h : Publishes report ledger entries)
    : ∀ item ∈ listing [] entries, (∃ sub, item.2 = .directory sub) ∨ ∃ content, item.2 = .file content := by
  intro item hitem
  have hlookup := (mem_listing_iff h.wellFormed).mp hitem
  rcases h.only _ _ hlookup with hpath | ⟨file, hfile, hpath⟩ | ⟨hsub, -⟩
  . rw [hpath, h.ledger] at hlookup
    exact .inr ⟨_, (Option.some.inj hlookup).symm⟩
  . obtain ⟨bytes, hbytes, -⟩ := h.outputs file hfile
    rw [hpath, hbytes] at hlookup
    exact .inr ⟨_, (Option.some.inj hlookup).symm⟩
  . exact .inl hsub

theorem componentCount_perm {as bs : List String} (h : as.Perm bs)
    : componentCount as = componentCount bs :=
  (h.map _).sum_eq

theorem byteCount_perm {as bs : List String} (h : as.Perm bs) : byteCount as = byteCount bs :=
  (h.map _).sum_eq

theorem Publishes.within_iff (h : Publishes report ledger entries)
    (hledger : buildLedgerName ∉ outputPaths report.receipt.outputs.files)
    (hnodup : (outputPaths report.receipt.outputs.files).Nodup)
    : (OutputLayout.start.after (listing [] entries)).Within
      ↔ LayoutFits report.receipt.outputs.files := by
  have hfiles := h.storedFiles hledger
  rw [hnodup.dedup] at hfiles
  have hdirectories := h.storedDirectories
  have hstored : (stored (listing [] entries)).Perm (layoutPaths report.receipt.outputs.files) :=
    hfiles.append hdirectories
  have hlength : (listing [] entries).length = (layoutPaths report.receipt.outputs.files).length + 1 := by
    rw [length_listed h.regular, h.one_ledger, ← hstored.length_eq]
    unfold stored
    rw [List.length_append]
  constructor
  . intro hwithin
    have hentries := hwithin.entries
    have hcomponents := hwithin.components
    have hbytes := hwithin.pathBytes
    unfold OutputLayout.after OutputLayout.start at hentries hcomponents hbytes
    dsimp only at hentries hcomponents hbytes
    rw [Nat.zero_add] at hentries hcomponents hbytes
    refine ⟨?_, ?_, ?_⟩
    . rw [← hlength]
      exact hentries
    . rw [← componentCount_perm hstored]
      exact hcomponents
    . rw [← byteCount_perm hstored]
      exact hbytes
  . intro hfits
    unfold OutputLayout.after OutputLayout.start
    refine ⟨?_, ?_, ?_⟩
    . dsimp only
      rw [Nat.zero_add, hlength]
      exact hfits.entries
    . dsimp only
      rw [Nat.zero_add, componentCount_perm hstored]
      exact hfits.components
    . dsimp only
      rw [Nat.zero_add, byteCount_perm hstored]
      exact hfits.pathBytes

end Tree

end Artifact

end Pliego
