import Pliego.Artifact.Verified

/-!
Outputs below distinct top directories.
-/

namespace Pliego

open Bytes Text FileTree

namespace Artifact

open Router (Unicode)

variable {unicode : Unicode} {json : Json} {report : BuildReport} {space space' : OutputNamespace}
  {path : PortablePath} {owner : String} {tops : List String}

def top (text : String) : String := (split '/' text).headD text

theorem split_ledger : split '/' buildLedgerName = [buildLedgerName] := by
  decide

section Tops

variable {text directory : String}

theorem top_of_front {text' : String} (h : split '/' text <+: split '/' text') : top text = top text' := by
  unfold top
  obtain ⟨rest, hrest⟩ := h
  cases hparts : split '/' text with
  | nil => exact absurd hparts split_ne_nil
  | cons first parts =>
    rw [hparts] at hrest
    rw [← hrest]
    rfl

theorem top_of_ancestor (h : directory ∈ ancestors text) : top directory = top text :=
  top_of_front (mem_ancestors.mp h).1

theorem split_ancestor {i : Nat} (hi : i + 1 < (split '/' text).length)
    : split '/' (join '/' ((split '/' text).take (i + 1))) = (split '/' text).take (i + 1) := by
  apply split_join (fun part hpart => not_mem_of_mem_split (List.mem_of_mem_take hpart))
  intro hnil
  have hlength := congrArg List.length hnil
  rw [List.length_take, List.length_nil] at hlength
  omega

theorem ancestors_nodup : (ancestors text).Nodup := by
  unfold ancestors
  apply List.Nodup.map_on _ List.nodup_range
  intro i hi j hj hsame
  rw [List.mem_range] at hi hj
  have hlength := congrArg (List.length ∘ split '/') hsame
  rw [Function.comp_apply, Function.comp_apply, split_ancestor (by omega), split_ancestor (by omega), List.length_take, List.length_take]
    at hlength
  omega

theorem componentCount_ancestors
    : componentCount (ancestors text)
      = ((List.range ((split '/' text).length - 1)).map (· + 1)).sum := by
  unfold componentCount ancestors
  rw [List.map_map]
  apply congrArg List.sum
  apply List.map_congr_left
  intro i hi
  rw [List.mem_range] at hi
  rw [Function.comp_apply, split_ancestor (by omega), List.length_take]
  omega

theorem length_ancestor_le (h : directory ∈ ancestors text)
    : (utf8 directory).length ≤ (utf8 text).length := by
  obtain ⟨hfront, -⟩ := mem_ancestors.mp h
  have hlength : ∀ value, (utf8 value).length + 1
      = ((split '/' value).map (fun part => (utf8 part).length + 1)).sum := by
    intro value
    rw [← length_utf8_join (c := '/') (by decide) split_ne_nil, join_split]
  have hdirectory := hlength directory
  have htext := hlength text
  have hle : ((split '/' directory).map (fun part => (utf8 part).length + 1)).sum
      ≤ ((split '/' text).map (fun part => (utf8 part).length + 1)).sum :=
    List.Sublist.sum_le_sum (hfront.sublist.map _) (fun _ _ => Nat.zero_le _)
  omega

end Tops

def directoryBytes (directories : List (String × String)) : Nat :=
  (directories.map (fun directory => (utf8 directory.1).length + (utf8 directory.2).length)).sum

namespace OutputNamespace

def Below (space : OutputNamespace) (tops : List String) : Prop :=
  ∀ key, space.files.get? key ≠ none ∨ space.directories.get? key ≠ none → top key ∈ tops

theorem foldlM_addDirectory_of {directories : List (String × String)} (hnodup : (directories.map Prod.fst).Nodup)
    (hfresh : ∀ directory ∈ directories,
      space.files.get? directory.1 = none ∧ space.directories.get? directory.1 = none)
    (hroom : space.prefixBytes + directoryBytes directories ≤ maxNamespacePrefixBytes)
    : ∃ space', directories.foldlM (addDirectory path) space = .ok space'
      ∧ space'.files = space.files
      ∧ space'.prefixBytes = space.prefixBytes + directoryBytes directories
      ∧ ∀ key, space'.directories.get? key ≠ none →
          space.directories.get? key ≠ none ∨ key ∈ directories.map Prod.fst := by
  induction directories generalizing space with
  | nil => exact ⟨space, rfl, rfl, rfl, fun _ h => .inl h⟩
  | cons directory rest ih =>
    rw [List.map_cons, List.nodup_cons] at hnodup
    obtain ⟨⟨hfile, hnone⟩, hrest⟩ := List.forall_mem_cons.mp hfresh
    have hbytes : directoryBytes (directory :: rest)
        = (utf8 directory.1).length + (utf8 directory.2).length + directoryBytes rest := by
      unfold directoryBytes
      rw [List.map_cons, List.sum_cons]
    have hfront : (space.withDirectory directory).prefixBytes
        = space.prefixBytes + (utf8 directory.1).length + (utf8 directory.2).length := rfl
    have hget : ∀ key, (space.withDirectory directory).directories.get? key
        = if key = directory.1 then some directory.2 else space.directories.get? key := by
      intro key
      exact SortedMap.get?_insert _ _ _
    have hstep : addDirectory path space directory = .ok (space.withDirectory directory) :=
      addDirectory_ok.mpr ⟨hfile, .inr ⟨hnone, by omega, rfl⟩⟩
    have hlater : ∀ other ∈ rest, (space.withDirectory directory).files.get? other.1 = none
        ∧ (space.withDirectory directory).directories.get? other.1 = none := by
      intro other hother
      refine ⟨(hrest other hother).1, ?_⟩
      rw [hget, if_neg]
      . exact (hrest other hother).2
      . intro hsame
        exact hnodup.1 (hsame ▸ List.mem_map_of_mem hother)
    obtain ⟨last, hlast, hfiles, hbytes', hkeys⟩ := ih hnodup.2 hlater (by omega)
    refine ⟨last, ?_, hfiles, by omega, ?_⟩
    . rw [List.foldlM_cons, hstep]
      exact hlast
    . intro key hkey
      cases hkeys key hkey with
      | inr hmem => exact .inr (List.mem_cons_of_mem _ hmem)
      | inl hstored =>
        rw [hget] at hstored
        split at hstored
        . next hsame => exact .inr (hsame ▸ List.mem_cons_self)
        . exact .inl hstored

end OutputNamespace

structure PortablePath.Literal (unicode : Unicode) (path : PortablePath) : Prop where
  canonical : path.Canonical unicode
  keyed : path.componentKeys = path.components

section Literal

variable (hpath : path.Literal unicode)

include hpath

theorem PortablePath.Literal.key : path.collisionKey = path.value := by
  rw [hpath.canonical.key, hpath.keyed]
  unfold components
  rw [join_split]

theorem PortablePath.Literal.directories
    : path.directories = (ancestors path.value).map (fun directory => (directory, directory)) := by
  unfold PortablePath.directories ancestors
  rw [hpath.keyed, List.map_map]
  rfl

theorem OutputNamespace.insert_of (hbelow : space.Below tops) (htop : top path.value ∉ tops)
    (hcomponents : space.components + path.components.length ≤ maxNamespaceComponents)
    (hroom : space.prefixBytes + directoryBytes path.directories ≤ maxNamespacePrefixBytes)
    : ∃ space', space.insert path owner = .ok space' ∧ space'.Below (top path.value :: tops)
      ∧ space'.components = space.components + path.components.length
      ∧ space'.prefixBytes = space.prefixBytes + directoryBytes path.directories := by
  have hfresh : ∀ key, top key = top path.value →
      space.files.get? key = none ∧ space.directories.get? key = none := by
    intro key hkey
    constructor
    . by_contra hstored
      exact htop (hkey ▸ hbelow key (.inl hstored))
    . by_contra hstored
      exact htop (hkey ▸ hbelow key (.inr hstored))
  have hkeys : path.directories.map Prod.fst = ancestors path.value := by
    rw [hpath.directories, List.map_map]
    exact List.map_id _
  have hnodup : (path.directories.map Prod.fst).Nodup := by
    rw [hkeys]
    exact ancestors_nodup
  have hdirectories : ∀ directory ∈ path.directories,
      space.files.get? directory.1 = none ∧ space.directories.get? directory.1 = none := by
    intro directory hdirectory
    apply hfresh
    apply top_of_ancestor
    rw [← hkeys]
    exact List.mem_map_of_mem hdirectory
  obtain ⟨mid, hmid, hfiles, hbytes, hstored⟩ :=
    @foldlM_addDirectory_of _ path _ hnodup hdirectories hroom
  rw [hkeys] at hstored
  have hnone : mid.directories.get? path.collisionKey = none := by
    by_contra hsome
    rw [hpath.key] at hsome
    cases hstored _ hsome with
    | inl hold => exact hold (hfresh _ rfl).2
    | inr hancestor => exact (mem_ancestors.mp hancestor).2 rfl
  have hcount : path.componentKeys.length = path.components.length := by
    rw [hpath.keyed]
  refine ⟨_, OutputNamespace.insert_ok.mpr ⟨by omega, ?_, mid, hmid, hnone, rfl⟩, ?_, ?_, hbytes⟩
  . rw [hpath.key]
    exact (hfresh _ rfl).1
  . intro key hkey
    dsimp only at hkey
    rw [SortedMap.get?_insert, hpath.key, hfiles] at hkey
    rcases hkey with hfile | hdirectory
    . split at hfile
      . next hsame => exact hsame ▸ List.mem_cons_self
      . exact List.mem_cons_of_mem _ (hbelow key (.inl hfile))
    . cases hstored key hdirectory with
      | inl hold => exact List.mem_cons_of_mem _ (hbelow key (.inr hold))
      | inr hancestor => exact top_of_ancestor hancestor ▸ List.mem_cons_self
  . rw [← hcount]

end Literal

theorem literal_of_parts (hunicode : unicode.KeepsSlashes) {parts : List String} (hne : parts ≠ [])
    (hcount : parts.length ≤ maxPathComponents) (hsize : (utf8 (join '/' parts)).length ≤ maxPortablePathBytes)
    (hparts : ∀ part ∈ parts, '/' ∉ part.toList ∧ contains part '\\' = false
      ∧ isPortableComponent part = true ∧ isReservedComponent unicode part = false)
    (hkept : ∀ part ∈ parts, unicode.nfc part = part ∧ unicode.portableCaseKey part = part)
    : ∃ path : PortablePath, path.Literal unicode ∧ path.value = join '/' parts := by
  have hplain : ∀ part ∈ parts, '/' ∉ part.toList ∧ part ≠ "" :=
    fun part hpart => ⟨(hparts part hpart).1, isPortableComponent_ne (hparts part hpart).2.2.1⟩
  have hsplit : split '/' (join '/' parts) = parts :=
    split_join (fun part hpart => (hplain part hpart).1) hne
  have hnormal : unicode.nfc (join '/' parts) = join '/' parts := by
    apply @split_inj '/'
    rw [hunicode, hsplit]
    calc parts.map unicode.nfc
        = parts.map id := List.map_congr_left (fun part hpart => (hkept part hpart).1)
      _ = parts := List.map_id _
  have hends := join_ends hne hplain
  have hparse : PortablePath.parse unicode (join '/' parts)
      = .ok ⟨join '/' parts, join '/' (parts.map unicode.portableCaseKey),
          parts.map unicode.portableCaseKey⟩ := by
    rw [PortablePath.parse_ok, hnormal, hsplit]
    refine ⟨⟨?_, hsize, hends.1, hends.2, ?_⟩, hsize, hcount,
      fun part hpart => (hparts part hpart).2.2, rfl⟩
    . intro hempty
      have hfirst : "" ∈ parts := by
        rw [← hsplit, hempty]
        decide
      exact (hplain _ hfirst).2 rfl
    . exact contains_join (by decide) (fun part hpart => (hparts part hpart).2.1)
  refine ⟨_, ⟨PortablePath.canonical_of_parse hunicode hparse rfl, ?_⟩, rfl⟩
  unfold PortablePath.components
  rw [hsplit]
  calc parts.map unicode.portableCaseKey
      = parts.map id := List.map_congr_left (fun part hpart => (hkept part hpart).2)
    _ = parts := List.map_id _

def ancestorBytes (text : String) : Nat :=
  ((ancestors text).map (fun directory => 2 * (utf8 directory).length)).sum

theorem ancestorBytes_le {text : String}
    : ancestorBytes text ≤ (split '/' text).length * (2 * (utf8 text).length) := by
  have hlength : (ancestors text).length ≤ (split '/' text).length := by
    unfold ancestors
    rw [List.length_map, List.length_range]
    omega
  calc ancestorBytes text
      ≤ ((ancestors text).map (fun _ => 2 * (utf8 text).length)).sum := by
        apply List.sum_le_sum
        intro directory hdirectory
        exact Nat.mul_le_mul_left 2 (length_ancestor_le hdirectory)
    _ = (ancestors text).length * (2 * (utf8 text).length) := by
        rw [List.map_const', List.sum_replicate, smul_eq_mul]
    _ ≤ (split '/' text).length * (2 * (utf8 text).length) := Nat.mul_le_mul_right _ hlength

theorem componentCount_implied {paths : List String} (htops : (paths.map top).Nodup)
    : componentCount (impliedDirectories paths).keys
      = (paths.map (fun path => componentCount (ancestors path))).sum := by
  have hnodup : (paths.flatMap ancestors).Nodup := by
    rw [List.nodup_flatMap]
    refine ⟨fun _ _ => ancestors_nodup, ?_⟩
    apply (List.pairwise_map.mp htops).imp
    intro path path' hne directory hdirectory hdirectory'
    exact hne ((top_of_ancestor hdirectory).symm.trans (top_of_ancestor hdirectory'))
  have hkeys : (impliedDirectories paths).keys.Nodup :=
    (SortedMap.keys_sorted _).imp (fun hlt => ne_of_lt hlt)
  have hperm : (impliedDirectories paths).keys.Perm (paths.flatMap ancestors) := by
    apply (List.perm_ext_iff_of_nodup hkeys hnodup).mpr
    intro directory
    rw [mem_impliedDirectories, List.mem_flatMap]
  rw [componentCount_perm hperm]
  unfold componentCount
  rw [List.map_flatMap, List.flatMap_def, List.sum_flatten, List.map_map]
  rfl

structure OutputFile.Sound (unicode : Unicode) (file : OutputFile) : Prop where
  path : ∃ path : PortablePath, path.Literal unicode ∧ path.value = file.path
  named : (isBlank file.kind || isBlank file.producer) = false
  size : file.bytes ≤ maxOutputFileBytes
  digest : validateSha256 file.sha256 "output" = .ok ()

-- Outputs in order, each below a top of its own, within the budgets of the writer.
structure Spread (unicode : Unicode) (files : List OutputFile) : Prop where
  sound : ∀ file ∈ files, file.Sound unicode
  sorted : (outputPaths files).Pairwise (· < ·)
  tops : (buildLedgerName :: (outputPaths files).map top).Nodup
  count : files.length ≤ maxArtifactFiles
  total : totalOf files ≤ maxOutputTotalBytes
  components : 1 + componentCount (outputPaths files) ≤ maxNamespaceComponents
  ancestorBytes : ((outputPaths files).map Artifact.ancestorBytes).sum ≤ maxNamespacePrefixBytes

section Accept

variable {check : OutputCheck} {file : OutputFile} {files : List OutputFile}

theorem checkOutput_of (hfile : file.Sound unicode) (hbelow : check.paths.space.Below tops)
    (hordered : ∀ previous ∈ check.paths.previous, previous < file.path) (htop : top file.path ∉ tops)
    (hcomponents : check.paths.space.components + (split '/' file.path).length
      ≤ maxNamespaceComponents)
    (hroom : check.paths.space.prefixBytes + ancestorBytes file.path ≤ maxNamespacePrefixBytes)
    (htotal : check.totalBytes + file.bytes ≤ maxOutputTotalBytes)
    : ∃ check', checkOutput unicode check file = .ok check'
      ∧ check'.paths.space.Below (top file.path :: tops) ∧ check'.paths.previous = some file.path
      ∧ check'.paths.space.components
        = check.paths.space.components + (split '/' file.path).length
      ∧ check'.paths.space.prefixBytes = check.paths.space.prefixBytes + ancestorBytes file.path
      ∧ check'.totalBytes = check.totalBytes + file.bytes := by
  obtain ⟨path, hpath, hvalue⟩ := hfile.path
  have hcount : path.components = split '/' file.path := by
    unfold PortablePath.components
    rw [hvalue]
  have hbytes : directoryBytes path.directories = ancestorBytes file.path := by
    unfold directoryBytes ancestorBytes
    rw [hpath.directories, hvalue, List.map_map]
    apply congrArg List.sum
    apply List.map_congr_left
    intro directory _
    exact (Nat.two_mul _).symm
  rw [← hcount] at hcomponents ⊢
  rw [← hbytes] at hroom ⊢
  rw [← hvalue] at htop
  obtain ⟨space, hspace, hnext, hnextComponents, hnextBytes⟩ :=
    @OutputNamespace.insert_of _ _ _ file.producer _ hpath hbelow htop hcomponents hroom
  have hparse := hpath.canonical.parse
  rw [hvalue] at hnext hparse
  refine ⟨⟨⟨space, some file.path⟩, check.totalBytes + file.bytes⟩, ?_, hnext, rfl,
    hnextComponents, hnextBytes, rfl⟩
  have hprevious : check.paths.previous.any (fun previous => decide (file.path ≤ previous))
      = false := by
    rw [Option.any_eq_false]
    intro previous hprevious
    exact decide_eq_false (not_le.mpr (hordered previous hprevious))
  unfold checkOutput PathCheck.step OutputNamespace.insertStr
  simp only [Except.bind_eq_ok]
  refine ⟨⟨space, some file.path⟩, ⟨⟨⟩, ?_, (path, space), ⟨path, hparse, space, hspace, rfl⟩,
    ⟨⟩, ?_, rfl⟩, ⟨⟩, ?_, ⟨⟩, ?_, ⟨⟩, ?_, ⟨⟩, hfile.digest, rfl⟩
  . rw [ensure_ok, hprevious]
    rfl
  . rw [ensure_ok, decide_eq_true_eq]
    exact hvalue
  . rw [ensure_ok, hfile.named]
    rfl
  . rw [ensure_ok, decide_eq_true_eq]
    exact hfile.size
  . rw [ensure_ok, decide_eq_true_eq]
    exact htotal

theorem foldlM_checkOutput_of (hfiles : ∀ file ∈ files, file.Sound unicode)
    (hsorted : (outputPaths files).Pairwise (· < ·)) (hbelow : check.paths.space.Below tops)
    (hordered : ∀ previous ∈ check.paths.previous, ∀ path ∈ outputPaths files, previous < path)
    (htops : (tops ++ (outputPaths files).map top).Nodup)
    (hcomponents : check.paths.space.components + componentCount (outputPaths files)
      ≤ maxNamespaceComponents)
    (hroom : check.paths.space.prefixBytes + ((outputPaths files).map ancestorBytes).sum
      ≤ maxNamespacePrefixBytes)
    (htotal : check.totalBytes + totalOf files ≤ maxOutputTotalBytes)
    : ∃ check', files.foldlM (checkOutput unicode) check = .ok check' := by
  induction files generalizing check tops with
  | nil => exact ⟨check, rfl⟩
  | cons file files ih =>
    obtain ⟨hfile, hrest⟩ := List.forall_mem_cons.mp hfiles
    unfold outputPaths at hsorted hordered htops hcomponents hroom
    rw [List.map_cons] at hsorted hordered htops hcomponents hroom
    obtain ⟨hfirst, hsortedRest⟩ := List.pairwise_cons.mp hsorted
    have hcount : componentCount (file.path :: files.map OutputFile.path)
        = (split '/' file.path).length + componentCount (files.map OutputFile.path) := by
      unfold componentCount
      rw [List.map_cons, List.sum_cons]
    have hsum : totalOf (file :: files) = file.bytes + totalOf files := by
      unfold totalOf
      rw [List.map_cons, List.sum_cons]
    rw [List.map_cons, List.sum_cons] at hroom
    rw [List.map_cons] at htops
    have hmoved : (top file.path :: tops ++ (files.map OutputFile.path).map top).Nodup := by
      rw [List.cons_append]
      exact (List.perm_middle.nodup_iff).mp htops
    have htop : top file.path ∉ tops := by
      intro hmem
      rw [List.cons_append, List.nodup_cons] at hmoved
      exact hmoved.1 (List.mem_append_left _ hmem)
    obtain ⟨next, hnext, hnextBelow, hprevious, hnextComponents, hnextBytes, hnextTotal⟩ :=
      checkOutput_of hfile hbelow
        (fun previous hmem => hordered previous hmem _ List.mem_cons_self) htop (by omega)
        (by omega) (by omega)
    have hnextOrdered : ∀ previous ∈ next.paths.previous, ∀ path ∈ outputPaths files,
        previous < path := by
      intro previous hmem path hpath
      rw [hprevious] at hmem
      cases hmem
      exact hfirst path hpath
    obtain ⟨last, hlast⟩ := ih hrest hsortedRest hnextBelow hnextOrdered hmoved
      (by unfold outputPaths; omega) (by unfold outputPaths; omega) (by omega)
    refine ⟨last, ?_⟩
    rw [List.foldlM_cons, hnext]
    exact hlast

theorem validateOutputs_of (hledger : ∃ path : PortablePath, path.Literal unicode
      ∧ path.value = buildLedgerName)
    (h : Spread unicode files) : validateOutputs unicode files = .ok () := by
  obtain ⟨path, hpath, hvalue⟩ := hledger
  have hcomponents : path.components = [buildLedgerName] := by
    unfold PortablePath.components
    rw [hvalue, split_ledger]
  have hdirectories : path.directories = [] := by
    unfold PortablePath.directories
    rw [hcomponents]
    rfl
  have htop : top buildLedgerName = buildLedgerName := by decide
  have hempty : OutputNamespace.new.Below [] := by
    intro key hkey
    cases hkey with
    | inl h => exact absurd rfl h
    | inr h => exact absurd rfl h
  obtain ⟨space, hspace, hbelow, hcount, hbytes⟩ :=
    @OutputNamespace.insert_of _ _ _ "framework ledger" _ hpath hempty List.not_mem_nil
      (by rw [hcomponents]; decide) (by rw [hdirectories]; decide)
  rw [hcomponents] at hcount
  rw [hdirectories] at hbytes
  rw [hvalue, htop] at hbelow
  have hstart : ∀ previous ∈ (none : Option String), ∀ path ∈ outputPaths files, previous < path :=
    fun _ hnone => by cases hnone
  have hroom := h.components
  obtain ⟨last, hlast⟩ :=
    @foldlM_checkOutput_of _ _ ⟨⟨space, none⟩, 0⟩ files h.sound h.sorted hbelow hstart h.tops
      (by rw [hcount]; exact hroom)
      (by rw [hbytes]; exact (Nat.zero_add _).trans_le h.ancestorBytes)
      ((Nat.zero_add _).trans_le h.total)
  have hparse := hpath.canonical.parse
  rw [hvalue] at hparse
  unfold validateOutputs OutputNamespace.insertStr
  simp only [Except.bind_eq_ok]
  exact ⟨⟨⟩, ensure_ok.mpr (decide_eq_true h.count), (path, space), ⟨path, hparse, space, hspace, rfl⟩,
    last, hlast, trivial⟩

end Accept

section Report

variable {context : BuildContext} {files : List OutputFile}

def reportOf (json : Json) (context : BuildContext) (files : List OutputFile) : BuildReport :=
  let receipt : ArtifactReceipt :=
    { receiptVersion := Artifact.receiptVersion
      namespaceVersion := Artifact.namespaceVersion
      context
      replacementPolicy := ⟨context.ownership.projectId⟩
      previousOwnership := none
      outputs := ⟨files, files.length, totalOf files, hashFiles json files⟩ }
  ⟨buildReportVersion, hashReceipt json receipt, receipt⟩

theorem validateReport_of (hcontext : normalizeContext unicode json context = .ok context)
    (houtputs : validateOutputs unicode files = .ok ()) (htotal : totalOf files < 2 ^ 64)
    : validateReport unicode json (reportOf json context files) = .ok () := by
  have hproject : validateProjectId context.ownership.projectId = .ok () := by
    unfold normalizeContext validateOwnership at hcontext
    simp only [↓Except.bind_unit_eq_ok] at hcontext
    exact hcontext.1.1
  unfold validateReport reportOf checkTotal validatePrevious
  simp only [↓Except.bind_unit_eq_ok, Except.bind_eq_ok, ensure_ok, decide_true, Bool.and_self,
    true_and, decide_eq_true_eq]
  exact ⟨context, hcontext, rfl, houtputs, htotal, hproject, trivial⟩

end Report

section Tree

variable {contents : String → List UInt8} {ledger : List UInt8}

def publishedFiles (ledger : List UInt8) (contents : String → List UInt8) (paths : List String)
    : List (List String × DiskFile) :=
  ([buildLedgerName], ⟨ledger, 1⟩) :: paths.map (fun path => (split '/' path, ⟨contents path, 1⟩))

theorem publishedFiles_separate {paths : List String} (htops : (buildLedgerName :: paths.map top).Nodup)
    : Separate (publishedFiles ledger contents paths) := by
  have hsplit : ∀ file ∈ publishedFiles ledger contents paths,
      ∃ text ∈ buildLedgerName :: paths, file.1 = split '/' text := by
    intro file hfile
    cases List.mem_cons.mp hfile with
    | inl h => exact ⟨buildLedgerName, List.mem_cons_self, by rw [h, split_ledger]⟩
    | inr h =>
      obtain ⟨path, hpath, rfl⟩ := List.mem_map.mp h
      exact ⟨path, List.mem_cons_of_mem _ hpath, rfl⟩
  have htop : top buildLedgerName = buildLedgerName := by decide
  have hnodup : ((buildLedgerName :: paths).map top).Nodup := by
    rw [List.map_cons, htop]
    exact htops
  refine ⟨?_, ?_, ?_⟩
  . intro file hfile
    obtain ⟨text, -, hsame⟩ := hsplit file hfile
    rw [hsame]
    exact split_ne_nil
  . have hmap : (publishedFiles ledger contents paths).map Prod.fst
        = (buildLedgerName :: paths).map (split '/') := by
      unfold publishedFiles
      rw [List.map_cons, List.map_cons, List.map_map]
      exact congrArg₂ List.cons split_ledger.symm rfl
    rw [hmap]
    exact hnodup.of_map.map (fun _ _ h => split_inj h)
  . intro a ha b hb hfront
    obtain ⟨text, htext, hatext⟩ := hsplit a ha
    obtain ⟨text', htext', hbtext⟩ := hsplit b hb
    rw [hatext, hbtext] at hfront ⊢
    rw [List.inj_on_of_nodup_map hnodup htext htext' (top_of_front hfront)]

theorem publishes_of_spread
    (htops : (buildLedgerName :: (outputPaths report.receipt.outputs.files).map top).Nodup)
    (hparts : ∀ path ∈ outputPaths report.receipt.outputs.files,
      ∀ part ∈ split '/' path, part ≠ "")
    (hcontents : ∀ file ∈ report.receipt.outputs.files,
      (contents file.path).length = file.bytes ∧ sha256Bytes (contents file.path) = file.sha256)
    : ∃ entries, Publishes report ledger entries := by
  have hseparate := @publishedFiles_separate contents ledger _ htops
  obtain ⟨depth, hdepth⟩ : ∃ depth, ∀ file ∈ publishedFiles ledger contents
      (outputPaths report.receipt.outputs.files), file.1.length ≤ depth := by
    have hle := fun file (hfile : file ∈ publishedFiles ledger contents
        (outputPaths report.receipt.outputs.files)) =>
      List.le_sum_of_mem (@List.mem_map_of_mem _ _ _ _ (fun file => file.1.length) hfile)
    exact ⟨_, hle⟩
  have hmem : ∀ file ∈ report.receipt.outputs.files, (split '/' file.path,
      DiskFile.mk (contents file.path) 1) ∈ publishedFiles ledger contents
        (outputPaths report.receipt.outputs.files) := by
    intro file hfile
    unfold publishedFiles outputPaths
    rw [List.map_map]
    exact List.mem_cons_of_mem _ (List.mem_map_of_mem hfile)
  refine ⟨ofFiles depth (publishedFiles ledger contents
    (outputPaths report.receipt.outputs.files)), ?_, ?_, ?_, ?_⟩
  . apply WellFormed.ofFiles
    intro file hfile name hname
    cases List.mem_cons.mp hfile with
    | inl h =>
      rw [h] at hname
      rw [List.mem_singleton.mp hname]
      decide
    | inr h =>
      obtain ⟨path, hpath, rfl⟩ := List.mem_map.mp h
      exact ⟨hparts path hpath name hname, not_mem_of_mem_split hname⟩
  . exact lookup_ofFiles hseparate hdepth List.mem_cons_self
  . intro file hfile
    exact ⟨_, lookup_ofFiles hseparate hdepth (hmem file hfile), hcontents file hfile⟩
  . intro path node hlookup
    cases lookup_ofFiles_some hseparate hlookup with
    | inl hfile =>
      obtain ⟨content, rfl, hstored⟩ := hfile
      cases List.mem_cons.mp hstored with
      | inl h => exact .inl (Prod.mk.inj h).1
      | inr h =>
        obtain ⟨text, htext, hsame⟩ := List.mem_map.mp h
        obtain ⟨file, hfile, rfl⟩ := List.mem_map.mp htext
        exact .inr (.inl ⟨file, hfile, (Prod.mk.inj hsame).1.symm⟩)
    | inr hdirectory =>
      obtain ⟨hsort, stored, hstored, hfront, hne⟩ := hdirectory
      cases List.mem_cons.mp hstored with
      | inl h =>
        rw [h] at hfront hne
        have hnil : path = [] := by
          cases path with
          | nil => rfl
          | cons name rest =>
            obtain ⟨hname, hrest⟩ := List.cons_prefix_cons.mp hfront
            exact absurd (by rw [hname, List.prefix_nil.mp hrest]) hne
        rw [hnil] at hlookup
        cases hlookup
      | inr h =>
        obtain ⟨text, htext, rfl⟩ := List.mem_map.mp h
        obtain ⟨file, hfile, rfl⟩ := List.mem_map.mp htext
        refine .inr (.inr ⟨?_, file, hfile, hfront, hne⟩)
        cases node with
        | directory sub => exact ⟨sub, rfl⟩
        | _ => cases hsort

end Tree

end Artifact

end Pliego
