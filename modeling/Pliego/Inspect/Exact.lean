import Pliego.Inspect.Sums

/-!
What a valid report says of the asset directory: which files its manifest covers, and how often.
-/

namespace Pliego

namespace Inspect

open Bytes

inductive Holds : List (OsName × Entry) → List OsName → Content → Prop where
  | file {entries : List (OsName × Entry)} {name : OsName} {content : Content}
    : (name, .file content) ∈ entries → Holds entries [name] content
  | inside {entries sub : List (OsName × Entry)} {name : OsName} {path : List OsName} {content : Content}
    : (name, .directory sub) ∈ entries → Holds sub path content → Holds entries (name :: path) content

mutual

def Entry.NamedOnce (entry : Entry) : Prop :=
  match entry with
  | .file _ => True
  | .directory entries => NamedOnce entries

def NamedOnce (entries : List (OsName × Entry)) : Prop :=
  match entries with
  | [] => True
  | (name, entry) :: rest => (∀ other ∈ rest, other.1 ≠ name) ∧ entry.NamedOnce ∧ NamedOnce rest

end

structure AssetDirectory where
  entries : List (OsName × Entry)
  once : NamedOnce entries

def isName (piece : String) : Bool := piece ≠ "" && piece ≠ "."

def target (value : String) : Option (List String) :=
  if (pathFromManifest value).getLast?.any isName then some ((pathFromManifest value).filter isName) else none

def names (value : String) (path : List OsName) : Bool :=
  match target value with
  | some pieces => pieces.map utf8 = path.map OsName.bytes
  | none => false

def isTrackedPath (extensions : SortedSet String) (path : List OsName) : Bool := path.getLast?.any (isTracked extensions)

def Tracks (manifest : AssetManifest) (directory : AssetDirectory) (path : List OsName) (content : Content) : Prop :=
  Holds directory.entries path content ∧ isTrackedPath (extensionSet manifest.coverage) path = true

def AssetManifest.namedBy (manifest : AssetManifest) (path : List OsName) : List Variant :=
  manifest.variants.filter fun variant => names variant.path path

def AssetManifest.excludes (manifest : AssetManifest) (path : List OsName) : Bool :=
  manifest.coverage.excluded.any fun exclusion => names exclusion.path path

structure Exact (manifest : AssetManifest) (directory : AssetDirectory) : Prop where
  covered : ∀ path content, Tracks manifest directory path content
      → (manifest.namedBy path).length = 1 ∧ manifest.excludes path = false
        ∨ (manifest.namedBy path).length = 0 ∧ manifest.excludes path = true
  verified : ∀ variant ∈ manifest.variants, ∃ path content, Tracks manifest directory path content
      ∧ names variant.path path = true ∧ content.bytes.length = variant.bytes.toNat
      ∧ hexDigest content = variant.sha256
  fallbacks : ∀ variant ∈ manifest.variants, ∀ id ∈ variant.fallbackFor,
      ∃ other ∈ manifest.variants, other.id = id
  budgets : ∀ budget ∈ manifest.budgetScopes, ∀ id ∈ budget.variants, ∃ variant ∈ manifest.variants, variant.id = id

def IsPosixText (path : List OsName) : Prop := ∃ text : String, pathBytes path = utf8 text ∧ '\\' ∉ text.toList

def AssetManifest.Apart (manifest : AssetManifest) : Prop :=
  ∀ variant ∈ manifest.variants, ∀ exclusion ∈ manifest.coverage.excluded, ∀ pieces,
    target variant.path = some pieces → target exclusion.path ≠ some pieces

/-! Paths as bytes and as text -/

theorem bytes_injective : Function.Injective OsName.bytes := by
  intro a b h
  cases a
  cases b
  cases h
  rfl

theorem slash_not_mem_utf8 {text : String} (h : '/' ∉ text.toList) : (47 : UInt8) ∉ utf8 text := by
  rw [Utf8.utf8_chars]
  intro hmem
  obtain ⟨c, hc, hbyte⟩ := List.mem_flatMap.mp hmem
  by_cases hascii : c.toNat < 128
  . rw [Text.utf8EncodeChar_ascii hascii, List.mem_singleton] at hbyte
    have hnat : c.toNat = 47 := by
      have hcast := congrArg UInt8.toNat hbyte
      simp at hcast
      omega
    have hslash : c = '/' := Char.toNat_inj.mp hnat
    exact h (hslash ▸ hc)
  . have hwide := Text.le_of_mem_utf8EncodeChar (Nat.le_of_not_lt hascii) hbyte
    exact absurd hwide (by decide)

theorem utf8_join {parts : List String} (hne : parts ≠ [])
    : utf8 (Text.join '/' parts) = joinBytes (parts.map utf8) := by
  unfold joinBytes
  induction parts with
  | nil => exact absurd rfl hne
  | cons first parts ih =>
    cases parts with
    | nil => simp [Text.join]
    | cons second parts =>
      have ih := ih (List.cons_ne_nil _ _)
      have hparts : (first :: second :: parts).map utf8 = utf8 first :: utf8 second :: parts.map utf8 := rfl
      rw [Text.join_cons_cons, utf8_append, utf8_append, ih, hparts, List.intercalate_cons_cons]
      rfl

theorem joinBytes_inj {a b : List (List UInt8)} (ha : ∀ piece ∈ a, (47 : UInt8) ∉ piece)
    (hb : ∀ piece ∈ b, (47 : UInt8) ∉ piece) (hane : a ≠ []) (hbne : b ≠ []) (h : joinBytes a = joinBytes b)
    : a = b := by
  unfold joinBytes at h
  rw [← List.splitOn_intercalate 47 ha hane, h, List.splitOn_intercalate 47 hb hbne]

variable {path : List OsName} {name : OsName} {value : String} {content : Content}
  {entries : List (OsName × Entry)}

theorem split_of_pathBytes {text : String} (hne : path ≠ []) (h : pathBytes path = utf8 text)
    : (pathFromManifest text).map utf8 = path.map OsName.bytes := by
  unfold pathFromManifest
  apply joinBytes_inj
  . intro piece hpiece
    obtain ⟨part, hpart, rfl⟩ := List.mem_map.mp hpiece
    exact slash_not_mem_utf8 (Text.not_mem_of_mem_split hpart)
  . intro piece hpiece
    obtain ⟨name, -, rfl⟩ := List.mem_map.mp hpiece
    exact name.noSlash
  . simpa using Text.split_ne_nil
  . simpa using hne
  . rw [← utf8_join Text.split_ne_nil, Text.join_split, ← h]
    rfl

theorem isName_of_bytes {piece : String} (h : utf8 piece = name.bytes) : isName piece = true := by
  unfold isName
  rw [Bool.and_eq_true, decide_eq_true_eq, decide_eq_true_eq]
  constructor
  . rintro rfl
    exact name.nonempty h.symm
  . rintro rfl
    exact name.notSelf h.symm

theorem names_of_pathBytes {text : String} (hne : path ≠ []) (h : pathBytes path = utf8 text)
    : target text = some (pathFromManifest text) ∧ names text path = true := by
  have hsplit := split_of_pathBytes hne h
  have hall : ∀ piece ∈ pathFromManifest text, isName piece = true := by
    intro piece hpiece
    have hmem := List.mem_map_of_mem (f := utf8) hpiece
    rw [hsplit] at hmem
    obtain ⟨name, -, hname⟩ := List.mem_map.mp hmem
    exact isName_of_bytes hname.symm
  have htarget : target text = some (pathFromManifest text) := by
    unfold target
    rw [List.filter_eq_self.mpr hall, if_pos]
    cases hlast : (pathFromManifest text).getLast? with
    | none => exact absurd (List.getLast?_eq_none_iff.mp hlast) Text.split_ne_nil
    | some last => exact hall last (List.mem_of_getLast? hlast)
  refine ⟨htarget, ?_⟩
  unfold names
  rw [htarget]
  exact decide_eq_true hsplit

theorem names_iff
    : names value path = true ↔ ∃ pieces, target value = some pieces ∧ pieces.map utf8 = path.map OsName.bytes := by
  unfold names
  cases target value with
  | none => simp
  | some pieces => simp

theorem names_inj {p q : List OsName} (hp : names value p = true) (hq : names value q = true)
    : p = q := by
  obtain ⟨pieces, htarget, hp⟩ := names_iff.mp hp
  obtain ⟨others, hothers, hq⟩ := names_iff.mp hq
  cases htarget.symm.trans hothers
  exact List.map_injective_iff.mpr bytes_injective (hp.symm.trans hq)

theorem isPosixText_of_names (hrelative : isRelativePath value = true)
    (hne : path ≠ []) (h : names value path = true) : IsPosixText path := by
  obtain ⟨pieces, htarget, hbytes⟩ := names_iff.mp h
  have hpieces : ∀ piece ∈ pieces, piece ∈ pathFromManifest value := by
    unfold target at htarget
    split at htarget
    . cases htarget
      exact fun piece hpiece => (List.mem_filter.mp hpiece).1
    . cases htarget
  have hsome : pieces ≠ [] := by
    rintro rfl
    exact hne (List.map_eq_nil_iff.mp hbytes.symm)
  refine ⟨Text.join '/' pieces, ?_, ?_⟩
  . rw [utf8_join hsome, hbytes]
    rfl
  . simp only [isRelativePath, Bool.and_eq_true, Bool.not_eq_true'] at hrelative
    obtain ⟨⟨⟨-, hplain⟩, -⟩, -⟩ := hrelative
    have hnone : ∀ piece ∈ pieces, Text.contains piece '\\' = false := by
      intro piece hpiece
      unfold Text.contains at hplain ⊢
      rw [List.contains_eq_mem, decide_eq_false_iff_not] at hplain ⊢
      exact fun hmem => hplain (Text.mem_of_mem_split (hpieces piece hpiece) hmem)
    have hjoined := Text.contains_join (by decide : '\\' ≠ '/') hnone
    unfold Text.contains at hjoined
    rw [List.contains_eq_mem, decide_eq_false_iff_not] at hjoined
    exact hjoined

theorem spelled_of_text {text : String} (h : pathBytes path = utf8 text)
    (hplain : '\\' ∉ text.toList) : spelled path = text := by
  unfold spelled
  rw [h, Utf8.lossy_utf8]
  have hid : text.toList.map (fun c => if c = '\\' then '/' else c) = text.toList := by
    conv => rhs; rw [← List.map_id text.toList]
    apply List.map_congr_left
    intro c hc
    have hother : c ≠ '\\' := by
      rintro rfl
      exact hplain hc
    rw [if_neg hother, id_eq]
  rw [hid, String.ofList_toList]

theorem holds_ne_nil (h : Holds entries path content) : path ≠ [] := by
  cases h <;> exact List.cons_ne_nil _ _

theorem holds_nil : ¬ Holds [] path content := by
  intro h
  cases h with
  | file hmem => cases hmem
  | inside hmem _ => cases hmem

theorem holds_cons {entry : OsName × Entry} {rest : List (OsName × Entry)}
    : Holds (entry :: rest) path content ↔ Holds [entry] path content ∨ Holds rest path content := by
  constructor
  . intro h
    cases h with
    | file hmem =>
      cases List.mem_cons.mp hmem with
      | inl hfirst => exact .inl (.file (hfirst ▸ List.mem_singleton_self _))
      | inr hrest => exact .inr (.file hrest)
    | inside hmem hsub =>
      cases List.mem_cons.mp hmem with
      | inl hfirst => exact .inl (.inside (hfirst ▸ List.mem_singleton_self _) hsub)
      | inr hrest => exact .inr (.inside hrest hsub)
  . rintro (h | h)
    . cases h with
      | file hmem => exact .file (List.mem_cons.mpr (.inl (List.mem_singleton.mp hmem)))
      | inside hmem hsub => exact .inside (List.mem_cons.mpr (.inl (List.mem_singleton.mp hmem))) hsub
    . cases h with
      | file hmem => exact .file (List.mem_cons_of_mem _ hmem)
      | inside hmem hsub => exact .inside (List.mem_cons_of_mem _ hmem) hsub

theorem holds_file {file content : Content}
    : Holds [(name, .file file)] path content ↔ path = [name] ∧ content = file := by
  constructor
  . intro h
    cases h with
    | file hmem =>
      cases List.mem_singleton.mp hmem
      exact ⟨rfl, rfl⟩
    | inside hmem _ => cases List.mem_singleton.mp hmem
  . rintro ⟨rfl, rfl⟩
    exact .file (List.mem_singleton_self _)

theorem holds_directory {sub : List (OsName × Entry)}
    : Holds [(name, .directory sub)] path content ↔ ∃ below, path = name :: below ∧ Holds sub below content := by
  constructor
  . intro h
    cases h with
    | file hmem => cases List.mem_singleton.mp hmem
    | inside hmem hsub =>
      cases List.mem_singleton.mp hmem
      exact ⟨_, rfl, hsub⟩
  . rintro ⟨below, rfl, hsub⟩
    exact .inside (List.mem_singleton_self _) hsub

theorem isTrackedPath_cons {extensions : SortedSet String} (h : Holds entries path content)
    : isTrackedPath extensions (name :: path) = isTrackedPath extensions path := by
  unfold isTrackedPath
  cases path with
  | nil => exact absurd rfl (holds_ne_nil h)
  | cons first rest => rw [List.getLast?_cons_cons]

def Found (extensions : SortedSet String) (path : List OsName) (entries : List (OsName × Entry)) (text : String)
    : Prop :=
  ∃ below content, Holds entries below content ∧ isTrackedPath extensions below = true ∧ spelled (path ++ below) = text

theorem found_cons {extensions : SortedSet String} {entry : OsName × Entry}
    {rest : List (OsName × Entry)} {text : String}
    : Found extensions path (entry :: rest) text
        ↔ Found extensions path [entry] text ∨ Found extensions path rest text := by
  unfold Found
  constructor
  . rintro ⟨below, content, hholds, h⟩
    cases holds_cons.mp hholds with
    | inl hfirst => exact .inl ⟨below, content, hfirst, h⟩
    | inr hrest => exact .inr ⟨below, content, hrest, h⟩
  . rintro (⟨below, content, hfirst, h⟩ | ⟨below, content, hrest, h⟩)
    . exact ⟨below, content, holds_cons.mpr (.inl hfirst), h⟩
    . exact ⟨below, content, holds_cons.mpr (.inr hrest), h⟩

mutual

theorem contains_collectEntry (extensions : SortedSet String) (path : List OsName) (name : OsName) (entry : Entry)
    (paths : SortedSet String) (text : String)
    : (collectEntry extensions path name entry paths).contains text = true
        ↔ paths.contains text = true ∨ Found extensions path [(name, entry)] text := by
  cases entry with
  | file content =>
    have hfound : Found extensions path [(name, .file content)] text
        ↔ isTracked extensions name = true ∧ spelled (path ++ [name]) = text := by
      unfold Found
      constructor
      . rintro ⟨below, other, hholds, htracked, hspelled⟩
        obtain ⟨rfl, -⟩ := holds_file.mp hholds
        exact ⟨htracked, hspelled⟩
      . rintro ⟨htracked, hspelled⟩
        exact ⟨[name], content, holds_file.mpr ⟨rfl, rfl⟩, htracked, hspelled⟩
    unfold collectEntry
    rw [hfound]
    split
    . next htracked => rw [contains_insert_iff, @eq_comm _ text, and_iff_right htracked]
    . next htracked =>
      rw [iff_self_or]
      exact fun h => absurd h.1 htracked
  | directory entries =>
    unfold collectEntry
    rw [contains_collectTrackedFiles extensions (path ++ [name]) entries paths text]
    apply or_congr_right
    unfold Found
    constructor
    . rintro ⟨below, content, hholds, htracked, hspelled⟩
      rw [List.append_assoc] at hspelled
      exact ⟨name :: below, content, holds_directory.mpr ⟨below, rfl, hholds⟩,
        (isTrackedPath_cons hholds).trans htracked, hspelled⟩
    . rintro ⟨_, content, hholds, htracked, hspelled⟩
      obtain ⟨below, rfl, hsub⟩ := holds_directory.mp hholds
      rw [isTrackedPath_cons hsub] at htracked
      refine ⟨below, content, hsub, htracked, ?_⟩
      rw [List.append_assoc]
      exact hspelled

theorem contains_collectTrackedFiles (extensions : SortedSet String) (path : List OsName)
    (entries : List (OsName × Entry)) (paths : SortedSet String) (text : String)
    : (collectTrackedFiles extensions path entries paths).contains text = true
        ↔ paths.contains text = true ∨ Found extensions path entries text := by
  cases entries with
  | nil =>
    unfold collectTrackedFiles Found
    simp [holds_nil]
  | cons first rest =>
    obtain ⟨name, entry⟩ := first
    unfold collectTrackedFiles
    rw [contains_collectTrackedFiles extensions path rest _ text,
      contains_collectEntry extensions path name entry paths text, @found_cons _ _ _ rest, or_assoc]

end

/-! What the manifest's path of a file leads to -/

theorem find_of_mem (honce : NamedOnce entries) {entry : Entry} (h : (name, entry) ∈ entries)
    : entries.find? (fun other => other.1.bytes = name.bytes) = some (name, entry) ∧ entry.NamedOnce := by
  induction entries with
  | nil => cases h
  | cons first rest ih =>
    obtain ⟨firstName, firstEntry⟩ := first
    unfold NamedOnce at honce
    obtain ⟨hfresh, hfirst, hrest⟩ := honce
    rw [List.find?_cons]
    cases h with
    | head => exact ⟨by simp, hfirst⟩
    | tail _ hmem =>
      have hother : firstName.bytes ≠ name.bytes := fun hsame => hfresh _ hmem (bytes_injective hsame).symm
      rw [decide_eq_false hother]
      exact ih hrest hmem

theorem resolve_of_holds {machine : Machine}
    {pieces : List String} (honce : NamedOnce entries) (h : Holds entries path content)
    (hlast : pieces.getLast?.any isName = true) (hbytes : (pieces.filter isName).map utf8 = path.map OsName.bytes)
    : resolve machine entries pieces = .ok (.file content) := by
  induction pieces generalizing entries path with
  | nil => cases hlast
  | cons piece rest ih =>
    have hrestlast : rest ≠ [] → rest.getLast?.any isName = true := by
      intro hne
      cases rest with
      | nil => exact absurd rfl hne
      | cons next rest => rwa [List.getLast?_cons_cons] at hlast
    unfold resolve
    by_cases hname : isName piece = true
    . rw [List.filter_cons_of_pos hname] at hbytes
      have hskip : ¬ (piece = "" ∨ piece = ".") := by
        simpa [isName] using hname
      rw [if_neg hskip]
      cases h with
      | @file _ name content hmem =>
        obtain ⟨hpiece, hnil⟩ := List.cons.inj hbytes
        have hrest : rest = [] := by
          by_contra hne
          have hlast := hrestlast hne
          rw [Option.any_eq_true] at hlast
          obtain ⟨last, hmem, hname⟩ := hlast
          have hkept : last ∈ rest.filter isName := List.mem_filter.mpr ⟨List.mem_of_getLast? hmem, hname⟩
          rw [List.map_eq_nil_iff.mp hnil] at hkept
          cases hkept
        rw [hpiece, (find_of_mem honce hmem).1, hrest]
        rfl
      | @inside _ sub name below content hmem hsub =>
        obtain ⟨hpiece, hbelow⟩ := List.cons.inj hbytes
        rw [hpiece, (find_of_mem honce hmem).1]
        have hne : rest ≠ [] := by
          rintro rfl
          exact holds_ne_nil hsub (List.map_eq_nil_iff.mp hbelow.symm)
        exact ih (find_of_mem honce hmem).2 hsub (hrestlast hne) hbelow
    . rw [List.filter_cons_of_neg hname] at hbytes
      have hskip : piece = "" ∨ piece = "." := by
        by_contra hneither
        exact hname (by simpa [isName] using hneither)
      rw [if_pos hskip]
      have hne : rest ≠ [] := by
        rintro rfl
        exact holds_ne_nil h (List.map_eq_nil_iff.mp hbytes.symm)
      exact ih honce h (hrestlast hne) hbytes

theorem no_nul_of_bytes {piece : String} (h : utf8 piece = name.bytes)
    : Text.contains piece (Char.ofNat 0) = false := by
  unfold Text.contains
  rw [List.contains_eq_mem, decide_eq_false_iff_not]
  intro hmem
  apply name.noNul
  rw [← h, Utf8.utf8_chars, List.mem_flatMap]
  exact ⟨Char.ofNat 0, hmem, by decide⟩

theorem hashed_of_names {machine : Machine} {directory : AssetDirectory}
    (hrelative : isRelativePath value = true) (h : Holds directory.entries path content)
    (hnames : names value path = true)
    : hashConfinedFile machine directory.entries (pathFromManifest value) = .ok content := by
  obtain ⟨pieces, htarget, hbytes⟩ := names_iff.mp hnames
  unfold target at htarget
  split at htarget
  . next hlast =>
    cases htarget
    have hnul : (pathFromManifest value).any (fun piece => Text.contains piece (Char.ofNat 0)) = false := by
      rw [List.any_eq_false]
      intro piece hpiece
      rw [Bool.not_eq_true]
      by_cases hname : isName piece = true
      . have hmem := List.mem_map_of_mem (f := utf8) (List.mem_filter.mpr ⟨hpiece, hname⟩)
        rw [hbytes] at hmem
        obtain ⟨name, -, hname⟩ := List.mem_map.mp hmem
        exact no_nul_of_bytes hname.symm
      . have hskip : piece = "" ∨ piece = "." := by
          by_contra hneither
          exact hname (by simpa [isName] using hneither)
        cases hskip with
        | inl hempty =>
          rw [hempty]
          decide
        | inr hdot =>
          rw [hdot]
          decide
    have hparent : (pathFromManifest value).contains ".." = false := by
      simp only [isRelativePath, Bool.and_eq_true, Bool.not_eq_true'] at hrelative
      exact hrelative.2
    unfold hashConfinedFile
    rw [hnul, hparent, resolve_of_holds directory.once h hlast hbytes]
    rfl
  . cases htarget

/-! What a report without issues has checked -/

theorem foldl_checkExclusion (debug : String → String) (exclusions : List Exclusion)
    : (∀ path, (exclusions.foldl (checkExclusion debug) ([], .empty)).2.contains path = true
          ↔ ∃ exclusion ∈ exclusions, exclusion.path = path)
        ∧
      ((exclusions.foldl (checkExclusion debug) ([], .empty)).1 = []
        → ∀ exclusion ∈ exclusions, isRelativePath exclusion.path = true) := by
  induction exclusions using List.reverseRecOn with
  | nil => simp
  | append_singleton exclusions exclusion ih =>
    obtain ⟨hcontains, hissues⟩ := ih
    rw [List.foldl_append, List.foldl_cons, List.foldl_nil]
    generalize exclusions.foldl (checkExclusion debug) ([], .empty) = state at hcontains hissues ⊢
    unfold checkExclusion
    dsimp only
    constructor
    . intro path
      rw [contains_insert_iff, hcontains, @eq_comm _ path]
      simp only [List.mem_append, List.mem_singleton, or_and_right, exists_or, exists_eq_left]
    . intro hnil
      simp only [List.append_eq_nil_iff, validateRelativePath, issueUnless_eq_nil] at hnil
      obtain ⟨⟨⟨hbefore, hpath⟩, -⟩, -⟩ := hnil
      intro other hother
      rw [List.mem_append, List.mem_singleton] at hother
      cases hother with
      | inl hold => exact hissues hbefore other hold
      | inr hnew => exact hnew ▸ hpath

structure Checked (machine : Machine) (manifest : AssetManifest) (directory : AssetDirectory) : Prop where
  relative : ∀ variant ∈ manifest.variants, isRelativePath variant.path = true
  nodupPaths : (manifest.variants.map Variant.path).Nodup
  exclusions : ∀ exclusion ∈ manifest.coverage.excluded, isRelativePath exclusion.path = true
  fallbacks : ∀ variant ∈ manifest.variants, ∀ id ∈ variant.fallbackFor,
      ∃ other ∈ manifest.variants, other.id = id
  budgets : ∀ budget ∈ manifest.budgetScopes, ∀ id ∈ budget.variants, ∃ variant ∈ manifest.variants, variant.id = id
  hashed : ∀ variant ∈ manifest.variants, ∃ content,
      hashConfinedFile machine directory.entries (pathFromManifest variant.path) = .ok content
        ∧ content.bytes.length = variant.bytes.toNat ∧ hexDigest content = variant.sha256
  disk : ∀ path content, Tracks manifest directory path content
      → (∃ variant ∈ manifest.variants, variant.path = spelled path)
        ∨ ∃ exclusion ∈ manifest.coverage.excluded, exclusion.path = spelled path
  declared : ∀ variant ∈ manifest.variants, ∃ path content, Tracks manifest directory path content
      ∧ spelled path = variant.path

theorem mem_values {map : SortedMap String Variant} {variant : Variant}
    : variant ∈ map.values ↔ ∃ id, map.get? id = some variant := by
  unfold SortedMap.values
  simp only [SortedMap.get?_eq_some, List.mem_map, Prod.exists, exists_eq_right]

theorem checked_of_valid {machine : Machine} {manifest : AssetManifest} {directory : AssetDirectory}
    (h : (inspect machine manifest (some directory.entries)).valid = true)
    : Checked machine manifest directory := by
  have hpassed := Gathered.passed_gather machine.debug manifest
  obtain ⟨hexcluded, hexclusions⟩ := foldl_checkExclusion machine.debug manifest.coverage.excluded
  have hissues : manifestIssues machine.debug manifest
      ++ verifyFiles machine directory.entries (extensionSet manifest.coverage)
        (gather machine.debug manifest.assets).paths (checkExclusions machine.debug manifest.coverage).2
        (gather machine.debug manifest.assets).variants = [] :=
    List.isEmpty_iff.mp h
  simp only [manifestIssues, verifyFiles, checkCoverage, checkFallbacks, checkExcludedDeclared,
    List.append_eq_nil_iff, List.flatMap_eq_nil_iff, issueUnless_eq_nil] at hissues
  obtain ⟨⟨⟨⟨⟨⟨⟨⟨-, -⟩, -⟩, hexclusion⟩, hgathered⟩, hfallbacks⟩, -⟩, hbudgets⟩, hverified, huntracked, hmissing⟩ :=
    hissues
  have hmem : ∀ variant ∈ manifest.variants, variant ∈ (gather machine.debug manifest.assets).variants.values := by
    intro variant hvariant
    rw [mem_values]
    exact ⟨variant.id, (hpassed.found _).trans (lookup_of_mem (hpassed.nodupIds hgathered) hvariant)⟩
  refine ⟨hpassed.relative hgathered, hpassed.nodupPaths hgathered, hexclusions hexclusion, ?_, ?_, ?_, ?_, ?_⟩
  . intro variant hvariant id hid
    have hfound := hfallbacks variant (hmem variant hvariant) id hid
    rw [hpassed.found] at hfound
    exact lookup_isSome.mp hfound
  . intro budget hbudget id hid
    have hspent := passed_spent hpassed.found budget
    exact lookup_isSome.mp (hspent.found (checkBudgets_issues hbudgets budget hbudget) id hid)
  . intro variant hvariant
    have hissues := hverified variant (hmem variant hvariant)
    unfold verifyVariant at hissues
    cases hhashed : hashConfinedFile machine directory.entries (pathFromManifest variant.path) with
    | error text =>
      rw [hhashed] at hissues
      cases hissues
    | ok content =>
      rw [hhashed] at hissues
      simp only [List.append_eq_nil_iff, issueUnless_eq_nil, decide_eq_true_eq] at hissues
      exact ⟨content, rfl, hissues.1, hissues.2⟩
  . intro path content htracks
    have hdisk := huntracked (spelled path) (SortedSet.mem_keys_iff.mpr ((contains_collectTrackedFiles _ [] _ _ _).mpr
      (.inr ⟨path, content, htracks.1, htracks.2, rfl⟩)))
    rw [Bool.or_eq_true, hpassed.paths] at hdisk
    exact hdisk.imp id (hexcluded _).mp
  . intro variant hvariant
    have hdisk := hmissing variant.path
      (SortedSet.mem_keys_iff.mpr ((hpassed.paths _).mpr ⟨variant, hvariant, rfl⟩))
    rw [contains_collectTrackedFiles] at hdisk
    rcases hdisk with hempty | ⟨path, content, hholds, htracked, hspelled⟩
    . cases hempty
    . exact ⟨path, content, ⟨hholds, htracked⟩, hspelled⟩

/-! When a valid report is exact -/

theorem same_target {a b : String} (ha : names a path = true) (hb : names b path = true)
    : ∃ pieces, target a = some pieces ∧ target b = some pieces := by
  obtain ⟨pieces, htarget, hbytes⟩ := names_iff.mp ha
  obtain ⟨others, hothers, hsame⟩ := names_iff.mp hb
  have hinjective : Function.Injective utf8 := fun _ _ => utf8_inj
  rw [← hsame] at hbytes
  rw [List.map_injective_iff.mpr hinjective hbytes] at htarget
  exact ⟨others, htarget, hothers⟩

theorem length_filter_eq_one {variants : List Variant} (hnodup : (variants.map Variant.path).Nodup)
    {variant : Variant} (h : variant ∈ variants)
    : (variants.filter fun other => other.path = variant.path).length = 1 := by
  have hcount := List.count_eq_one_of_mem hnodup (List.mem_map_of_mem (f := Variant.path) h)
  rw [List.count, List.countP_map, List.countP_eq_length_filter] at hcount
  rw [← hcount]
  rfl

theorem mem_namedBy {manifest : AssetManifest} {variant : Variant}
    : variant ∈ manifest.namedBy path ↔ variant ∈ manifest.variants ∧ names variant.path path = true :=
  List.mem_filter

theorem excludes_iff {manifest : AssetManifest}
    : manifest.excludes path = true ↔ ∃ exclusion ∈ manifest.coverage.excluded, names exclusion.path path = true :=
  List.any_eq_true

section

variable {machine : Machine} {manifest : AssetManifest} {directory : AssetDirectory}
  (hchecked : Checked machine manifest directory)

include hchecked

theorem posix_of_exact (h : Exact manifest directory) {path : List OsName} {content : Content}
    (htracks : Tracks manifest directory path content) : IsPosixText path := by
  have hne := holds_ne_nil htracks.1
  rcases h.covered path content htracks with ⟨hone, -⟩ | ⟨-, hexcluded⟩
  . cases hnamed : manifest.namedBy path with
    | nil =>
      rw [hnamed] at hone
      cases hone
    | cons variant rest =>
      obtain ⟨hvariant, hnames⟩ := mem_namedBy.mp (hnamed ▸ List.mem_cons_self : variant ∈ manifest.namedBy path)
      exact isPosixText_of_names (hchecked.relative variant hvariant) hne hnames
  . obtain ⟨exclusion, hexclusion, hnames⟩ := excludes_iff.mp hexcluded
    exact isPosixText_of_names (hchecked.exclusions exclusion hexclusion) hne hnames

omit hchecked in
theorem apart_of_exact (h : Exact manifest directory) : manifest.Apart := by
  intro variant hvariant exclusion hexclusion pieces htarget hsame
  obtain ⟨path, content, htracks, hnames, -⟩ := h.verified variant hvariant
  obtain ⟨others, hothers, hbytes⟩ := names_iff.mp hnames
  cases htarget.symm.trans hothers
  have hexcluded : manifest.excludes path = true :=
    excludes_iff.mpr ⟨exclusion, hexclusion, names_iff.mpr ⟨pieces, hsame, hbytes⟩⟩
  rcases h.covered path content htracks with ⟨-, hnot⟩ | ⟨hnone, -⟩
  . rw [hexcluded] at hnot
    cases hnot
  . have hmem := mem_namedBy.mpr ⟨hvariant, hnames⟩
    rw [List.length_eq_zero_iff.mp hnone] at hmem
    cases hmem

theorem exact_of_posix (hposix : ∀ path content, Tracks manifest directory path content → IsPosixText path)
    (hapart : manifest.Apart) : Exact manifest directory := by
  -- A variant's path is the spelling of the one file that it names.
  have hspelled : ∀ {path content}, Tracks manifest directory path content → names (spelled path) path = true := by
    intro path content htracks
    obtain ⟨text, hbytes, hplain⟩ := hposix path content htracks
    rw [spelled_of_text hbytes hplain]
    exact (names_of_pathBytes (holds_ne_nil htracks.1) hbytes).2
  have hpath : ∀ variant ∈ manifest.variants, ∀ {path content}, Tracks manifest directory path content
      → (names variant.path path = true ↔ variant.path = spelled path) := by
    intro variant hvariant path content htracks
    constructor
    . intro hnames
      obtain ⟨other, found, hother, hsame⟩ := hchecked.declared variant hvariant
      have hothernames := hspelled hother
      rw [hsame] at hothernames
      rw [names_inj hnames hothernames, hsame]
    . intro hsame
      rw [hsame]
      exact hspelled htracks
  refine ⟨?_, ?_, hchecked.fallbacks, hchecked.budgets⟩
  . intro path content htracks
    rcases hchecked.disk path content htracks with ⟨variant, hvariant, hsame⟩ | ⟨exclusion, hexclusion, hsame⟩
    . have hnames := (hpath variant hvariant htracks).mpr hsame
      refine .inl ⟨?_, ?_⟩
      . unfold AssetManifest.namedBy
        rw [← length_filter_eq_one hchecked.nodupPaths hvariant]
        congr 1
        apply List.filter_congr
        intro other hother
        rw [Bool.eq_iff_iff, hpath other hother htracks, hsame, decide_eq_true_eq]
      . rw [Bool.eq_false_iff]
        intro hexcluded
        obtain ⟨exclusion, hexclusion, hother⟩ := excludes_iff.mp hexcluded
        obtain ⟨pieces, htarget, hsame⟩ := same_target hnames hother
        exact hapart variant hvariant exclusion hexclusion pieces htarget hsame
    . have hexcludes : names exclusion.path path = true := by
        rw [hsame]
        exact hspelled htracks
      refine .inr ⟨?_, excludes_iff.mpr ⟨exclusion, hexclusion, hexcludes⟩⟩
      rw [List.length_eq_zero_iff, List.eq_nil_iff_forall_not_mem]
      intro variant hmem
      obtain ⟨hvariant, hnames⟩ := mem_namedBy.mp hmem
      obtain ⟨pieces, htarget, hsame⟩ := same_target hnames hexcludes
      exact hapart variant hvariant exclusion hexclusion pieces htarget hsame
  . intro variant hvariant
    obtain ⟨path, content, htracks, hsame⟩ := hchecked.declared variant hvariant
    have hnames := (hpath variant hvariant htracks).mpr hsame.symm
    obtain ⟨hashed, hhashed, hlength, hdigest⟩ := hchecked.hashed variant hvariant
    rw [hashed_of_names (hchecked.relative variant hvariant) htracks.1 hnames] at hhashed
    cases hhashed
    exact ⟨path, content, htracks, hnames, hlength, hdigest⟩

end

/--
A valid report is exact if and only if the paths of the tracked files are text without a backslash and no exclusion
leads to the file of a variant. The sums are the exact ones as far as these fit, so that the budgets are judged rightly
unless the largest limit is the only one exceeded; and a baseline stops at the sum that does not saturate.
-/
theorem inspection_exact_iff (machine : Machine) (manifest : AssetManifest)
    : (∀ directory : AssetDirectory, (inspect machine manifest (some directory.entries)).valid = true →
        (Exact manifest directory
          ↔ (∀ path content, Tracks manifest directory path content → IsPosixText path) ∧ manifest.Apart))
      ∧ (∀ root, (((inspect machine manifest root).budgetsPass = true ↔ manifest.KeepsBudgets) ↔ manifest.Comparable)
          ∧ (inspect machine manifest root).SumsOf manifest.variants)
      ∧ ∀ plan read targetSet, BaselineExact machine plan read targetSet
        ↔ ∀ manifests, targetSet.LeadsTo plan read manifests
          → (manifests.map AssetManifest.reportedBytes).sum ≤ largest := by
  refine ⟨?_, ?_, ?_⟩
  . intro directory hvalid
    have hchecked := checked_of_valid hvalid
    constructor
    . intro h
      exact ⟨fun _ _ htracks => posix_of_exact hchecked h htracks, apart_of_exact h⟩
    . rintro ⟨hposix, hapart⟩
      exact exact_of_posix hchecked hposix hapart
  . intro root
    exact ⟨budgetsPass_exact machine manifest root, inspect_sums machine manifest root⟩
  . intro plan read targetSet
    exact baselineExact_iff

section Samples

def sampleMachine : Machine where
  debug value := value
  root := "/srv/assets"
  notFound := "No such file or directory (os error 2)"
  notDirectory := "Not a directory (os error 20)"
  nulByte := "file name contained an unexpected NUL byte"
  above _ := .error "No such file or directory (os error 2)"

def sampleManifest : AssetManifest where
  manifestVersion := "1.0.0"
  work := ⟨.house, "atlas", "atlas", none⟩
  coverage := ⟨[".png"], [⟨"a/b.png", "drawn by hand"⟩]⟩
  assets := []
  budgetScopes := []

def sampleName (text : String) (hplain : 47 ∉ utf8 text ∧ 0 ∉ utf8 text)
    (hother : utf8 text ≠ [] ∧ utf8 text ≠ utf8 "." ∧ utf8 text ≠ utf8 "..") : OsName :=
  ⟨utf8 text, hother.1, hplain.1, hplain.2, hother.2.1, hother.2.2⟩

def nested : AssetDirectory where
  entries := [(sampleName "a" (by decide) (by decide),
    .directory [(sampleName "b.png" (by decide) (by decide), .file ⟨[], by decide⟩)])]
  once := by simp [NamedOnce, Entry.NamedOnce]

def flat : AssetDirectory where
  entries := [(sampleName "a\\b.png" (by decide) (by decide), .file ⟨[], by decide⟩)]
  once := by simp [NamedOnce, Entry.NamedOnce]

theorem sample_valid
    : (inspect sampleMachine sampleManifest (some nested.entries)).valid = true
        ∧ (inspect sampleMachine sampleManifest (some flat.entries)).valid = true := by
  decide +kernel

theorem inspection_exact_iff_nested : Exact sampleManifest nested := by
  apply ((inspection_exact_iff sampleMachine sampleManifest).1 nested sample_valid.1).mpr
  constructor
  . intro path content htracks
    obtain ⟨below, rfl, hbelow⟩ := holds_directory.mp htracks.1
    obtain ⟨rfl, -⟩ := holds_file.mp hbelow
    exact ⟨"a/b.png", by decide, by decide⟩
  . intro variant hvariant
    cases hvariant

theorem backslash_is_covered
    : (inspect sampleMachine sampleManifest (some flat.entries)).valid = true ∧ ¬ Exact sampleManifest flat := by
  refine ⟨sample_valid.2, fun h => ?_⟩
  have htracks : Tracks sampleManifest flat [sampleName "a\\b.png" (by decide) (by decide)] ⟨[], by decide⟩ :=
    ⟨.file List.mem_cons_self, by decide +kernel⟩
  rcases h.covered _ _ htracks with ⟨hone, -⟩ | ⟨-, hexcluded⟩
  . cases hone
  . revert hexcluded
    decide

end Samples

end Inspect

end Pliego
