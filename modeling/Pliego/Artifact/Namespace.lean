import Pliego.Artifact.Verify

/-!
The namespace of a set of outputs: what a successful insertion has stored, and two walks that follow the writer's.
-/

namespace Pliego

open Bytes Text

namespace Artifact

open Router (Unicode)

variable {unicode : Unicode} {space space' other : OutputNamespace} {path : PortablePath}
  {owner : String}

namespace OutputNamespace

def withDirectory (space : OutputNamespace) (directory : String × String) : OutputNamespace :=
  { space with
    prefixBytes := space.prefixBytes + (utf8 directory.1).length + (utf8 directory.2).length
    directories := space.directories.insert directory.1 directory.2 }

theorem addDirectory_ok {directory : String × String}
    : addDirectory path space directory = .ok space'
      ↔ space.files.get? directory.1 = none
        ∧ ((space.directories.get? directory.1 = some directory.2 ∧ space' = space)
          ∨ (space.directories.get? directory.1 = none
            ∧ (space.withDirectory directory).prefixBytes ≤ maxNamespacePrefixBytes
            ∧ space' = space.withDirectory directory)) := by
  unfold addDirectory withDirectory
  cases space.files.get? directory.1 with
  | some existing => simp
  | none =>
    cases space.directories.get? directory.1 with
    | some existing =>
      dsimp only
      split
      . next hne => simp [hne]
      . next hsame =>
        rw [ne_eq, not_not] at hsame
        simp [hsame, eq_comm]
    | none =>
      dsimp only
      split
      . next hroom => simp [hroom, eq_comm]
      . next hroom => simp [hroom]

theorem insert_ok
    : space.insert path owner = .ok space'
      ↔ space.components + path.componentKeys.length ≤ maxNamespaceComponents
        ∧ space.files.get? path.collisionKey = none
        ∧ ∃ mid, path.directories.foldlM (addDirectory path) space = .ok mid
          ∧ mid.directories.get? path.collisionKey = none
          ∧ space' = { mid with
              files := mid.files.insert path.collisionKey (path.value, owner)
              components := space.components + path.componentKeys.length } := by
  unfold insert
  dsimp only
  split
  . next hroom =>
    cases space.files.get? path.collisionKey with
    | some existing => simp
    | none =>
      dsimp only
      rw [Except.bind_eq_ok]
      simp only [hroom, true_and]
      constructor
      . rintro ⟨mid, hmid, h⟩
        refine ⟨mid, hmid, ?_⟩
        split at h
        . cases h
        . next hnone =>
          cases h
          exact ⟨hnone, rfl⟩
      . rintro ⟨mid, hmid, hnone, rfl⟩
        refine ⟨mid, hmid, ?_⟩
        rw [hnone]
  . next hroom => simp [hroom]

-- Directories are stored under their keys, and no key is both a file's and a directory's.
structure Sound (unicode : Unicode) (space : OutputNamespace) : Prop where
  keyed : ∀ key spelling, space.directories.get? key = some spelling →
    ∃ parent : PortablePath, parent.Canonical unicode ∧ parent.value = spelling
      ∧ parent.collisionKey = key
  apart : ∀ key, space.directories.get? key ≠ none → space.files.get? key = none

theorem sound_new : new.Sound unicode := by
  constructor
  . intro key spelling h
    cases h
  . intro key h
    exact absurd rfl h

structure Extends (space space' : OutputNamespace) : Prop where
  files : space'.files = space.files
  components : space'.components = space.components
  directories : ∀ key spelling, space.directories.get? key = some spelling →
    space'.directories.get? key = some spelling

theorem Sound.addDirectory (hsound : space.Sound unicode) {directory : String × String}
    (hkeyed : ∃ parent : PortablePath, parent.Canonical unicode ∧ parent.value = directory.2
      ∧ parent.collisionKey = directory.1)
    (h : addDirectory path space directory = .ok space')
    : space'.Sound unicode ∧ space.Extends space'
      ∧ space'.directories.get? directory.1 = some directory.2 := by
  obtain ⟨hfiles, hcase⟩ := addDirectory_ok.mp h
  rcases hcase with ⟨hstored, rfl⟩ | ⟨hnone, -, rfl⟩
  . exact ⟨hsound, ⟨rfl, rfl, fun _ _ h => h⟩, hstored⟩
  . refine ⟨⟨?_, ?_⟩, ⟨rfl, rfl, ?_⟩, ?_⟩
    . intro key spelling hget
      unfold withDirectory at hget
      dsimp only at hget
      rw [SortedMap.get?_insert] at hget
      split at hget
      . next hsame =>
        cases hget
        rw [hsame]
        exact hkeyed
      . exact hsound.keyed key spelling hget
    . intro key hget
      unfold withDirectory at hget
      dsimp only at hget
      rw [SortedMap.get?_insert] at hget
      split at hget
      . next hsame =>
        rw [hsame]
        exact hfiles
      . exact hsound.apart key hget
    . intro key spelling hget
      unfold withDirectory
      dsimp only
      rw [SortedMap.get?_insert]
      split
      . next hsame =>
        rw [hsame, hnone] at hget
        cases hget
      . exact hget
    . unfold withDirectory
      dsimp only
      rw [SortedMap.get?_insert, if_pos rfl]

theorem Extends.trans {a b c : OutputNamespace} (h : a.Extends b) (h' : b.Extends c) : a.Extends c :=
  ⟨h'.files.trans h.files, h'.components.trans h.components,
    fun key spelling hget => h'.directories key spelling (h.directories key spelling hget)⟩

theorem Sound.addDirectories (hsound : space.Sound unicode) {directories : List (String × String)}
    (hkeyed : ∀ directory ∈ directories, ∃ parent : PortablePath, parent.Canonical unicode
      ∧ parent.value = directory.2 ∧ parent.collisionKey = directory.1)
    (h : directories.foldlM (OutputNamespace.addDirectory path) space = .ok space')
    : space'.Sound unicode ∧ space.Extends space'
      ∧ ∀ directory ∈ directories, space'.directories.get? directory.1 = some directory.2 := by
  induction directories generalizing space with
  | nil =>
    cases h
    exact ⟨hsound, ⟨rfl, rfl, fun _ _ h => h⟩, fun _ h => absurd h List.not_mem_nil⟩
  | cons directory rest ih =>
    rw [List.foldlM_cons, Except.bind_eq_ok] at h
    obtain ⟨next, hnext, h⟩ := h
    obtain ⟨hnextSound, hextends, hstored⟩ :=
      hsound.addDirectory (hkeyed directory List.mem_cons_self) hnext
    obtain ⟨hlast, hextends', hrest⟩ :=
      ih hnextSound (fun other hother => hkeyed other (List.mem_cons_of_mem _ hother)) h
    refine ⟨hlast, hextends.trans hextends', List.forall_mem_cons.mpr ⟨?_, hrest⟩⟩
    exact hextends'.directories _ _ hstored

theorem keyed_directories (hunicode : unicode.KeepsSlashes) (hpath : path.Canonical unicode)
    : ∀ directory ∈ path.directories, ∃ parent : PortablePath, parent.Canonical unicode
      ∧ parent.value = directory.2 ∧ parent.collisionKey = directory.1 :=
  fun _ hdirectory => hpath.directory hunicode hdirectory

theorem Sound.insert (hunicode : unicode.KeepsSlashes) (hsound : space.Sound unicode)
    (hpath : path.Canonical unicode) (h : space.insert path owner = .ok space')
    : space'.Sound unicode
      ∧ (∀ key spelling, space.directories.get? key = some spelling →
          space'.directories.get? key = some spelling)
      ∧ (∀ directory ∈ path.directories, space'.directories.get? directory.1 = some directory.2) := by
  obtain ⟨-, -, mid, hmid, hnone, rfl⟩ := insert_ok.mp h
  obtain ⟨hmidSound, hextends, hstored⟩ :=
    hsound.addDirectories (keyed_directories hunicode hpath) hmid
  refine ⟨⟨hmidSound.keyed, ?_⟩, hextends.directories, hstored⟩
  intro key hget
  dsimp only at hget ⊢
  rw [SortedMap.get?_insert]
  split
  . next hsame =>
    rw [hsame] at hget
    exact absurd hnone hget
  . exact hmidSound.apart key hget

-- A namespace that holds the same directories and no more files.
structure Follows (space other : OutputNamespace) : Prop where
  directories : other.directories = space.directories
  prefixBytes : other.prefixBytes = space.prefixBytes
  components : other.components ≤ space.components
  files : ∀ key, space.files.get? key = none → other.files.get? key = none

theorem Follows.addDirectory (hfollows : space.Follows other) {directory : String × String}
    (h : addDirectory path space directory = .ok space')
    : ∃ other', addDirectory path other directory = .ok other' ∧ space'.Follows other' := by
  obtain ⟨hfiles, hcase⟩ := addDirectory_ok.mp h
  rcases hcase with ⟨hstored, rfl⟩ | ⟨hnone, hroom, rfl⟩
  . refine ⟨other, addDirectory_ok.mpr ⟨hfollows.files _ hfiles, .inl ⟨?_, rfl⟩⟩, hfollows⟩
    rw [hfollows.directories]
    exact hstored
  . refine ⟨other.withDirectory directory,
      addDirectory_ok.mpr ⟨hfollows.files _ hfiles, .inr ⟨?_, ?_, rfl⟩⟩, ?_⟩
    . rw [hfollows.directories]
      exact hnone
    . unfold withDirectory at hroom ⊢
      rw [hfollows.prefixBytes]
      exact hroom
    . refine ⟨?_, ?_, hfollows.components, hfollows.files⟩
      . unfold withDirectory
        dsimp only
        rw [hfollows.directories]
      . unfold withDirectory
        dsimp only
        rw [hfollows.prefixBytes]

theorem Follows.insert (hfollows : space.Follows other) {owner' : String}
    (h : space.insert path owner = .ok space')
    : ∃ other', other.insert path owner' = .ok other' ∧ space'.Follows other' := by
  obtain ⟨hroom, hfiles, mid, hmid, hnone, rfl⟩ := insert_ok.mp h
  have hstep : ∀ directory ∈ path.directories, ∀ b c b', Follows b c →
      OutputNamespace.addDirectory path b directory = .ok b' →
      ∃ c', OutputNamespace.addDirectory path c directory = .ok c' ∧ Follows b' c' :=
    fun directory _ b c b' hrel hok => hrel.addDirectory hok
  obtain ⟨mid', hmid', hrel⟩ := Except.foldlM_sim hstep hfollows hmid
  have hcomponents := hfollows.components
  refine ⟨_, insert_ok.mpr ⟨by omega, hfollows.files _ hfiles, mid', hmid', ?_, rfl⟩, ?_⟩
  . rw [hrel.directories]
    exact hnone
  . refine ⟨hrel.directories, hrel.prefixBytes, ?_, ?_⟩
    . dsimp only
      omega
    . intro key hkey
      dsimp only at hkey ⊢
      rw [SortedMap.get?_insert] at hkey ⊢
      split at hkey
      . cases hkey
      . next hne =>
        rw [if_neg hne]
        exact hrel.files key hkey

end OutputNamespace

section Expected

variable {expected expected' : ExpectedDirectories} {all : List String}

theorem SortedSet.len_le {set : SortedSet String} (h : ∀ value, set.contains value = true → value ∈ all)
    : set.len ≤ all.length := by
  have hnodup : set.keys.Nodup := (SortedMap.keys_sorted set).imp (fun hlt => ne_of_lt hlt)
  have hsub : set.keys ⊆ all := fun value hvalue => h value (SortedSet.mem_keys_iff.mp hvalue)
  have hlength := (hnodup.subperm hsub).length_le
  unfold SortedMap.keys at hlength
  rw [List.length_map] at hlength
  exact hlength

structure Mirrors (all : List String) (space : OutputNamespace) (expected : ExpectedDirectories)
    : Prop where
  directories : ∀ spelling, expected.directories.contains spelling = true
    ↔ ∃ key, space.directories.get? key = some spelling
  prefixBytes : expected.prefixBytes = space.prefixBytes
  listed : ∀ spelling, expected.directories.contains spelling = true → spelling ∈ all

def ExpectedDirectories.store (expected : ExpectedDirectories) (directory : String × String)
    : ExpectedDirectories :=
  { expected with
    prefixBytes := expected.prefixBytes + (utf8 directory.2).length + (utf8 directory.1).length
    directories := expected.directories.extend [directory.2] }

theorem addExpectedDirectory_ok {stem : String} (h : storeExpected unicode expected stem = .ok expected')
    (hlen : expected'.directories.len ≤ maxNamespaceComponents)
    : addExpectedDirectory unicode expected stem = .ok expected' := by
  unfold addExpectedDirectory
  rw [Except.bind_eq_ok]
  refine ⟨expected', h, ?_⟩
  rw [Except.bind_unit_eq_ok, ensure_ok, decide_eq_true_eq]
  exact ⟨hlen, rfl⟩

theorem storeExpected_of {parent : PortablePath} (hparent : parent.Canonical unicode)
    (hfresh : ¬ expected.directories.contains parent.value = true)
    (hroom : (expected.store (parent.collisionKey, parent.value)).prefixBytes
      ≤ maxNamespacePrefixBytes)
    : storeExpected unicode expected parent.value
        = .ok (expected.store (parent.collisionKey, parent.value)) := by
  unfold storeExpected
  rw [if_neg hfresh, Except.bind_eq_ok]
  refine ⟨parent, hparent.parse, ?_⟩
  dsimp only
  rw [Except.bind_unit_eq_ok, ensure_ok, decide_eq_true_eq]
  exact ⟨hroom, rfl⟩

theorem Mirrors.addDirectory (hmirrors : Mirrors all space expected) (hsound : space.Sound unicode)
    (hall : all.length ≤ maxNamespaceComponents) {directory : String × String}
    (hlisted : directory.2 ∈ all) {parent : PortablePath} (hparent : parent.Canonical unicode)
    (hvalue : parent.value = directory.2) (hkey : parent.collisionKey = directory.1)
    (h : OutputNamespace.addDirectory path space directory = .ok space')
    : ∃ expected', addExpectedDirectory unicode expected directory.2 = .ok expected'
      ∧ Mirrors all space' expected' ∧ expected'.components = expected.components := by
  obtain ⟨-, hcase⟩ := OutputNamespace.addDirectory_ok.mp h
  -- a stored spelling is stored under its own key
  have hown : ∀ key, space.directories.get? key = some directory.2 → key = directory.1 := by
    intro key hget
    obtain ⟨found, hfound, hspelling, rfl⟩ := hsound.keyed key _ hget
    have hsame : found = parent := by
      have hparse := hfound.parse
      rw [hspelling, ← hvalue, hparent.parse] at hparse
      exact (Except.ok.inj hparse).symm
    rw [hsame, hkey]
  rcases hcase with ⟨hstored, rfl⟩ | ⟨hnone, hroom, rfl⟩
  . have hcontains := (hmirrors.directories directory.2).mpr ⟨_, hstored⟩
    refine ⟨expected, ?_, hmirrors, rfl⟩
    apply addExpectedDirectory_ok
    . unfold storeExpected
      rw [if_pos hcontains]
    . exact (SortedSet.len_le hmirrors.listed).trans hall
  . have hfresh : ¬ expected.directories.contains directory.2 = true := by
      rw [hmirrors.directories]
      rintro ⟨key, hget⟩
      rw [hown key hget, hnone] at hget
      cases hget
    have hnext : Mirrors all (space.withDirectory directory) (expected.store directory) := by
      unfold ExpectedDirectories.store
      refine ⟨?_, ?_, ?_⟩
      . intro spelling
        dsimp only
        rw [SortedSet.contains_extend, List.mem_singleton, hmirrors.directories]
        unfold OutputNamespace.withDirectory
        dsimp only
        constructor
        . rintro (⟨key, hget⟩ | rfl)
          . refine ⟨key, ?_⟩
            rw [SortedMap.get?_insert, if_neg]
            . exact hget
            . rintro rfl
              rw [hnone] at hget
              cases hget
          . exact ⟨directory.1, by rw [SortedMap.get?_insert, if_pos rfl]⟩
        . rintro ⟨key, hget⟩
          rw [SortedMap.get?_insert] at hget
          split at hget
          . cases hget
            exact .inr rfl
          . exact .inl ⟨key, hget⟩
      . unfold OutputNamespace.withDirectory
        dsimp only
        rw [hmirrors.prefixBytes]
        omega
      . intro spelling hcontains
        dsimp only at hcontains
        rw [SortedSet.contains_extend, List.mem_singleton] at hcontains
        cases hcontains with
        | inl h => exact hmirrors.listed spelling h
        | inr h => exact h ▸ hlisted
    refine ⟨expected.store directory, ?_, hnext, rfl⟩
    apply addExpectedDirectory_ok
    . obtain ⟨key, spelling⟩ := directory
      dsimp only at hvalue hkey
      subst hvalue hkey
      exact storeExpected_of hparent hfresh (hnext.prefixBytes.trans_le hroom)
    . exact (SortedSet.len_le hnext.listed).trans hall

theorem Mirrors.addDirectories (hmirrors : Mirrors all space expected)
    (hsound : space.Sound unicode) (hall : all.length ≤ maxNamespaceComponents)
    {directories : List (String × String)} (hlisted : ∀ directory ∈ directories, directory.2 ∈ all)
    (hkeyed : ∀ directory ∈ directories, ∃ parent : PortablePath, parent.Canonical unicode
      ∧ parent.value = directory.2 ∧ parent.collisionKey = directory.1)
    (h : directories.foldlM (OutputNamespace.addDirectory path) space = .ok space')
    : ∃ expected', (directories.map Prod.snd).foldlM (addExpectedDirectory unicode) expected
        = .ok expected'
      ∧ Mirrors all space' expected' ∧ expected'.components = expected.components := by
  induction directories generalizing space expected with
  | nil =>
    cases h
    exact ⟨expected, rfl, hmirrors, rfl⟩
  | cons directory rest ih =>
    rw [List.foldlM_cons, Except.bind_eq_ok] at h
    obtain ⟨next, hnext, h⟩ := h
    obtain ⟨hkey, hkeys⟩ := List.forall_mem_cons.mp hkeyed
    obtain ⟨hfirst, hlater⟩ := List.forall_mem_cons.mp hlisted
    obtain ⟨parent, hparent, hvalue, hcollision⟩ := hkey
    obtain ⟨mid, hmid, hmidMirrors, hcomponents⟩ :=
      hmirrors.addDirectory hsound hall hfirst hparent hvalue hcollision hnext
    obtain ⟨hnextSound, -, -⟩ := hsound.addDirectory ⟨parent, hparent, hvalue, hcollision⟩ hnext
    obtain ⟨last, hlast, hlastMirrors, hsame⟩ := ih hmidMirrors hnextSound hlater hkeys h
    refine ⟨last, ?_, hlastMirrors, hsame.trans hcomponents⟩
    rw [List.map_cons, List.foldlM_cons, hmid]
    exact hlast

theorem Mirrors.addPath (hmirrors : Mirrors all space expected) (hunicode : unicode.KeepsSlashes)
    (hsound : space.Sound unicode) (hall : all.length ≤ maxNamespaceComponents)
    (hcomponents : expected.components ≤ space.components) (hpath : path.Canonical unicode)
    (hlisted : ∀ directory ∈ path.directories, directory.2 ∈ all) (h : space.insert path owner = .ok space')
    : ∃ expected', addExpectedPath unicode expected path.value = .ok expected'
      ∧ Mirrors all space' expected' ∧ expected'.components ≤ space'.components := by
  obtain ⟨hroom, -, mid, hmid, -, rfl⟩ := OutputNamespace.insert_ok.mp h
  have hcount : path.componentKeys.length = path.components.length := by
    rw [hpath.keys, List.length_map]
  have hstart : Mirrors all space
      { expected with components := expected.components + path.components.length } :=
    ⟨hmirrors.directories, hmirrors.prefixBytes, hmirrors.listed⟩
  obtain ⟨last, hlast, hlastMirrors, hsame⟩ := hstart.addDirectories hsound hall hlisted
    (OutputNamespace.keyed_directories hunicode hpath) hmid
  refine ⟨last, ?_, ⟨hlastMirrors.directories, hlastMirrors.prefixBytes, hlastMirrors.listed⟩, ?_⟩
  . unfold addExpectedPath
    rw [hpath.parse]
    dsimp only [bind, Except.bind]
    rw [ensure_ok.mpr (decide_eq_true (by omega))]
    exact hlast
  . rw [hsame]
    dsimp only
    omega

end Expected

end Artifact

end Pliego
