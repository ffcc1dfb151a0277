import Mathlib.Algebra.BigOperators.Group.Finset.Basic
import Mathlib.Algebra.Order.BigOperators.Group.Finset
import Pliego.Artifact.Namespace

/-!
Which sets of paths share one namespace.
-/

namespace Pliego

open Bytes Text

namespace Artifact

open Router (Unicode)

variable {unicode : Unicode} {space space' mid : OutputNamespace} {path other : PortablePath} {owner : String}
  {directory : String × String} {stored : Finset (String × String)} {paths : List PortablePath}

namespace PortablePath

def Parsed (unicode : Unicode) (path : PortablePath) : Prop := ∃ value, parse unicode value = .ok path

theorem Parsed.keys (h : path.Parsed unicode) : path.componentKeys = path.components.map unicode.portableCaseKey := by
  obtain ⟨value, h⟩ := h
  rw [(parse_ok.mp h).2.2.2.2]
  rfl

theorem Parsed.key (h : path.Parsed unicode) : path.collisionKey = join '/' path.componentKeys := by
  obtain ⟨value, h⟩ := h
  rw [(parse_ok.mp h).2.2.2.2]

theorem Parsed.length (h : path.Parsed unicode) : path.componentKeys.length = path.components.length := by
  rw [h.keys, List.length_map]

theorem length_join_take {parts : List String} {n m : Nat} (hpos : 0 < n) (hn : n < m) (hm : m ≤ parts.length)
    : (utf8 (join '/' (parts.take n))).length < (utf8 (join '/' (parts.take m))).length := by
  have hne : ∀ k, 0 < k → parts.take k ≠ [] := by
    intro k hk hnil
    rw [List.take_eq_nil_iff] at hnil
    cases hnil with
    | inl hzero => omega
    | inr hnil =>
      rw [hnil, List.length_nil] at hm
      omega
  have hshort := length_utf8_join (c := '/') (by decide) (hne n hpos)
  have hlong := length_utf8_join (c := '/') (by decide) (hne m (by omega))
  have htaken : parts.take m = parts.take n ++ (parts.drop n).take (m - n) := by
    rw [← List.take_add]
    congr 1
    omega
  rw [htaken, List.map_append, List.sum_append, ← hshort] at hlong
  have hrest : 0 < (((parts.drop n).take (m - n)).map (fun part => (utf8 part).length + 1)).sum := by
    cases hrest : (parts.drop n).take (m - n) with
    | nil =>
      rw [List.take_eq_nil_iff, List.drop_eq_nil_iff] at hrest
      omega
    | cons part rest =>
      rw [List.map_cons, List.sum_cons]
      omega
  rw [← htaken] at hlong
  omega

theorem Parsed.own_key (h : path.Parsed unicode) (hdirectory : directory ∈ path.directories)
    : directory.1 ≠ path.collisionKey := by
  obtain ⟨n, hpos, hn, rfl⟩ := mem_directories.mp hdirectory
  rw [← h.length] at hn
  have hlength := length_join_take hpos hn le_rfl
  rw [List.take_length, ← h.key] at hlength
  intro hsame
  dsimp only at hsame
  rw [hsame] at hlength
  exact lt_irrefl _ hlength

theorem Parsed.own_spelling (h : path.Parsed unicode) {d d' : String × String} (hd : d ∈ path.directories)
    (hd' : d' ∈ path.directories) (hkey : d.1 = d'.1)
    : d.2 = d'.2 := by
  obtain ⟨n, hpos, hn, rfl⟩ := mem_directories.mp hd
  obtain ⟨m, hpos', hm, rfl⟩ := mem_directories.mp hd'
  rw [← h.length] at hn hm
  dsimp only at hkey ⊢
  rcases lt_trichotomy n m with hlt | rfl | hlt
  . have hlength := length_join_take hpos hlt hm.le
    rw [hkey] at hlength
    exact absurd hlength (lt_irrefl _)
  . rfl
  . have hlength := length_join_take hpos' hlt hn.le
    rw [hkey] at hlength
    exact absurd hlength (lt_irrefl _)

end PortablePath

structure Compatible (a b : PortablePath) : Prop where
  keys : a.collisionKey ≠ b.collisionKey
  below : ∀ directory ∈ b.directories, directory.1 ≠ a.collisionKey
  above : ∀ directory ∈ a.directories, directory.1 ≠ b.collisionKey
  spelled : ∀ d ∈ a.directories, ∀ d' ∈ b.directories, d.1 = d'.1 → d.2 = d'.2

theorem Compatible.symm {a b : PortablePath} (h : Compatible a b) : Compatible b a :=
  ⟨h.keys.symm, h.above, h.below, fun d hd d' hd' hkey => (h.spelled d' hd' d hd hkey.symm).symm⟩

def directorySet (paths : List PortablePath) : Finset (String × String) :=
  (paths.flatMap PortablePath.directories).toFinset

def storedBytes (directory : String × String) : Nat :=
  (utf8 directory.1).length + (utf8 directory.2).length

def impliedBytes (paths : List PortablePath) : Nat := ∑ directory ∈ directorySet paths, storedBytes directory

def totalComponents (paths : List PortablePath) : Nat :=
  (paths.map (fun path => path.componentKeys.length)).sum

theorem mem_directorySet : directory ∈ directorySet paths ↔ ∃ path ∈ paths, directory ∈ path.directories := by
  unfold directorySet
  rw [List.mem_toFinset, List.mem_flatMap]

theorem directorySet_append_singleton
    : directorySet (paths ++ [path]) = directorySet paths ∪ path.directories.toFinset := by
  unfold directorySet
  rw [List.flatMap_append, List.toFinset_append, List.flatMap_singleton]

namespace OutputNamespace

structure Stores (space : OutputNamespace) (stored : Finset (String × String)) : Prop where
  directories : ∀ key spelling, space.directories.get? key = some spelling ↔ (key, spelling) ∈ stored
  prefixBytes : space.prefixBytes = ∑ directory ∈ stored, storedBytes directory

section

variable (hstores : space.Stores stored)

include hstores

theorem Stores.get?_eq_none {key : String}
    : space.directories.get? key = none ↔ ∀ directory ∈ stored, directory.1 ≠ key := by
  constructor
  . intro hnone directory hdirectory hkey
    rw [← hkey, (hstores.directories directory.1 directory.2).mpr hdirectory] at hnone
    cases hnone
  . intro hne
    cases hget : space.directories.get? key with
    | none => rfl
    | some spelling => exact absurd rfl (hne _ ((hstores.directories key spelling).mp hget))

theorem Stores.spelled {d d' : String × String} (hd : d ∈ stored) (hd' : d' ∈ stored) (hkey : d.1 = d'.1)
    : d.2 = d'.2 := by
  have hget := (hstores.directories d.1 d.2).mpr hd
  have hget' := (hstores.directories d'.1 d'.2).mpr hd'
  rw [hkey, hget'] at hget
  exact (Option.some.inj hget).symm

theorem Stores.withDirectory (hnone : space.directories.get? directory.1 = none)
    : (space.withDirectory directory).Stores (Insert.insert directory stored) := by
  have hfresh : directory ∉ stored := fun hmem => hstores.get?_eq_none.mp hnone directory hmem rfl
  unfold OutputNamespace.withDirectory
  constructor
  . intro key spelling
    dsimp only
    rw [SortedMap.get?_insert, Finset.mem_insert]
    split
    . next hsame =>
      rw [hsame, Option.some.injEq, Prod.ext_iff]
      constructor
      . exact fun hspelling => .inl ⟨rfl, hspelling.symm⟩
      . rintro (⟨-, hspelling⟩ | hmem)
        . exact hspelling.symm
        . exact absurd rfl (hstores.get?_eq_none.mp hnone (directory.1, spelling) hmem)
    . next hother =>
      rw [hstores.directories]
      constructor
      . exact .inr
      . rintro (rfl | hmem)
        . exact absurd rfl hother
        . exact hmem
  . dsimp only
    rw [Finset.sum_insert hfresh, hstores.prefixBytes]
    unfold storedBytes
    omega

theorem Stores.addDirectory (h : addDirectory path space directory = .ok space')
    : space'.Stores (Insert.insert directory stored) := by
  obtain ⟨-, hcase⟩ := addDirectory_ok.mp h
  rcases hcase with ⟨hget, rfl⟩ | ⟨hnone, -, rfl⟩
  . rw [Finset.insert_eq_of_mem ((hstores.directories directory.1 directory.2).mp hget)]
    exact hstores
  . exact hstores.withDirectory hnone

theorem exists_addDirectory (hfiles : space.files.get? directory.1 = none)
    (hspelled : ∀ d ∈ stored, d.1 = directory.1 → d.2 = directory.2)
    (hroom : ∑ d ∈ Insert.insert directory stored, storedBytes d ≤ maxNamespacePrefixBytes)
    : ∃ space', addDirectory path space directory = .ok space' := by
  cases hget : space.directories.get? directory.1 with
  | some spelling =>
    have hsame := hspelled _ ((hstores.directories directory.1 spelling).mp hget) rfl
    dsimp only at hsame
    rw [hsame] at hget
    exact ⟨space, addDirectory_ok.mpr ⟨hfiles, .inl ⟨hget, rfl⟩⟩⟩
  | none =>
    refine ⟨space.withDirectory directory, addDirectory_ok.mpr ⟨hfiles, .inr ⟨hget, ?_, rfl⟩⟩⟩
    rw [(hstores.withDirectory hget).prefixBytes]
    exact hroom

end

theorem addDirectory_kept (h : addDirectory path space directory = .ok space')
    : space'.files = space.files ∧ space'.components = space.components := by
  obtain ⟨-, hcase⟩ := addDirectory_ok.mp h
  rcases hcase with ⟨-, rfl⟩ | ⟨-, -, rfl⟩
  . exact ⟨rfl, rfl⟩
  . exact ⟨rfl, rfl⟩

theorem Stores.addDirectories (hstores : space.Stores stored) {directories : List (String × String)}
    (h : directories.foldlM (OutputNamespace.addDirectory path) space = .ok space')
    : space'.Stores (stored ∪ directories.toFinset) ∧ space'.files = space.files
      ∧ space'.components = space.components ∧ ∀ d ∈ directories, space.files.get? d.1 = none := by
  induction directories generalizing space stored with
  | nil =>
    cases h
    rw [List.toFinset_nil, Finset.union_empty]
    exact ⟨hstores, rfl, rfl, fun _ hd => absurd hd List.not_mem_nil⟩
  | cons directory rest ih =>
    rw [List.foldlM_cons, Except.bind_eq_ok] at h
    obtain ⟨next, hnext, h⟩ := h
    obtain ⟨hfiles, hcomponents⟩ := addDirectory_kept hnext
    obtain ⟨hrest, hrestFiles, hrestComponents, hclear⟩ := ih (hstores.addDirectory hnext) h
    rw [List.toFinset_cons, Finset.union_insert, ← Finset.insert_union]
    refine ⟨hrest, hrestFiles.trans hfiles, hrestComponents.trans hcomponents, List.forall_mem_cons.mpr ⟨?_, ?_⟩⟩
    . exact (addDirectory_ok.mp hnext).1
    . rw [← hfiles]
      exact hclear

theorem exists_addDirectories (hstores : space.Stores stored) {directories : List (String × String)}
    (hfiles : ∀ d ∈ directories, space.files.get? d.1 = none)
    (hspelled : ∀ d ∈ stored ∪ directories.toFinset, ∀ d' ∈ directories, d.1 = d'.1 → d.2 = d'.2)
    (hroom : ∑ d ∈ stored ∪ directories.toFinset, storedBytes d ≤ maxNamespacePrefixBytes)
    : ∃ space', directories.foldlM (OutputNamespace.addDirectory path) space = .ok space' := by
  induction directories generalizing space stored with
  | nil => exact ⟨space, rfl⟩
  | cons directory rest ih =>
    rw [List.toFinset_cons, Finset.union_insert, ← Finset.insert_union] at hspelled hroom
    obtain ⟨hfile, hfiles⟩ := List.forall_mem_cons.mp hfiles
    have hfirst : ∑ d ∈ Insert.insert directory stored, storedBytes d ≤ maxNamespacePrefixBytes :=
      (Finset.sum_le_sum_of_subset Finset.subset_union_left).trans hroom
    obtain ⟨next, hnext⟩ := @exists_addDirectory _ path _ _ hstores hfile
      (fun d hd => hspelled d (Finset.mem_union_left _ (Finset.mem_insert_of_mem hd)) directory List.mem_cons_self) hfirst
    obtain ⟨last, hlast⟩ := ih (hstores.addDirectory hnext)
      (fun d hd => by rw [(addDirectory_kept hnext).1]; exact hfiles d hd)
      (fun d hd d' hd' => hspelled d hd d' (List.mem_cons_of_mem _ hd')) hroom
    refine ⟨last, ?_⟩
    rw [List.foldlM_cons, hnext]
    exact hlast

structure Took (space : OutputNamespace) (paths : List PortablePath) : Prop where
  files : ∀ key, space.files.get? key = none ↔ ∀ path ∈ paths, path.collisionKey ≠ key
  stores : space.Stores (directorySet paths)
  components : space.components = totalComponents paths

theorem took_new : new.Took [] := by
  refine ⟨?_, ⟨?_, rfl⟩, rfl⟩
  . intro key
    exact iff_of_true rfl (fun _ hpath => absurd hpath List.not_mem_nil)
  . intro key spelling
    refine iff_of_false (fun h => by cases h) ?_
    rw [mem_directorySet]
    rintro ⟨path, hpath, -⟩
    exact absurd hpath List.not_mem_nil

theorem totalComponents_append (paths others : List PortablePath)
    : totalComponents (paths ++ others) = totalComponents paths + totalComponents others := by
  unfold totalComponents
  rw [List.map_append, List.sum_append]

theorem totalComponents_singleton : totalComponents [path] = path.componentKeys.length := by
  unfold totalComponents
  rw [List.map_singleton, List.sum_singleton]

theorem Took.insert (htook : space.Took paths) (h : space.insert path owner = .ok space')
    : space'.Took (paths ++ [path]) := by
  obtain ⟨-, -, mid, hmid, -, rfl⟩ := insert_ok.mp h
  obtain ⟨hstores, hfiles, -, -⟩ := htook.stores.addDirectories hmid
  refine ⟨?_, ?_, ?_⟩
  . intro key
    dsimp only
    rw [SortedMap.get?_insert, List.forall_mem_append, List.forall_mem_singleton, hfiles, ← htook.files key]
    split
    . next hsame => exact iff_of_false (by rintro ⟨⟩) (fun h => h.2 hsame.symm)
    . next hother => exact ⟨fun hnone => ⟨hnone, Ne.symm hother⟩, fun h => h.1⟩
  . rw [directorySet_append_singleton]
    exact ⟨hstores.directories, hstores.prefixBytes⟩
  . rw [totalComponents_append, totalComponents_singleton, ← htook.components]

theorem Took.compatible (htook : space.Took paths) (h : space.insert path owner = .ok space')
    : ∀ earlier ∈ paths, Compatible earlier path := by
  obtain ⟨-, hfile, mid, hmid, hnone, rfl⟩ := insert_ok.mp h
  obtain ⟨hstores, -, -, hclear⟩ := htook.stores.addDirectories hmid
  intro earlier hearlier
  have hstored : ∀ d ∈ earlier.directories, d ∈ directorySet paths ∪ path.directories.toFinset :=
    fun d hd => Finset.mem_union_left _ (mem_directorySet.mpr ⟨earlier, hearlier, hd⟩)
  refine ⟨?_, ?_, ?_, ?_⟩
  . exact (htook.files _).mp hfile earlier hearlier
  . intro d hd
    exact ((htook.files d.1).mp (hclear d hd) earlier hearlier).symm
  . intro d hd
    exact hstores.get?_eq_none.mp hnone d (hstored d hd)
  . intro d hd d' hd'
    exact hstores.spelled (hstored d hd) (Finset.mem_union_right _ (List.mem_toFinset.mpr hd'))

theorem Took.accepts (htook : space.Took paths) (hpath : path.Parsed unicode)
    (hcompatible : ∀ earlier ∈ paths, Compatible earlier path)
    (hcomponents : totalComponents (paths ++ [path]) ≤ maxNamespaceComponents)
    (hbytes : impliedBytes (paths ++ [path]) ≤ maxNamespacePrefixBytes)
    : ∃ space', space.insert path owner = .ok space' := by
  unfold impliedBytes at hbytes
  rw [directorySet_append_singleton] at hbytes
  rw [totalComponents_append, totalComponents_singleton, ← htook.components] at hcomponents
  have hmid : ∃ mid, path.directories.foldlM (OutputNamespace.addDirectory path) space = .ok mid := by
    apply exists_addDirectories htook.stores
    . intro d hd
      rw [htook.files]
      exact fun earlier hearlier => ((hcompatible earlier hearlier).below d hd).symm
    . intro d hd d' hd'
      rw [Finset.mem_union, mem_directorySet, List.mem_toFinset] at hd
      cases hd with
      | inl hd =>
        obtain ⟨earlier, hearlier, hd⟩ := hd
        exact (hcompatible earlier hearlier).spelled d hd d' hd'
      | inr hd => exact hpath.own_spelling hd hd'
    . exact hbytes
  obtain ⟨mid, hmid⟩ := hmid
  refine ⟨_, insert_ok.mpr ⟨hcomponents, ?_, mid, hmid, ?_, rfl⟩⟩
  . rw [htook.files]
    exact fun earlier hearlier => (hcompatible earlier hearlier).keys
  . rw [(htook.stores.addDirectories hmid).1.get?_eq_none]
    intro d hd
    rw [Finset.mem_union, mem_directorySet, List.mem_toFinset] at hd
    cases hd with
    | inl hd =>
      obtain ⟨earlier, hearlier, hd⟩ := hd
      exact (hcompatible earlier hearlier).above d hd
    | inr hd => exact hpath.own_key hd

def insertAll (space : OutputNamespace) (entries : List (PortablePath × String))
    : Except ArtifactError OutputNamespace :=
  entries.foldlM (fun space entry => space.insert entry.1 entry.2) space

theorem Took.insertAll (htook : space.Took paths) (hpairwise : paths.Pairwise Compatible)
    {entries : List (PortablePath × String)} (h : space.insertAll entries = .ok space')
    : (paths ++ entries.map Prod.fst).Pairwise Compatible := by
  induction entries generalizing space paths with
  | nil =>
    rw [List.map_nil, List.append_nil]
    exact hpairwise
  | cons entry rest ih =>
    unfold OutputNamespace.insertAll at h
    rw [List.foldlM_cons, Except.bind_eq_ok] at h
    obtain ⟨next, hnext, h⟩ := h
    rw [List.map_cons, List.append_cons]
    apply ih (htook.insert hnext) _ h
    rw [List.pairwise_append]
    refine ⟨hpairwise, List.pairwise_singleton _ _, ?_⟩
    intro earlier hearlier last hlast
    rw [List.mem_singleton] at hlast
    rw [hlast]
    exact htook.compatible hnext earlier hearlier

theorem directorySet_mono {shorter longer : List PortablePath} (h : ∀ path ∈ shorter, path ∈ longer)
    : directorySet shorter ⊆ directorySet longer := by
  intro directory hdirectory
  rw [mem_directorySet] at hdirectory ⊢
  obtain ⟨path, hpath, hmem⟩ := hdirectory
  exact ⟨path, h path hpath, hmem⟩

theorem Took.exists_insertAll (htook : space.Took paths) {entries : List (PortablePath × String)}
    (hparsed : ∀ entry ∈ entries, entry.1.Parsed unicode)
    (hpairwise : (paths ++ entries.map Prod.fst).Pairwise Compatible)
    (hcomponents : totalComponents (paths ++ entries.map Prod.fst) ≤ maxNamespaceComponents)
    (hbytes : impliedBytes (paths ++ entries.map Prod.fst) ≤ maxNamespacePrefixBytes)
    : ∃ space', space.insertAll entries = .ok space' := by
  induction entries generalizing space paths with
  | nil => exact ⟨space, rfl⟩
  | cons entry rest ih =>
    rw [List.map_cons, List.append_cons] at hpairwise hcomponents hbytes
    obtain ⟨hfirst, hparsed⟩ := List.forall_mem_cons.mp hparsed
    have hnext : ∃ next, space.insert entry.1 entry.2 = .ok next := by
      apply htook.accepts hfirst
      . have hbefore := (List.pairwise_append.mp hpairwise).1
        rw [List.pairwise_append] at hbefore
        exact fun earlier hearlier => hbefore.2.2 earlier hearlier entry.1 (List.mem_singleton_self _)
      . rw [totalComponents_append (paths ++ [entry.1])] at hcomponents
        exact (Nat.le_add_right _ _).trans hcomponents
      . exact (Finset.sum_le_sum_of_subset (directorySet_mono (fun _ hmem => List.mem_append_left _ hmem))).trans hbytes
    obtain ⟨next, hnext⟩ := hnext
    obtain ⟨last, hlast⟩ := ih (htook.insert hnext) hparsed hpairwise hcomponents hbytes
    refine ⟨last, ?_⟩
    unfold OutputNamespace.insertAll
    rw [List.foldlM_cons, hnext]
    exact hlast

-- For paths within the budgets, a namespace takes them all just when they are compatible in pairs, in any order.
theorem insertAll_iff_compatible {entries : List (PortablePath × String)}
    (hparsed : ∀ entry ∈ entries, entry.1.Parsed unicode)
    (hcomponents : totalComponents (entries.map Prod.fst) ≤ maxNamespaceComponents)
    (hbytes : impliedBytes (entries.map Prod.fst) ≤ maxNamespacePrefixBytes)
    : ((∃ space, new.insertAll entries = .ok space) ↔ (entries.map Prod.fst).Pairwise Compatible)
      ∧ ∀ others, entries.Perm others →
        ((∃ space, new.insertAll others = .ok space) ↔ ∃ space, new.insertAll entries = .ok space) := by
  have haccepts : ∀ others, entries.Perm others →
      ((∃ space, new.insertAll others = .ok space) ↔ (others.map Prod.fst).Pairwise Compatible) := by
    intro others hperm
    have hpaths : (entries.map Prod.fst).Perm (others.map Prod.fst) := hperm.map _
    constructor
    . rintro ⟨space, hspace⟩
      exact took_new.insertAll List.Pairwise.nil hspace
    . intro hpairwise
      apply took_new.exists_insertAll
      . exact fun entry hentry => hparsed entry (hperm.mem_iff.mpr hentry)
      . exact hpairwise
      . unfold totalComponents at hcomponents ⊢
        rw [List.nil_append, ← (hpaths.map _).sum_eq]
        exact hcomponents
      . apply le_trans (Finset.sum_le_sum_of_subset (directorySet_mono _)) hbytes
        exact fun path hpath => hpaths.mem_iff.mpr hpath
  refine ⟨haccepts entries (List.Perm.refl _), ?_⟩
  intro others hperm
  rw [haccepts others hperm, haccepts entries (List.Perm.refl _)]
  exact (hperm.map _).symm.pairwise_iff Compatible.symm

def solidusUnicode : Unicode where
  nfc := id
  nfkc := mapChars (fun c => if c = '／' then ['/'] else [c])
  caseFold := mapChars (fun c => [c.toLower])

theorem insertAll_iff_compatible_docs
    : (∃ space, new.insertAll [(⟨"Docs/a", "docs/a", ["docs", "a"]⟩, "page"), (⟨"Docs／b", "docs/b", ["docs/b"]⟩, "page")]
        = .ok space)
      ↔ [PortablePath.mk "Docs/a" "docs/a" ["docs", "a"], ⟨"Docs／b", "docs/b", ["docs/b"]⟩].Pairwise Compatible := by
  refine (@insertAll_iff_compatible solidusUnicode _ ?_ (by decide) (by decide)).1
  intro entry hentry
  simp only [List.mem_cons, List.not_mem_nil, or_false] at hentry
  rcases hentry with rfl | rfl
  . exact ⟨"Docs/a", by decide⟩
  . exact ⟨"Docs／b", by decide⟩

end OutputNamespace

end Artifact

end Pliego
