import Pliego.Artifact.Exact
import Pliego.Artifact.Portable

/-!
What a refused insertion leaves behind.
-/

namespace Pliego

open Bytes Text

namespace Artifact

open Router (Unicode)

variable {unicode : Unicode} {space space' : OutputNamespace} {path : PortablePath} {owner : String}
  {directory : String × String} {directories : List (String × String)}

namespace OutputNamespace

-- The loop over the directories, with the namespace as it stands when the loop returns.
def storeDirectories (path : PortablePath) (space : OutputNamespace) (directories : List (String × String))
    : OutputNamespace × Except ArtifactError Unit :=
  match directories with
  | [] => (space, .ok ())
  | directory :: rest =>
    match addDirectory path space directory with
    | .error error => (space, .error error)
    | .ok space => storeDirectories path space rest

-- `insert` on a borrowed namespace, which the caller keeps after an error.
def insertInPlace (space : OutputNamespace) (path : PortablePath) (owner : String)
    : OutputNamespace × Except ArtifactError Unit :=
  let components := space.components + path.componentKeys.length
  if components ≤ maxNamespaceComponents then
    match space.files.get? path.collisionKey with
    | some existing =>
      (space, .error (.namespaceCollision path.value existing.1 "two files resolve to the same portable path"))
    | none =>
      match storeDirectories path space path.directories with
      | (space, .error error) => (space, .error error)
      | (space, .ok ()) =>
        match space.directories.get? path.collisionKey with
        | some existing =>
          (space, .error (.namespaceCollision path.value existing "a file is also used as a directory"))
        | none =>
          ({ space with
            files := space.files.insert path.collisionKey (path.value, owner)
            components }, .ok ())
  else
    (space, .error (.invalidReceipt ("artifact namespace exceeds " ++ toString maxNamespaceComponents
      ++ " path components")))

theorem foldlM_addDirectory
    : directories.foldlM (addDirectory path) space
      = (storeDirectories path space directories).2.map (fun _ => (storeDirectories path space directories).1) := by
  induction directories generalizing space with
  | nil => rfl
  | cons directory rest ih =>
    rw [List.foldlM_cons]
    unfold storeDirectories
    cases addDirectory path space directory with
    | error error => rfl
    | ok next => exact ih

theorem insert_eq_insertInPlace
    : space.insert path owner
      = (space.insertInPlace path owner).2.map (fun _ => (space.insertInPlace path owner).1) := by
  unfold insert insertInPlace
  dsimp only
  split
  . cases space.files.get? path.collisionKey with
    | some existing => rfl
    | none =>
      dsimp only
      rw [foldlM_addDirectory]
      obtain ⟨last, answer⟩ := storeDirectories path space path.directories
      cases answer with
      | error error => rfl
      | ok done =>
        dsimp only [Except.map, bind, Except.bind]
        cases last.directories.get? path.collisionKey with
        | some existing => rfl
        | none => rfl
  . rfl

abbrev Call := PortablePath × String

def afterCalls (space : OutputNamespace) (calls : List Call) : OutputNamespace :=
  match calls with
  | [] => space
  | call :: rest => (space.insertInPlace call.1 call.2).1.afterCalls rest

def successes (space : OutputNamespace) (calls : List Call) : List Bool :=
  match calls with
  | [] => []
  | call :: rest =>
    (space.insertInPlace call.1 call.2).2.isOk :: (space.insertInPlace call.1 call.2).1.successes rest

def accepted (space : OutputNamespace) (calls : List Call) : List Call :=
  match calls with
  | [] => []
  | call :: rest =>
    if (space.insertInPlace call.1 call.2).2.isOk then
      call :: (space.insertInPlace call.1 call.2).1.accepted rest
    else
      (space.insertInPlace call.1 call.2).1.accepted rest

def Holds (space : OutputNamespace) (directory : String × String) : Prop :=
  space.files.get? directory.1 = none ∧ space.directories.get? directory.1 = some directory.2

def Admits (space : OutputNamespace) (directory : String × String) : Prop :=
  space.files.get? directory.1 = none ∧ space.directories.get? directory.1 = none
    ∧ (space.withDirectory directory).prefixBytes ≤ maxNamespacePrefixBytes

instance instDecidableHolds : Decidable (space.Holds directory) :=
  inferInstanceAs (Decidable (_ ∧ _))

instance instDecidableAdmits : Decidable (space.Admits directory) :=
  inferInstanceAs (Decidable (_ ∧ _ ∧ _))

-- The call is refused before the loop, or the loop stores no directory: the first one that the namespace does not hold
-- yet is refused itself.
def StopsFirst (space : OutputNamespace) (path : PortablePath) : Prop :=
  maxNamespaceComponents < space.components + path.componentKeys.length
    ∨ space.files.get? path.collisionKey ≠ none
    ∨ ∀ directory, path.directories.find? (fun directory => !decide (space.Holds directory)) = some directory →
        ¬ space.Admits directory

theorem addDirectory_of_holds (h : space.Holds directory) : addDirectory path space directory = .ok space :=
  addDirectory_ok.mpr ⟨h.1, .inl ⟨h.2, rfl⟩⟩

theorem addDirectory_of_admits (h : space.Admits directory)
    : addDirectory path space directory = .ok (space.withDirectory directory) :=
  addDirectory_ok.mpr ⟨h.1, .inr ⟨h.2.1, h.2.2, rfl⟩⟩

theorem addDirectory_refused (hholds : ¬ space.Holds directory) (hadmits : ¬ space.Admits directory)
    : ∃ error, addDirectory path space directory = .error error := by
  cases h : addDirectory path space directory with
  | error error => exact ⟨error, rfl⟩
  | ok next =>
    obtain ⟨hfiles, hcase⟩ := addDirectory_ok.mp h
    rcases hcase with ⟨hget, -⟩ | ⟨hnone, hroom, -⟩
    . exact absurd ⟨hfiles, hget⟩ hholds
    . exact absurd ⟨hfiles, hnone, hroom⟩ hadmits

theorem addDirectory_keeps (h : addDirectory path space directory = .ok space') {key : String}
    (hkey : space.directories.get? key ≠ none)
    : space'.directories.get? key ≠ none := by
  obtain ⟨-, hcase⟩ := addDirectory_ok.mp h
  rcases hcase with ⟨-, rfl⟩ | ⟨-, -, rfl⟩
  . exact hkey
  . unfold withDirectory
    dsimp only
    rw [SortedMap.get?_insert]
    split
    . exact Option.some_ne_none _
    . exact hkey

theorem storeDirectories_keeps {key : String} (hkey : space.directories.get? key ≠ none)
    : (storeDirectories path space directories).1.directories.get? key ≠ none := by
  induction directories generalizing space with
  | nil => exact hkey
  | cons directory rest ih =>
    unfold storeDirectories
    cases h : addDirectory path space directory with
    | error error => exact hkey
    | ok next => exact ih (addDirectory_keeps h hkey)

theorem storeDirectories_of_holds (h : ∀ directory ∈ directories, space.Holds directory)
    : storeDirectories path space directories = (space, .ok ()) := by
  induction directories with
  | nil => rfl
  | cons directory rest ih =>
    obtain ⟨hfirst, hrest⟩ := List.forall_mem_cons.mp h
    unfold storeDirectories
    rw [addDirectory_of_holds hfirst]
    exact ih hrest

theorem storeDirectories_append {earlier later : List (String × String)} (h : ∀ directory ∈ earlier, space.Holds directory)
    : storeDirectories path space (earlier ++ later) = storeDirectories path space later := by
  induction earlier with
  | nil => rfl
  | cons directory rest ih =>
    obtain ⟨hfirst, hrest⟩ := List.forall_mem_cons.mp h
    rw [List.cons_append]
    conv_lhs => unfold storeDirectories
    rw [addDirectory_of_holds hfirst]
    exact ih hrest

theorem first_new (h : directories.find? (fun directory => !decide (space.Holds directory)) = some directory)
    : ¬ space.Holds directory
      ∧ ∃ earlier later, directories = earlier ++ directory :: later ∧ ∀ d ∈ earlier, space.Holds d := by
  rw [List.find?_eq_some_iff_append] at h
  obtain ⟨hnew, earlier, later, hsplit, hearlier⟩ := h
  rw [Bool.not_eq_true', decide_eq_false_iff_not] at hnew
  refine ⟨hnew, earlier, later, hsplit, ?_⟩
  intro d hd
  have hheld := hearlier d hd
  rw [Bool.not_not, decide_eq_true_eq] at hheld
  exact hheld

theorem storeDirectories_unchanged
    (h : ∀ directory, directories.find? (fun directory => !decide (space.Holds directory)) = some directory →
      ¬ space.Admits directory)
    : (storeDirectories path space directories).1 = space := by
  cases hfind : directories.find? (fun directory => !decide (space.Holds directory)) with
  | none =>
    rw [storeDirectories_of_holds]
    intro directory hdirectory
    have hheld := List.find?_eq_none.mp hfind directory hdirectory
    rw [Bool.not_eq_true, Bool.not_eq_false', decide_eq_true_eq] at hheld
    exact hheld
  | some directory =>
    obtain ⟨hnew, earlier, later, rfl, hearlier⟩ := first_new hfind
    rw [storeDirectories_append hearlier]
    unfold storeDirectories
    obtain ⟨error, herror⟩ := @addDirectory_refused _ path _ hnew (h directory hfind)
    rw [herror]

theorem insertInPlace_refused (h : (space.insertInPlace path owner).2.isOk = false)
    (hroom : space.components + path.componentKeys.length ≤ maxNamespaceComponents)
    (hfile : space.files.get? path.collisionKey = none)
    : (space.insertInPlace path owner).1 = (storeDirectories path space path.directories).1 := by
  unfold insertInPlace at h ⊢
  dsimp only at h ⊢
  rw [if_pos hroom, hfile] at h ⊢
  dsimp only at h ⊢
  obtain ⟨⟨last, answer⟩, hstored⟩ : ∃ stored, storeDirectories path space path.directories = stored := ⟨_, rfl⟩
  rw [hstored] at h ⊢
  cases answer with
  | error error => rfl
  | ok done =>
    dsimp only at h ⊢
    cases hget : last.directories.get? path.collisionKey with
    | some existing => rfl
    | none =>
      rw [hget] at h
      cases h

theorem insertInPlace_stopped (hrefused : (space.insertInPlace path owner).2.isOk = false) (h : space.StopsFirst path)
    : (space.insertInPlace path owner).1 = space := by
  by_cases hroom : space.components + path.componentKeys.length ≤ maxNamespaceComponents
  . cases hfile : space.files.get? path.collisionKey with
    | some existing =>
      unfold insertInPlace
      dsimp only
      rw [if_pos hroom, hfile]
    | none =>
      rw [insertInPlace_refused hrefused hroom hfile]
      rcases h with h | h | h
      . omega
      . exact absurd hfile h
      . exact storeDirectories_unchanged h
  . unfold insertInPlace
    dsimp only
    rw [if_neg hroom]

theorem isOk_insertInPlace : (space.insertInPlace path owner).2.isOk = true ↔ ∃ next, space.insert path owner = .ok next := by
  rw [insert_eq_insertInPlace]
  cases (space.insertInPlace path owner).2 with
  | error error => exact iff_of_false (by rintro ⟨⟩) (by rintro ⟨next, hnext⟩; cases hnext)
  | ok done => exact iff_of_true rfl ⟨_, rfl⟩

end OutputNamespace

namespace PortablePath

theorem directory_at {earlier later : List (String × String)} (h : path.directories = earlier ++ directory :: later)
    : directory = (join '/' (path.componentKeys.take (earlier.length + 1)),
        join '/' (path.components.take (earlier.length + 1)))
      ∧ earlier.length + 1 < path.components.length := by
  have hget : path.directories[earlier.length]? = some directory := by
    rw [h, List.getElem?_append_right le_rfl, Nat.sub_self]
    rfl
  unfold directories at hget
  rw [List.getElem?_map, Option.map_eq_some_iff] at hget
  obtain ⟨n, hn, hdirectory⟩ := hget
  obtain ⟨hlt, hn⟩ := List.getElem?_eq_some_iff.mp hn
  rw [List.getElem_range] at hn
  rw [List.length_range] at hlt
  rw [← hn] at hdirectory
  exact ⟨hdirectory.symm, by omega⟩

theorem directories_parent {parent : PortablePath} {n : Nat} (hcomponents : parent.components = path.components.take (n + 1))
    (hkeys : parent.componentKeys = path.componentKeys.take (n + 1)) (hn : n + 1 < path.components.length)
    : parent.directories = path.directories.take n := by
  unfold directories
  rw [hcomponents, hkeys, List.length_take, Nat.min_eq_left hn.le, Nat.add_sub_cancel, ← List.map_take, List.take_range,
    Nat.min_eq_left (by omega)]
  apply List.map_congr_left
  intro i hi
  rw [List.mem_range] at hi
  rw [List.take_take, List.take_take, Nat.min_eq_left (by omega)]

theorem Parsed.parent (hunicode : Normalizes unicode) (h : path.Parsed unicode)
    {earlier later : List (String × String)} (hsplit : path.directories = earlier ++ directory :: later)
    : ∃ parent : PortablePath, parent.Parsed unicode ∧ parent.collisionKey = directory.1
        ∧ parent.directories = earlier ∧ parent.componentKeys.length ≤ path.componentKeys.length := by
  have hkeys := h.keys
  have hlength := h.length
  obtain ⟨value, hvalue⟩ := h
  obtain ⟨⟨-, hsize, -, -, hslash⟩, hnormalSize, hcount, hcomponents, hpath⟩ := parse_ok.mp hvalue
  have hwhole : path.components = split '/' (unicode.nfc value) := by
    rw [hpath]
    rfl
  have hraw : path.components = (split '/' value).map unicode.nfc := hwhole.trans (hunicode.keepsSlashes value)
  obtain ⟨hdirectory, hn⟩ := directory_at hsplit
  have hne : (split '/' value).take (earlier.length + 1) ≠ [] := by
    intro hnil
    rw [List.take_eq_nil_iff] at hnil
    cases hnil with
    | inl hzero => cases hzero
    | inr hnil => exact split_ne_nil hnil
  have hraw_parts : ∀ part ∈ (split '/' value).take (earlier.length + 1), '/' ∉ part.toList ∧ part ≠ "" := by
    intro part hpart
    have hmem := List.mem_of_mem_take hpart
    refine ⟨not_mem_of_mem_split hmem, ?_⟩
    rintro rfl
    have hnormal : unicode.nfc "" ∈ split '/' (unicode.nfc value) := by
      rw [← hwhole, hraw]
      exact List.mem_map_of_mem hmem
    rw [hunicode.ascii "" (fun c hc => absurd hc List.not_mem_nil)] at hnormal
    exact isPortableComponent_ne (hcomponents _ hnormal).1 rfl
  -- the parent is read from the same characters as the path
  have hparts : split '/' (join '/' ((split '/' value).take (earlier.length + 1)))
      = (split '/' value).take (earlier.length + 1) := split_join (fun part hpart => (hraw_parts part hpart).1) hne
  have hnormal : unicode.nfc (join '/' ((split '/' value).take (earlier.length + 1)))
      = join '/' (path.components.take (earlier.length + 1)) := by
    rw [hraw, ← List.map_take, ← hparts, ← hunicode.keepsSlashes, join_split, join_split]
  have hcomponents_split : split '/' (join '/' (path.components.take (earlier.length + 1)))
      = path.components.take (earlier.length + 1) := by
    rw [← hnormal, hunicode.keepsSlashes, hparts, List.map_take, ← hraw]
  have hshorter : ∀ parts : List String, earlier.length + 1 < parts.length →
      (utf8 (join '/' (parts.take (earlier.length + 1)))).length ≤ (utf8 (join '/' parts)).length := by
    intro parts hlt
    have hless := length_join_take (Nat.succ_pos _) hlt le_rfl
    rw [List.take_length] at hless
    exact hless.le
  have hrawLength : (split '/' value).length = path.components.length := by
    rw [hraw, List.length_map]
  have hends := join_ends hne hraw_parts
  obtain ⟨parent, hparent⟩ : ∃ parent : PortablePath, parent = ⟨join '/' (path.components.take (earlier.length + 1)),
    directory.1, path.componentKeys.take (earlier.length + 1)⟩ := ⟨_, rfl⟩
  have hparentComponents : parent.components = path.components.take (earlier.length + 1) := by
    rw [hparent]
    exact hcomponents_split
  have hparentKeys : parent.componentKeys = path.componentKeys.take (earlier.length + 1) := by
    rw [hparent]
  refine ⟨parent, ⟨join '/' ((split '/' value).take (earlier.length + 1)), ?_⟩, ?_, ?_, ?_⟩
  . rw [parse_ok, hnormal, hcomponents_split]
    refine ⟨⟨?_, ?_, hends.1, hends.2, ?_⟩, ?_, ?_, ?_, ?_⟩
    . intro hempty
      have hfirst : "" ∈ (split '/' value).take (earlier.length + 1) := by
        rw [← hparts, hempty]
        decide
      exact (hraw_parts _ hfirst).2 rfl
    . apply (hshorter _ (by omega)).trans
      rw [join_split]
      exact hsize
    . apply contains_join (by decide)
      intro part hpart
      unfold contains at hslash ⊢
      rw [List.contains_eq_mem, decide_eq_false_iff_not] at hslash ⊢
      exact fun hmem => hslash (mem_of_mem_split (List.mem_of_mem_take hpart) hmem)
    . apply (hshorter _ (by omega)).trans
      rw [hwhole, join_split]
      exact hnormalSize
    . rw [hwhole]
      exact (List.length_take_le' _ _).trans hcount
    . intro component hcomponent
      rw [hwhole] at hcomponent
      exact hcomponents component (List.mem_of_mem_take hcomponent)
    . rw [List.map_take, ← hkeys, hparent, hdirectory]
  . rw [hparent]
  . rw [directories_parent hparentComponents hparentKeys hn, hsplit, List.take_left]
  . rw [hparentKeys, List.length_take]
    exact Nat.min_le_right _ _

end PortablePath

namespace OutputNamespace

-- Every later sequence of calls succeeds and fails as it would without the call.
def Unnoticed (unicode : Unicode) (space : OutputNamespace) (path : PortablePath) (owner : String) : Prop :=
  ∀ later : List Call, (∀ call ∈ later, call.1.Parsed unicode) →
    (space.insertInPlace path owner).1.successes later = space.successes later

theorem unnoticed_iff (hunicode : Normalizes unicode) (hpath : path.Parsed unicode)
    (hrefused : (space.insertInPlace path owner).2.isOk = false)
    : space.Unnoticed unicode path owner ↔ space.StopsFirst path := by
  constructor
  . intro hunnoticed
    by_contra hstops
    unfold StopsFirst at hstops
    rw [not_or, not_or, not_lt, not_not, not_forall] at hstops
    obtain ⟨hroom, hfile, directory, hstops⟩ := hstops
    rw [Classical.not_imp, not_not] at hstops
    obtain ⟨hfind, hadmits⟩ := hstops
    obtain ⟨-, earlier, later, hsplit, hearlier⟩ := first_new hfind
    obtain ⟨parent, hparent, hkey, hparents, hlength⟩ := hpath.parent hunicode hsplit
    -- a file in the place of the directory that was stored
    have hwithout : ∃ next, space.insert parent owner = .ok next := by
      refine ⟨_, insert_ok.mpr ⟨by omega, ?_, space, ?_, ?_, rfl⟩⟩
      . rw [hkey]
        exact hadmits.1
      . rw [foldlM_addDirectory, hparents, storeDirectories_of_holds hearlier]
        rfl
      . rw [hkey]
        exact hadmits.2.1
    have hwith : ¬ ∃ next, (space.insertInPlace path owner).1.insert parent owner = .ok next := by
      rintro ⟨next, hnext⟩
      obtain ⟨-, -, mid, hmid, hnone, -⟩ := insert_ok.mp hnext
      rw [foldlM_addDirectory] at hmid
      have hkept : (storeDirectories path space path.directories).1.directories.get? parent.collisionKey ≠ none := by
        rw [hkey, hsplit, storeDirectories_append hearlier]
        unfold storeDirectories
        rw [addDirectory_of_admits hadmits]
        apply storeDirectories_keeps
        unfold withDirectory
        dsimp only
        rw [SortedMap.get?_insert, if_pos rfl]
        exact Option.some_ne_none _
      rw [← insertInPlace_refused hrefused hroom hfile] at hkept
      have hkept := @storeDirectories_keeps _ parent parent.directories _ hkept
      cases hanswer : (storeDirectories parent (space.insertInPlace path owner).1 parent.directories).2 with
      | error error =>
        rw [hanswer] at hmid
        cases hmid
      | ok done =>
        rw [hanswer] at hmid
        cases hmid
        exact hkept hnone
    have hsame := hunnoticed [(parent, owner)] (fun call hcall => by rw [List.mem_singleton.mp hcall]; exact hparent)
    unfold successes at hsame
    have hsame := (List.cons.inj hsame).1
    dsimp only at hsame
    rw [← isOk_insertInPlace] at hwithout hwith
    rw [hwithout] at hsame
    exact hwith hsame
  . intro hstops later hlater
    rw [insertInPlace_stopped hrefused hstops]

theorem insertAll_accepted {calls : List Call} (h : ∀ before call after, calls = before ++ call :: after →
      ((space.afterCalls before).insertInPlace call.1 call.2).2.isOk = false → (space.afterCalls before).StopsFirst call.1)
    : space.insertAll (space.accepted calls) = .ok (space.afterCalls calls) := by
  induction calls generalizing space with
  | nil => rfl
  | cons call rest ih =>
    have hrest := @ih (space.insertInPlace call.1 call.2).1
      (fun before next after hsplit => h (call :: before) next after (by rw [hsplit]; rfl))
    unfold accepted afterCalls
    split
    . next haccepted =>
      obtain ⟨next, hnext⟩ := isOk_insertInPlace.mp haccepted
      have hlast : next = (space.insertInPlace call.1 call.2).1 := by
        rw [insert_eq_insertInPlace] at hnext
        cases hanswer : (space.insertInPlace call.1 call.2).2 with
        | error error =>
          rw [hanswer] at hnext
          cases hnext
        | ok done =>
          rw [hanswer] at hnext
          cases hnext
          rfl
      unfold insertAll at hrest ⊢
      rw [List.foldlM_cons, hnext, hlast]
      exact hrest
    . next hrefused =>
      rw [Bool.not_eq_true] at hrefused
      have hsame := insertInPlace_stopped hrefused (h [] call rest rfl hrefused)
      rw [hsame] at hrest ⊢
      exact hrest

/--
A refused call goes unnoticed just when it is refused before a directory of its path is stored. In a run whose refused
calls are all of that kind, the accepted calls alone build the namespace.
-/
theorem refused_unnoticed_iff (hunicode : Normalizes unicode) (calls : List Call)
    : (∀ path owner, path.Parsed unicode → ((new.afterCalls calls).insertInPlace path owner).2.isOk = false →
        ((new.afterCalls calls).Unnoticed unicode path owner ↔ (new.afterCalls calls).StopsFirst path))
      ∧ ((∀ before call after, calls = before ++ call :: after →
          ((new.afterCalls before).insertInPlace call.1 call.2).2.isOk = false →
          (new.afterCalls before).StopsFirst call.1) →
        new.insertAll (new.accepted calls) = .ok (new.afterCalls calls)) := by
  constructor
  . intro path owner hpath hrefused
    exact unnoticed_iff hunicode hpath hrefused
  . exact insertAll_accepted

theorem solidusUnicode_normalizes : Normalizes solidusUnicode :=
  ⟨fun _ => (List.map_id _).symm, fun _ _ => rfl⟩

-- The file of the second component is only found after the directory of the first one has been stored.
theorem refused_directory_stays
    : ((new.afterCalls [(⟨"a／b", "a/b", ["a/b"]⟩, "page")]).insertInPlace
        ⟨"a/b/c", "a/b/c", ["a", "b", "c"]⟩ "page").2.isOk = false
      ∧ ¬ (new.afterCalls [(⟨"a／b", "a/b", ["a/b"]⟩, "page")]).Unnoticed solidusUnicode
        ⟨"a/b/c", "a/b/c", ["a", "b", "c"]⟩ "page" := by
  refine ⟨by decide, ?_⟩
  intro hunnoticed
  have hsame := hunnoticed [(⟨"a", "a", ["a"]⟩, "page")] (fun call hcall => by
    rw [List.mem_singleton.mp hcall]
    exact ⟨"a", by decide⟩)
  exact absurd hsame (by decide)

def solidusCall : Call := (⟨"a／b", "a/b", ["a/b"]⟩, "page")

def foldedCall : Call := (⟨"A／B", "a/b", ["a/b"]⟩, "page")

def plainCall : Call := (⟨"c", "c", ["c"]⟩, "page")

theorem refused_unnoticed_iff_solidus
    : ((new.afterCalls [solidusCall]).Unnoticed solidusUnicode foldedCall.1 "page"
        ↔ (new.afterCalls [solidusCall]).StopsFirst foldedCall.1)
      ∧ ((new.afterCalls [solidusCall]).insertInPlace foldedCall.1 "page").2.isOk = false
      ∧ new.insertAll [solidusCall, plainCall] = .ok (new.afterCalls [solidusCall, foldedCall, plainCall]) := by
  have hrefused : ((new.afterCalls [solidusCall]).insertInPlace foldedCall.1 "page").2.isOk = false := by decide
  have haccepted : new.accepted [solidusCall, foldedCall, plainCall] = [solidusCall, plainCall] := by decide
  refine ⟨(refused_unnoticed_iff solidusUnicode_normalizes _).1 _ _ ⟨"A／B", by decide⟩ hrefused, hrefused, ?_⟩
  rw [← haccepted]
  apply (refused_unnoticed_iff solidusUnicode_normalizes _).2
  intro before call after hsplit hfailed
  match before, hsplit with
  | [], hsplit =>
    cases hsplit
    exact absurd hfailed (by decide)
  | [_], hsplit =>
    cases hsplit
    exact .inr (.inl (by decide))
  | [_, _], hsplit =>
    cases hsplit
    exact absurd hfailed (by decide)
  | [_, _, _], hsplit => cases hsplit
  | _ :: _ :: _ :: _ :: _, hsplit => cases hsplit

end OutputNamespace

end Artifact

end Pliego
