import Pliego.Router.Plain
import Pliego.Artifact.Verify

/-!
The walk over an output directory is a loop over the listing of its tree, and its budgets bound sums
over that listing.
-/

namespace Pliego

open Bytes Text FileTree

namespace Artifact

open Router (Unicode)

variable {unicode : Unicode} {entries : Entries DiskFile} {layout layout' : OutputLayout}

abbrev Listed := List (List String × Node DiskFile)

def pathText (path : List String) : String := join '/' path

def visitListed (unicode : Unicode) (layout : OutputLayout) (item : List String × Node DiskFile)
    : Except ArtifactError OutputLayout :=
  visitEntry unicode layout (pathText item.1) item.2

variable {path : List String}

theorem pathText_ne (hpath : path ≠ []) (hnames : ∀ name ∈ path, name ≠ "")
    : pathText path ≠ "" := by
  intro hempty
  cases path with
  | nil => exact hpath rfl
  | cons first rest =>
    have hsize := length_utf8_join (c := '/') (by decide) (List.cons_ne_nil first rest)
    have hfirst : utf8 first ≠ [] := fun h => hnames first List.mem_cons_self (utf8_eq_nil_iff.mp h)
    have hpos := List.length_pos_iff.mpr hfirst
    unfold pathText at hempty
    rw [hempty, List.map_cons, List.sum_cons] at hsize
    have : (utf8 "").length = 0 := rfl
    omega

theorem joinPortable_pathText {name : String} (hnames : ∀ name ∈ path, name ≠ "")
    : joinPortable (pathText path) name = pathText (path ++ [name]) := by
  unfold joinPortable
  by_cases hpath : path = []
  . subst hpath
    rw [if_pos (by rfl)]
    simp [pathText, join]
  . rw [if_neg (pathText_ne hpath hnames)]
    apply String.toList_injective
    unfold pathText
    rw [join_toList, List.map_append, List.map_singleton,
      Router.intercalate_concat (by simpa using hpath), String.toList_append, String.toList_append,
      join_toList]
    simp

theorem collectOutputDirectory_eq (hwell : WellFormed entries) (hnames : ∀ name ∈ path, name ≠ "")
    : collectOutputDirectory unicode (pathText path) entries layout
      = (listing path entries).foldlM (visitListed unicode) layout := by
  induction entries using Entries.induct generalizing path layout with
  | nil => rfl
  | cons name node rest ihSub ih =>
    obtain ⟨hname, _, _, hnode, hrest⟩ := hwell
    have hbelow : ∀ layout, collectBelow unicode (pathText (path ++ [name])) node layout
        = (node.contents (path ++ [name])).foldlM (visitListed unicode) layout := by
      intro layout
      cases node with
      | directory sub =>
        apply ihSub sub rfl hnode
        intro other hother
        cases List.mem_append.mp hother with
        | inl h => exact hnames other h
        | inr h => exact List.mem_singleton.mp h ▸ hname
      | _ => rfl
    rw [collectOutputDirectory, listing, List.foldlM_cons, joinPortable_pathText hnames]
    congr 1
    funext visited
    rw [List.foldlM_append, hbelow]
    congr 1
    funext below
    exact ih hrest hnames

def storedFile (item : List String × Node DiskFile) : Option String :=
  match item.2 with
  | .file _ => if pathText item.1 = buildLedgerName then none else some (pathText item.1)
  | _ => none

def storedDirectory (item : List String × Node DiskFile) : Option String :=
  match item.2 with
  | .directory _ => some (pathText item.1)
  | _ => none

def stored (items : Listed) : List String :=
  items.filterMap storedFile ++ items.filterMap storedDirectory

def componentCount (paths : List String) : Nat :=
  (paths.map (fun path => (split '/' path).length)).sum

def byteCount (paths : List String) : Nat :=
  (paths.map (fun path => (utf8 path).length)).sum

structure OutputLayout.Within (layout : OutputLayout) : Prop where
  entries : layout.entries ≤ maxArtifactFiles
  components : layout.components ≤ maxNamespaceComponents
  pathBytes : layout.pathBytes ≤ maxNamespacePrefixBytes

def OutputLayout.after (layout : OutputLayout) (items : Listed) : OutputLayout :=
  ⟨layout.files.extend (items.filterMap storedFile),
    layout.directories.extend (items.filterMap storedDirectory),
    layout.entries + items.length,
    layout.components + componentCount (stored items),
    layout.pathBytes + byteCount (stored items)⟩

theorem SortedSet.extend_append (set : SortedSet String) (as bs : List String)
    : set.extend (as ++ bs) = (set.extend as).extend bs :=
  List.foldl_append

theorem componentCount_append (as bs : List String)
    : componentCount (as ++ bs) = componentCount as + componentCount bs := by
  unfold componentCount
  rw [List.map_append, List.sum_append]

theorem byteCount_append (as bs : List String)
    : byteCount (as ++ bs) = byteCount as + byteCount bs := by
  unfold byteCount
  rw [List.map_append, List.sum_append]

theorem OutputLayout.after_append (items rest : Listed)
    : layout.after (items ++ rest) = (layout.after items).after rest := by
  unfold after stored
  simp only [List.filterMap_append, SortedSet.extend_append, List.length_append,
    componentCount_append, byteCount_append, OutputLayout.mk.injEq, true_and]
  omega

theorem OutputLayout.after_directory {sub : Entries DiskFile}
    : layout.after [(path, .directory sub)]
        = ⟨layout.files, layout.directories.extend [pathText path], layout.entries + 1,
          layout.components + (split '/' (pathText path)).length,
          layout.pathBytes + (utf8 (pathText path)).length⟩ := by
  rfl

theorem OutputLayout.after_ledger {content : DiskFile} (h : pathText path = buildLedgerName)
    : layout.after [(path, .file content)] = { layout with entries := layout.entries + 1 } := by
  have hfile : storedFile (path, .file content) = none := if_pos h
  unfold after stored
  rw [List.filterMap_cons_none hfile]
  rfl

theorem OutputLayout.after_file {content : DiskFile} (h : pathText path ≠ buildLedgerName)
    : layout.after [(path, .file content)]
        = ⟨layout.files.extend [pathText path], layout.directories, layout.entries + 1,
          layout.components + (split '/' (pathText path)).length,
          layout.pathBytes + (utf8 (pathText path)).length⟩ := by
  have hfile : storedFile (path, .file content) = some (pathText path) := if_neg h
  unfold after stored
  rw [List.filterMap_cons_some hfile]
  rfl

-- What a walk accepts: canonical paths of directories and regular files.
structure Visitable (unicode : Unicode) (item : List String × Node DiskFile) : Prop where
  portable : ∃ portable : PortablePath, PortablePath.parse unicode (pathText item.1) = .ok portable
    ∧ portable.value = pathText item.1
  sort : (∃ sub, item.2 = .directory sub) ∨ (∃ content, item.2 = .file content)

theorem countEntry_ok : layout.countEntry = .ok layout'
    ↔ layout.entries + 1 ≤ maxArtifactFiles ∧ layout' = { layout with entries := layout.entries + 1 } := by
  unfold OutputLayout.countEntry
  rw [Except.bind_unit_eq_ok, ensure_ok, decide_eq_true_eq, Except.ok.injEq, eq_comm (a := layout')]

theorem accountStoredPath_ok {relative : String} : layout.accountStoredPath relative = .ok layout'
    ↔ layout.components + (split '/' relative).length ≤ maxNamespaceComponents
      ∧ layout.pathBytes + (utf8 relative).length ≤ maxNamespacePrefixBytes
      ∧ layout' = { layout with
          components := layout.components + (split '/' relative).length
          pathBytes := layout.pathBytes + (utf8 relative).length } := by
  unfold OutputLayout.accountStoredPath
  rw [Except.bind_unit_eq_ok, ensure_ok, decide_eq_true_eq, Except.bind_unit_eq_ok, ensure_ok,
    decide_eq_true_eq, Except.ok.injEq, eq_comm (a := layout')]

theorem requireCanonicalDiskPath_ok {raw relative : String}
    : requireCanonicalDiskPath unicode raw = .ok relative
      ↔ relative = raw ∧ ∃ portable : PortablePath, PortablePath.parse unicode raw = .ok portable
          ∧ portable.value = raw := by
  unfold requireCanonicalDiskPath
  rw [Except.bind_eq_ok]
  constructor
  . rintro ⟨portable, hparse, h⟩
    rw [Except.bind_unit_eq_ok, ensure_ok, decide_eq_true_eq] at h
    cases h.2
    exact ⟨rfl, portable, hparse, h.1⟩
  . rintro ⟨rfl, portable, hparse, hvalue⟩
    refine ⟨portable, hparse, ?_⟩
    rw [Except.bind_unit_eq_ok, ensure_ok, decide_eq_true_eq]
    exact ⟨hvalue, rfl⟩

theorem visitListed_ok {item : List String × Node DiskFile} (h : visitListed unicode layout item = .ok layout')
    : Visitable unicode item ∧ layout' = layout.after [item] ∧ (layout.Within → layout'.Within) := by
  obtain ⟨path, node⟩ := item
  unfold visitListed visitEntry at h
  rw [Except.bind_eq_ok] at h
  obtain ⟨counted, hcount, h⟩ := h
  rw [Except.bind_eq_ok] at h
  obtain ⟨relative, hrelative, h⟩ := h
  obtain ⟨hroom, rfl⟩ := countEntry_ok.mp hcount
  obtain ⟨rfl, hportable⟩ := requireCanonicalDiskPath_ok.mp hrelative
  cases node with
  | symlink => cases h
  | special => cases h
  | directory sub =>
    unfold OutputLayout.addDirectory at h
    rw [Except.bind_eq_ok] at h
    obtain ⟨accounted, haccount, h⟩ := h
    obtain ⟨hcomponents, hbytes, rfl⟩ := accountStoredPath_ok.mp haccount
    rw [Except.bind_unit_eq_ok] at h
    cases h.2
    refine ⟨⟨hportable, .inl ⟨sub, rfl⟩⟩, ?_, fun _ => ⟨hroom, hcomponents, hbytes⟩⟩
    rw [OutputLayout.after_directory]
  | file content =>
    dsimp only at h
    split at h
    . next hledger =>
      cases h
      refine ⟨⟨hportable, .inr ⟨content, rfl⟩⟩, ?_, fun hwithin =>
        ⟨hroom, hwithin.components, hwithin.pathBytes⟩⟩
      rw [OutputLayout.after_ledger hledger]
    . next hledger =>
      unfold OutputLayout.addFile at h
      rw [Except.bind_eq_ok] at h
      obtain ⟨accounted, haccount, h⟩ := h
      obtain ⟨hcomponents, hbytes, rfl⟩ := accountStoredPath_ok.mp haccount
      rw [Except.bind_unit_eq_ok] at h
      cases h.2
      refine ⟨⟨hportable, .inr ⟨content, rfl⟩⟩, ?_, fun _ => ⟨hroom, hcomponents, hbytes⟩⟩
      rw [OutputLayout.after_file hledger]

theorem foldlM_visitListed_ok {items : Listed} (h : items.foldlM (visitListed unicode) layout = .ok layout')
    : (∀ item ∈ items, Visitable unicode item) ∧ layout' = layout.after items
      ∧ (layout.Within → layout'.Within) := by
  induction items generalizing layout with
  | nil =>
    cases h
    exact ⟨fun _ hmem => absurd hmem List.not_mem_nil, rfl, fun hwithin => hwithin⟩
  | cons item rest ih =>
    rw [List.foldlM_cons, Except.bind_eq_ok] at h
    obtain ⟨visited, hvisit, hrest⟩ := h
    obtain ⟨hitem, rfl, hwithin⟩ := visitListed_ok hvisit
    obtain ⟨hitems, hafter, hall⟩ := ih hrest
    refine ⟨List.forall_mem_cons.mpr ⟨hitem, hitems⟩, ?_, fun h => hall (hwithin h)⟩
    rw [hafter, ← OutputLayout.after_append]
    rfl

theorem OutputLayout.Within.before {items : Listed} (h : (layout.after items).Within)
    : layout.Within :=
  ⟨(Nat.le_add_right _ _).trans h.entries, (Nat.le_add_right _ _).trans h.components,
    (Nat.le_add_right _ _).trans h.pathBytes⟩

theorem visitListed_of {item : List String × Node DiskFile} (hitem : Visitable unicode item)
    (hwithin : (layout.after [item]).Within)
    (hfile : ∀ path ∈ storedFile item, layout.files.contains path = false)
    (hdirectory : ∀ path ∈ storedDirectory item, layout.directories.contains path = false)
    : visitListed unicode layout item = .ok (layout.after [item]) := by
  obtain ⟨path, node⟩ := item
  obtain ⟨hportable, hsort⟩ := hitem
  unfold visitListed visitEntry
  rw [Except.bind_eq_ok]
  refine ⟨_, countEntry_ok.mpr ⟨hwithin.entries, rfl⟩, ?_⟩
  rw [Except.bind_eq_ok]
  refine ⟨_, requireCanonicalDiskPath_ok.mpr ⟨rfl, hportable⟩, ?_⟩
  rcases hsort with ⟨sub, rfl⟩ | ⟨content, rfl⟩
  . have hfresh := hdirectory (pathText path) rfl
    rw [OutputLayout.after_directory] at hwithin ⊢
    unfold OutputLayout.addDirectory
    rw [Except.bind_eq_ok]
    refine ⟨_, accountStoredPath_ok.mpr ⟨hwithin.components, hwithin.pathBytes, rfl⟩, ?_⟩
    rw [Except.bind_unit_eq_ok, ensure_ok, Bool.not_eq_true']
    exact ⟨hfresh, rfl⟩
  . by_cases hledger : pathText path = buildLedgerName
    . dsimp only
      rw [if_pos hledger, OutputLayout.after_ledger hledger]
    . have hfresh := hfile (pathText path) (if_neg hledger)
      rw [OutputLayout.after_file hledger] at hwithin ⊢
      dsimp only
      rw [if_neg hledger]
      unfold OutputLayout.addFile
      rw [Except.bind_eq_ok]
      refine ⟨_, accountStoredPath_ok.mpr ⟨hwithin.components, hwithin.pathBytes, rfl⟩, ?_⟩
      rw [Except.bind_unit_eq_ok, ensure_ok, Bool.not_eq_true']
      exact ⟨hfresh, rfl⟩

theorem foldlM_visitListed_of {items : Listed} (hitems : ∀ item ∈ items, Visitable unicode item)
    (hwithin : (layout.after items).Within) (hfiles : (items.filterMap storedFile).Nodup
      ∧ ∀ path ∈ items.filterMap storedFile, layout.files.contains path = false)
    (hdirectories : (items.filterMap storedDirectory).Nodup
      ∧ ∀ path ∈ items.filterMap storedDirectory, layout.directories.contains path = false)
    : items.foldlM (visitListed unicode) layout = .ok (layout.after items) := by
  induction items generalizing layout with
  | nil => rfl
  | cons item rest ih =>
    have hsplit : layout.after (item :: rest) = (layout.after [item]).after rest :=
      OutputLayout.after_append [item] rest
    rw [hsplit] at hwithin ⊢
    have hkept : ∀ {f : List String × Node DiskFile → Option String} {set : SortedSet String},
        ((item :: rest).filterMap f).Nodup →
        (∀ path ∈ (item :: rest).filterMap f, set.contains path = false) →
        (∀ path ∈ f item, set.contains path = false) ∧ (rest.filterMap f).Nodup
          ∧ ∀ path ∈ rest.filterMap f, (set.extend ([item].filterMap f)).contains path = false := by
      intro f set hnodup hfresh
      have hcons : (item :: rest).filterMap f = [item].filterMap f ++ rest.filterMap f := by
        rw [← List.filterMap_append]
        rfl
      rw [hcons] at hnodup hfresh
      obtain ⟨_, hrest, hapart⟩ := List.nodup_append.mp hnodup
      refine ⟨?_, hrest, ?_⟩
      . intro path hpath
        apply hfresh path (List.mem_append_left _ _)
        exact List.mem_filterMap.mpr ⟨item, List.mem_singleton_self item, hpath⟩
      . intro path hpath
        rw [Bool.eq_false_iff, ne_eq, SortedSet.contains_extend, not_or]
        refine ⟨?_, fun hmem => hapart path hmem path hpath rfl⟩
        rw [hfresh path (List.mem_append_right _ hpath)]
        exact Bool.false_ne_true
    obtain ⟨hfile, hfilesNodup, hfilesFresh⟩ := hkept hfiles.1 hfiles.2
    obtain ⟨hdirectory, hdirectoriesNodup, hdirectoriesFresh⟩ := hkept hdirectories.1 hdirectories.2
    rw [List.foldlM_cons, Except.bind_eq_ok]
    refine ⟨_, visitListed_of (hitems item List.mem_cons_self) hwithin.before hfile hdirectory, ?_⟩
    exact ih (fun other hother => hitems other (List.mem_cons_of_mem _ hother)) hwithin
      ⟨hfilesNodup, hfilesFresh⟩ ⟨hdirectoriesNodup, hdirectoriesFresh⟩

theorem pathText_inj {a b : List String} (ha : a ≠ []) (hb : b ≠ [])
    (hcleanA : ∀ name ∈ a, '/' ∉ name.toList) (hcleanB : ∀ name ∈ b, '/' ∉ name.toList)
    (h : pathText a = pathText b) : a = b := by
  calc a = split '/' (pathText a) := (split_join hcleanA ha).symm
    _ = split '/' (pathText b) := by rw [h]
    _ = b := split_join hcleanB hb

theorem filterMap_texts_nodup (hwell : WellFormed entries) {f : List String × Node DiskFile → Option String}
    (hf : ∀ item, ∀ path ∈ f item, path = pathText item.1)
    : ((listing [] entries).filterMap f).Nodup := by
  have hclean : ∀ item ∈ listing [] entries, item.1 ≠ [] ∧ ∀ name ∈ item.1, '/' ∉ name.toList := by
    intro item hitem
    obtain ⟨tail, htail, hlookup⟩ := (mem_listing hwell).mp hitem
    rw [List.nil_append] at htail
    rw [htail]
    exact ⟨ne_nil_of_lookup hlookup, lookup_names hwell hlookup⟩
  have hpairs : (listing [] entries).Pairwise (fun a b => a.1 ≠ b.1) :=
    List.pairwise_map.mp (listing_nodup hwell)
  apply List.Pairwise.filterMap f _ (hpairs.imp_of_mem (S := fun a b => a.1 ≠ b.1
    ∧ a ∈ listing [] entries ∧ b ∈ listing [] entries) (fun ha hb hne => ⟨hne, ha, hb⟩))
  intro a b hab path hpath path' hpath' hsame
  obtain ⟨hne, ha, hb⟩ := hab
  rw [hf a path hpath, hf b path' hpath'] at hsame
  exact hne (pathText_inj (hclean a ha).1 (hclean b hb).1 (hclean a ha).2 (hclean b hb).2 hsame)

end Artifact

end Pliego
