import Pliego.Lib.Text

/-!
Directory trees: nodes looked up by the names on their path, and the listing of everything below a directory.
-/

namespace FileTree

open Text

variable {α : Type}

inductive Node (α : Type) where
  | file (content : α)
  | directory (entries : List (String × Node α))
  | symlink
  | special

abbrev Entries (α : Type) := List (String × Node α)

namespace Node

def isDirectory (node : Node α) : Bool :=
  match node with
  | .directory _ => true
  | _ => false

end Node

def lookup (entries : Entries α) (path : List String) : Option (Node α) :=
  match path with
  | [] => none
  | name :: rest =>
    match entries.lookup name with
    | none => none
    | some node =>
      if rest.isEmpty then
        some node
      else
        match node with
        | .directory sub => lookup sub rest
        | _ => none

mutual

def Node.contents (path : List String) (node : Node α) : List (List String × Node α) :=
  match node with
  | .directory entries => listing path entries
  | _ => []

def listing (path : List String) (entries : Entries α) : List (List String × Node α) :=
  match entries with
  | [] => []
  | (name, node) :: rest =>
    (path ++ [name], node) :: (node.contents (path ++ [name]) ++ listing path rest)

end

mutual

-- No directory holds a name twice, and names are path components.
def Node.WellFormed (node : Node α) : Prop :=
  match node with
  | .directory entries => WellFormed entries
  | _ => True

def WellFormed (entries : Entries α) : Prop :=
  match entries with
  | [] => True
  | (name, node) :: rest =>
    name ≠ "" ∧ '/' ∉ name.toList ∧ name ∉ rest.map Prod.fst ∧ node.WellFormed ∧ WellFormed rest

end

mutual

theorem Node.entries_induct {motive : Entries α → Prop} (nil : motive [])
    (cons : ∀ name node rest, (∀ sub, node = Node.directory sub → motive sub) → motive rest →
      motive ((name, node) :: rest)) (node : Node α)
    : ∀ sub, node = .directory sub → motive sub := by
  match node with
  | .directory entries =>
    intro sub h
    cases h
    exact Entries.induct nil cons entries
  | .file _ => exact fun _ h => by cases h
  | .symlink => exact fun _ h => by cases h
  | .special => exact fun _ h => by cases h

theorem Entries.induct {motive : Entries α → Prop} (nil : motive [])
    (cons : ∀ name node rest, (∀ sub, node = Node.directory sub → motive sub) → motive rest →
      motive ((name, node) :: rest)) (entries : Entries α)
    : motive entries := by
  match entries with
  | [] => exact nil
  | (name, node) :: rest =>
    exact cons name node rest (Node.entries_induct nil cons node) (Entries.induct nil cons rest)

end

section Lookup

variable {entries : Entries α} {node : Node α} {name : String} {path : List String}

variable {tail : List String}

theorem lookup_cons_same {rest : Entries α}
    : lookup ((name, node) :: rest) (name :: tail)
      = if tail.isEmpty then some node else
        match node with
        | .directory sub => lookup sub tail
        | _ => none := by
  rw [lookup, List.lookup_cons_self]

theorem lookup_cons_other {rest : Entries α} {first : String} (hne : first ≠ name)
    : lookup ((name, node) :: rest) (first :: tail) = lookup rest (first :: tail) := by
  rw [lookup, lookup, List.lookup_cons, beq_eq_false_iff_ne.mpr hne]

theorem mem_names_of_lookup {first : String}
    (h : lookup entries (first :: tail) = some node) : first ∈ entries.map Prod.fst := by
  induction entries with
  | nil => cases h
  | cons entry rest ih =>
    by_cases hsame : first = entry.1
    . rw [hsame]
      exact List.mem_cons_self
    . rw [lookup_cons_other hsame] at h
      exact List.mem_cons_of_mem _ (ih h)

theorem ne_nil_of_lookup (h : lookup entries path = some node) : path ≠ [] := by
  rintro rfl
  cases h

theorem mem_listing (hwell : WellFormed entries) {base : List String}
    : (path, node) ∈ listing base entries
      ↔ ∃ tail, path = base ++ tail ∧ lookup entries tail = some node := by
  induction entries using Entries.induct generalizing base path node with
  | nil =>
    unfold listing
    simp only [List.not_mem_nil, false_iff, not_exists, not_and]
    intro tail _
    cases tail <;> simp [lookup]
  | cons name first rest ihSub ih =>
    obtain ⟨_, _, hfresh, hnode, hrest⟩ := hwell
    rw [listing, List.mem_cons, List.mem_append, ih hrest, Prod.mk.injEq]
    constructor
    . rintro (⟨rfl, rfl⟩ | hbelow | ⟨tail, rfl, htail⟩)
      . exact ⟨[name], rfl, by rw [lookup_cons_same]; rfl⟩
      . cases first with
        | directory sub =>
          rw [Node.contents, ihSub sub rfl hnode] at hbelow
          obtain ⟨tail, rfl, htail⟩ := hbelow
          refine ⟨name :: tail, by simp, ?_⟩
          rw [lookup_cons_same, if_neg (by simpa using ne_nil_of_lookup htail)]
          exact htail
        | _ => cases hbelow
      . refine ⟨tail, rfl, ?_⟩
        cases tail with
        | nil => cases htail
        | cons head tail =>
          rw [lookup_cons_other]
          . exact htail
          . exact fun hsame => hfresh (hsame ▸ mem_names_of_lookup htail)
    . rintro ⟨tail, rfl, htail⟩
      cases tail with
      | nil => cases htail
      | cons head tail =>
        by_cases hsame : head = name
        . subst hsame
          rw [lookup_cons_same] at htail
          split at htail
          . next hempty =>
            cases htail
            rw [List.isEmpty_iff.mp hempty]
            exact .inl ⟨rfl, rfl⟩
          . right
            left
            split at htail
            . next sub =>
              rw [Node.contents, ihSub sub rfl hnode]
              exact ⟨tail, by simp, htail⟩
            . cases htail
        . rw [lookup_cons_other hsame] at htail
          exact .inr (.inr ⟨_, rfl, htail⟩)

theorem lookup_of_append (h : lookup entries (path ++ tail) = some node)
    (hpath : path ≠ []) (htail : tail ≠ []) : ∃ sub, lookup entries path = some (.directory sub) := by
  induction path generalizing entries with
  | nil => exact absurd rfl hpath
  | cons head path ih =>
    rw [List.cons_append, lookup] at h
    rw [lookup]
    cases hhead : entries.lookup head with
    | none =>
      rw [hhead] at h
      cases h
    | some first =>
      rw [hhead] at h
      dsimp only at h ⊢
      rw [if_neg (by simp [htail])] at h
      cases first with
      | directory sub =>
        cases path with
        | nil => exact ⟨sub, rfl⟩
        | cons second path => exact ih h (List.cons_ne_nil _ _)
      | _ => cases h

theorem listing_nodup (hwell : WellFormed entries) {base : List String}
    : ((listing base entries).map Prod.fst).Nodup := by
  induction entries using Entries.induct generalizing base with
  | nil => exact List.nodup_nil
  | cons first child rest ihSub ih =>
    obtain ⟨_, _, hfresh, hchild, hrest⟩ := hwell
    -- what lies in the directory and what comes after it have other first names
    have hcontents : ∀ path ∈ (child.contents (base ++ [first])).map Prod.fst,
        ∃ tail, tail ≠ [] ∧ path = base ++ first :: tail := by
      intro path hpath
      obtain ⟨⟨found, below⟩, hmem, rfl⟩ := List.mem_map.mp hpath
      cases child with
      | directory sub =>
        obtain ⟨tail, htail, hlookup⟩ := (mem_listing hchild).mp hmem
        exact ⟨tail, ne_nil_of_lookup hlookup, by simp [htail]⟩
      | _ => cases hmem
    have hlater : ∀ path ∈ (listing base rest).map Prod.fst,
        ∃ head tail, head ≠ first ∧ path = base ++ head :: tail := by
      intro path hpath
      obtain ⟨⟨found, later⟩, hmem, rfl⟩ := List.mem_map.mp hpath
      obtain ⟨tail, htail, hlookup⟩ := (mem_listing hrest).mp hmem
      cases tail with
      | nil => cases hlookup
      | cons head tail =>
        refine ⟨head, tail, ?_, htail⟩
        rintro rfl
        exact hfresh (mem_names_of_lookup hlookup)
    rw [listing, List.map_cons, List.map_append, List.nodup_cons, List.nodup_append]
    refine ⟨?_, ?_, ih hrest, ?_⟩
    . rw [List.mem_append, not_or]
      constructor
      . intro hmem
        obtain ⟨tail, hne, hsame⟩ := hcontents _ hmem
        exact hne (List.cons.inj (List.append_cancel_left hsame)).2.symm
      . intro hmem
        obtain ⟨head, tail, hne, hsame⟩ := hlater _ hmem
        exact hne (List.cons.inj (List.append_cancel_left hsame)).1.symm
    . cases child with
      | directory sub => exact ihSub sub rfl hchild
      | _ => exact List.nodup_nil
    . intro below hbelow later hmem hsame
      obtain ⟨tail, _, htail⟩ := hcontents below hbelow
      obtain ⟨head, tail', hne, hhead⟩ := hlater later hmem
      rw [htail, hhead] at hsame
      exact hne (List.cons.inj (List.append_cancel_left hsame)).1.symm

theorem lookup_names (hwell : WellFormed entries) (h : lookup entries path = some node)
    : ∀ name ∈ path, '/' ∉ name.toList := by
  induction entries using Entries.induct generalizing path node with
  | nil => cases path <;> cases h
  | cons first child rest ihSub ih =>
    obtain ⟨_, hslash, _, hchild, hrest⟩ := hwell
    cases path with
    | nil => cases h
    | cons head tail =>
      by_cases hsame : head = first
      . subst hsame
        rw [lookup_cons_same] at h
        split at h
        . next hempty =>
          rw [List.isEmpty_iff.mp hempty]
          simpa using hslash
        . split at h
          . next sub => exact List.forall_mem_cons.mpr ⟨hslash, ihSub sub rfl hchild h⟩
          . cases h
      . rw [lookup_cons_other hsame] at h
        exact ih hrest h

end Lookup

section Files

def names (files : List (List String × α)) : List String :=
  (files.filterMap (fun file => file.1.head?)).dedup

def tails (name : String) (files : List (List String × α)) : List (List String × α) :=
  files.filterMap (fun file =>
    match file.1 with
    | first :: second :: rest => if first = name then some (second :: rest, file.2) else none
    | _ => none)

def ofFiles (depth : Nat) (files : List (List String × α)) : Entries α :=
  match depth with
  | 0 => []
  | depth + 1 =>
    (names files).map (fun name =>
      (name, match files.lookup [name] with
        | some content => .file content
        | none => .directory (ofFiles depth (tails name files))))

-- Non-empty paths of distinct files, none of which leads through another.
structure Separate (files : List (List String × α)) : Prop where
  nonempty : ∀ file ∈ files, file.1 ≠ []
  nodup : (files.map Prod.fst).Nodup
  apart : ∀ a ∈ files, ∀ b ∈ files, a.1 <+: b.1 → a.1 = b.1

variable {files : List (List String × α)} {name : String}

theorem mem_names : name ∈ names files ↔ ∃ rest content, (name :: rest, content) ∈ files := by
  unfold names
  rw [List.mem_dedup, List.mem_filterMap]
  constructor
  . rintro ⟨⟨path, content⟩, hfile, hhead⟩
    cases path with
    | nil => cases hhead
    | cons first rest =>
      cases hhead
      exact ⟨rest, content, hfile⟩
  . rintro ⟨rest, content, hfile⟩
    exact ⟨_, hfile, rfl⟩

theorem mem_tails {path : List String} {content : α}
    : (path, content) ∈ tails name files ↔ path ≠ [] ∧ (name :: path, content) ∈ files := by
  unfold tails
  rw [List.mem_filterMap]
  constructor
  . rintro ⟨⟨whole, content'⟩, hfile, h⟩
    split at h
    . next first second rest hwhole =>
      split at h
      . next hsame =>
        cases h
        subst hsame
        dsimp only at hwhole
        rw [hwhole] at hfile
        exact ⟨List.cons_ne_nil _ _, hfile⟩
      . cases h
    . cases h
  . rintro ⟨hne, hfile⟩
    refine ⟨_, hfile, ?_⟩
    cases path with
    | nil => exact absurd rfl hne
    | cons second rest => simp

theorem tails_sublist
    : ((tails name files).map (fun file => name :: file.1)).Sublist (files.map Prod.fst) := by
  induction files with
  | nil => exact List.Sublist.slnil
  | cons file files ih =>
    unfold tails at ih ⊢
    rw [List.filterMap_cons]
    obtain ⟨path, content⟩ := file
    split
    . exact ih.cons _
    . next kept hkept =>
      dsimp only at hkept
      split at hkept
      . next first second rest =>
        split at hkept
        . next hsame =>
          cases hkept
          subst hsame
          exact ih.cons_cons _
        . cases hkept
      . cases hkept

theorem Separate.tails (h : Separate files) : Separate (tails name files) := by
  refine ⟨?_, ?_, ?_⟩
  . intro file hfile
    exact (mem_tails.mp hfile).1
  . have hnodup := h.nodup.sublist (@tails_sublist _ files name)
    apply List.Nodup.of_map (name :: ·)
    rw [List.map_map]
    exact hnodup
  . intro a ha b hb hfront
    have hsame := h.apart _ (mem_tails.mp ha).2 _ (mem_tails.mp hb).2
      (List.cons_prefix_cons.mpr ⟨rfl, hfront⟩)
    exact (List.cons.inj hsame).2

theorem lookup_eq_some_iff {κ β : Type} [BEq κ] [LawfulBEq κ] {pairs : List (κ × β)}
    (hnodup : (pairs.map Prod.fst).Nodup) {key : κ} {value : β}
    : pairs.lookup key = some value ↔ (key, value) ∈ pairs := by
  induction pairs with
  | nil => simp
  | cons pair pairs ih =>
    obtain ⟨first, other⟩ := pair
    rw [List.map_cons, List.nodup_cons] at hnodup
    rw [List.lookup_cons]
    by_cases hsame : key = first
    . subst hsame
      rw [beq_self_eq_true]
      simp only [Option.some.injEq, List.mem_cons, Prod.mk.injEq, true_and]
      constructor
      . intro h
        exact .inl h.symm
      . rintro (h | h)
        . exact h.symm
        . exact absurd (List.mem_map_of_mem (f := Prod.fst) h) hnodup.1
    . rw [beq_eq_false_iff_ne.mpr hsame]
      dsimp only
      rw [ih hnodup.2]
      simp [hsame]

theorem lookup_map_names {β : Type} {f : String → β} {names : List String}
    : (names.map (fun name => (name, f name))).lookup name
      = if name ∈ names then some (f name) else none := by
  induction names with
  | nil => rfl
  | cons first names ih =>
    rw [List.map_cons, List.lookup_cons]
    by_cases hsame : name = first
    . subst hsame
      simp
    . rw [beq_eq_false_iff_ne.mpr hsame, ih]
      simp [hsame]

variable {depth : Nat}

theorem lookup_ofFiles_cons {rest : List String}
    : lookup (ofFiles (depth + 1) files) (name :: rest)
      = if name ∈ names files then
          match files.lookup [name] with
          | some content => if rest.isEmpty then some (.file content) else none
          | none =>
            if rest.isEmpty then some (.directory (ofFiles depth (tails name files)))
            else lookup (ofFiles depth (tails name files)) rest
        else none := by
  rw [lookup, ofFiles, lookup_map_names]
  by_cases hname : name ∈ names files
  . rw [if_pos hname, if_pos hname]
    cases hfile : files.lookup [name] with
    | some content => rfl
    | none => rfl
  . rw [if_neg hname, if_neg hname]

theorem lookup_ofFiles (h : Separate files)
    (hdepth : ∀ file ∈ files, file.1.length ≤ depth) {path : List String} {content : α}
    (hfile : (path, content) ∈ files) : lookup (ofFiles depth files) path = some (.file content) := by
  induction depth generalizing files path with
  | zero =>
    have hempty := List.length_eq_zero_iff.mp (Nat.le_zero.mp (hdepth _ hfile))
    exact absurd hempty (h.nonempty _ hfile)
  | succ depth ih =>
    cases path with
    | nil => exact absurd rfl (h.nonempty _ hfile)
    | cons name rest =>
      rw [lookup_ofFiles_cons, if_pos (mem_names.mpr ⟨rest, content, hfile⟩)]
      cases hname : files.lookup [name] with
      | some other =>
        have hother := (lookup_eq_some_iff h.nodup).mp hname
        have hsame := h.apart _ hother _ hfile (List.cons_prefix_cons.mpr ⟨rfl, List.nil_prefix⟩)
        have hrest : rest = [] := (List.cons.inj hsame).2.symm
        subst hrest
        rw [(lookup_eq_some_iff h.nodup).mpr hfile] at hname
        cases hname
        rfl
      | none =>
        cases rest with
        | nil =>
          rw [(lookup_eq_some_iff h.nodup).mpr hfile] at hname
          cases hname
        | cons second rest =>
          apply ih h.tails _ (mem_tails.mpr ⟨List.cons_ne_nil _ _, hfile⟩)
          intro file hmem
          have hlength := hdepth _ (mem_tails.mp hmem).2
          rw [List.length_cons] at hlength
          omega

theorem lookup_ofFiles_some (h : Separate files) {path : List String} {node : Node α}
    (hnode : lookup (ofFiles depth files) path = some node)
    : (∃ content, node = .file content ∧ (path, content) ∈ files)
      ∨ (node.isDirectory = true ∧ ∃ file ∈ files, path <+: file.1 ∧ path ≠ file.1) := by
  induction depth generalizing files path with
  | zero => cases path <;> simp [ofFiles, lookup] at hnode
  | succ depth ih =>
    cases path with
    | nil => cases hnode
    | cons name rest =>
      rw [lookup_ofFiles_cons] at hnode
      split at hnode
      . next hname =>
        split at hnode
        . next content hcontent =>
          split at hnode
          . next hempty =>
            cases hnode
            rw [List.isEmpty_iff.mp hempty]
            exact .inl ⟨content, rfl, (lookup_eq_some_iff h.nodup).mp hcontent⟩
          . cases hnode
        . next hnone =>
          split at hnode
          . next hempty =>
            cases hnode
            rw [List.isEmpty_iff.mp hempty]
            obtain ⟨tail, content, hfile⟩ := mem_names.mp hname
            refine .inr ⟨rfl, _, hfile, List.cons_prefix_cons.mpr ⟨rfl, List.nil_prefix⟩, ?_⟩
            intro hsame
            dsimp only at hsame
            rw [← hsame] at hfile
            rw [(lookup_eq_some_iff h.nodup).mpr hfile] at hnone
            cases hnone
          . cases ih h.tails hnode with
            | inl hfile =>
              obtain ⟨content, hsame, hmem⟩ := hfile
              exact .inl ⟨content, hsame, (mem_tails.mp hmem).2⟩
            | inr hdirectory =>
              obtain ⟨hsort, file, hmem, hfront, hne⟩ := hdirectory
              refine .inr ⟨hsort, _, (mem_tails.mp hmem).2, ?_, ?_⟩
              . exact List.cons_prefix_cons.mpr ⟨rfl, hfront⟩
              . exact fun hsame => hne (List.cons.inj hsame).2
      . cases hnode

theorem WellFormed.of_names {names : List String} {f : String → Node α} (hnodup : names.Nodup)
    (hnames : ∀ name ∈ names, name ≠ "" ∧ '/' ∉ name.toList ∧ (f name).WellFormed)
    : WellFormed (names.map (fun name => (name, f name))) := by
  induction names with
  | nil => exact trivial
  | cons name names ih =>
    obtain ⟨hfresh, hnodup⟩ := List.nodup_cons.mp hnodup
    obtain ⟨hempty, hslash, hnode⟩ := hnames name List.mem_cons_self
    refine ⟨hempty, hslash, ?_, hnode, ih hnodup (fun other hother =>
      hnames other (List.mem_cons_of_mem _ hother))⟩
    rw [List.map_map]
    simpa using hfresh

theorem WellFormed.ofFiles (hnames : ∀ file ∈ files, ∀ name ∈ file.1, name ≠ "" ∧ '/' ∉ name.toList)
    : WellFormed (ofFiles depth files) := by
  induction depth generalizing files with
  | zero => exact trivial
  | succ depth ih =>
    unfold FileTree.ofFiles
    apply WellFormed.of_names (List.nodup_dedup _)
    intro name hname
    obtain ⟨rest, content, hfile⟩ := mem_names.mp hname
    obtain ⟨hempty, hslash⟩ := hnames _ hfile name List.mem_cons_self
    refine ⟨hempty, hslash, ?_⟩
    split
    . exact trivial
    . apply ih
      intro file hmem other hother
      exact hnames _ (mem_tails.mp hmem).2 other (List.mem_cons_of_mem _ hother)

end Files

end FileTree
