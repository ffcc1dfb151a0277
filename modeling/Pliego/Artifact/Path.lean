import Pliego.Lib.Fields
import Pliego.Lib.SortedMap
import Pliego.Router.Pattern

/-!
Portable paths of `pliego-artifact` and the namespace that a set of output paths shares.
-/

namespace Pliego

open Bytes Text

namespace Artifact

open Router (Unicode)

def maxPortablePathBytes : Nat := 4096

def maxComponentBytes : Nat := 255

def maxPathComponents : Nat := 128

def maxNamespaceComponents : Nat := 262144

def maxNamespacePrefixBytes : Nat := 16 * 1024 * 1024

inductive ArtifactError where
  | invalidPath (path : String)
  | namespaceCollision (path existing detail : String)
  | invalidReceipt (message : String)
  | missing (path : String)
  | extra (path : String)
  | modified (path : String)
  | unstable (path : String)
  | io (path : String)
  | json (message : String)
  deriving DecidableEq, Repr

def ensure (condition : Bool) (error : ArtifactError) : Except ArtifactError Unit :=
  if condition then .ok () else .error error

@[simp]
theorem ensure_ok {condition : Bool} {error : ArtifactError}
    : ensure condition error = .ok () ↔ condition = true := by
  unfold ensure
  split <;> simp_all

structure PortablePath where
  value : String
  collisionKey : String
  componentKeys : List String
  deriving DecidableEq, Repr

def isPortableComponent (component : String) : Bool :=
  component ≠ "" && component ≠ "." && component ≠ ".."
    && (utf8 component).length ≤ maxComponentBytes
    && !endsWith '.' component && !endsWith ' ' component
    && !component.toList.any Router.isReservedCharacter

def isReservedComponent (unicode : Unicode) (component : String) : Bool :=
  Router.reservedNames.contains (unicode.portableCaseKey ((split '.' component).headD component))

def validateComponent (unicode : Unicode) (component fullPath : String)
    : Except ArtifactError Unit :=
  ensure (isPortableComponent component && !isReservedComponent unicode component)
    (.invalidPath fullPath)

namespace PortablePath

def parse (unicode : Unicode) (value : String) : Except ArtifactError PortablePath := do
  ensure (value ≠ "" && (utf8 value).length ≤ maxPortablePathBytes && !startsWith '/' value
    && !endsWith '/' value && !contains value '\\') (.invalidPath value)
  let normalized := unicode.nfc value
  ensure ((utf8 normalized).length ≤ maxPortablePathBytes) (.invalidPath value)
  let components := split '/' normalized
  ensure (components.length ≤ maxPathComponents) (.invalidPath value)
  components.forM (fun component => validateComponent unicode component value)
  let componentKeys := components.map unicode.portableCaseKey
  .ok ⟨normalized, join '/' componentKeys, componentKeys⟩

def components (path : PortablePath) : List String :=
  split '/' path.value

def directories (path : PortablePath) : List (String × String) :=
  (List.range (path.components.length - 1)).map (fun i =>
    (join '/' (path.componentKeys.take (i + 1)), join '/' (path.components.take (i + 1))))

end PortablePath

structure OutputNamespace where
  files : SortedMap String (String × String)
  directories : SortedMap String String
  components : Nat
  prefixBytes : Nat

namespace OutputNamespace

def new : OutputNamespace := ⟨.empty, .empty, 0, 0⟩

def addDirectory (path : PortablePath) (space : OutputNamespace) (directory : String × String)
    : Except ArtifactError OutputNamespace :=
  match space.files.get? directory.1 with
  | some existing =>
    .error (.namespaceCollision path.value existing.1 "a file is also used as a directory")
  | none =>
    match space.directories.get? directory.1 with
    | some existing =>
      if existing ≠ directory.2 then
        .error (.namespaceCollision path.value existing
          "a directory has ambiguous case or Unicode spelling")
      else
        .ok space
    | none =>
      let prefixBytes := space.prefixBytes + (utf8 directory.1).length + (utf8 directory.2).length
      if prefixBytes ≤ maxNamespacePrefixBytes then
        .ok { space with
          prefixBytes
          directories := space.directories.insert directory.1 directory.2 }
      else
        .error (.invalidReceipt ("artifact namespace exceeds " ++ toString maxNamespacePrefixBytes
          ++ " stored prefix bytes"))

def insert (space : OutputNamespace) (path : PortablePath) (owner : String)
    : Except ArtifactError OutputNamespace :=
  let components := space.components + path.componentKeys.length
  if components ≤ maxNamespaceComponents then
    match space.files.get? path.collisionKey with
    | some existing =>
      .error (.namespaceCollision path.value existing.1
        "two files resolve to the same portable path")
    | none => do
      let space ← path.directories.foldlM (addDirectory path) space
      match space.directories.get? path.collisionKey with
      | some existing =>
        .error (.namespaceCollision path.value existing "a file is also used as a directory")
      | none =>
        .ok { space with
          files := space.files.insert path.collisionKey (path.value, owner)
          components }
  else
    .error (.invalidReceipt ("artifact namespace exceeds " ++ toString maxNamespaceComponents
      ++ " path components"))

def insertStr (unicode : Unicode) (space : OutputNamespace) (path owner : String)
    : Except ArtifactError (PortablePath × OutputNamespace) := do
  let path ← PortablePath.parse unicode path
  let space ← space.insert path owner
  .ok (path, space)

end OutputNamespace

section Paths

variable {unicode : Unicode} {value : String} {path : PortablePath}

theorem PortablePath.parse_ok
    : parse unicode value = .ok path
      ↔ (value ≠ "" ∧ (utf8 value).length ≤ maxPortablePathBytes ∧ startsWith '/' value = false
          ∧ endsWith '/' value = false ∧ contains value '\\' = false)
        ∧ (utf8 (unicode.nfc value)).length ≤ maxPortablePathBytes
        ∧ (split '/' (unicode.nfc value)).length ≤ maxPathComponents
        ∧ (∀ component ∈ split '/' (unicode.nfc value),
            isPortableComponent component = true ∧ isReservedComponent unicode component = false)
        ∧ path = ⟨unicode.nfc value,
            join '/' ((split '/' (unicode.nfc value)).map unicode.portableCaseKey),
            (split '/' (unicode.nfc value)).map unicode.portableCaseKey⟩ := by
  unfold parse validateComponent
  simp only [Except.bind_unit_eq_ok, ensure_ok, Except.forM_eq_ok, Bool.and_eq_true,
    decide_eq_true_eq, Bool.not_eq_true', Except.ok.injEq, and_assoc, eq_comm (a := path)]

theorem PortablePath.mem_directories {directory : String × String}
    : directory ∈ path.directories ↔ ∃ n, 0 < n ∧ n < path.components.length
        ∧ directory = (join '/' (path.componentKeys.take n), join '/' (path.components.take n)) := by
  unfold directories
  rw [List.mem_map]
  constructor
  . rintro ⟨i, hi, rfl⟩
    rw [List.mem_range] at hi
    exact ⟨i + 1, Nat.succ_pos i, by omega, rfl⟩
  . rintro ⟨n, hpos, hn, rfl⟩
    refine ⟨n - 1, List.mem_range.mpr (by omega), ?_⟩
    rw [Nat.sub_add_cancel hpos]

theorem isPortableComponent_ne {component : String} (h : isPortableComponent component = true)
    : component ≠ "" := by
  unfold isPortableComponent at h
  simp only [Bool.and_eq_true, decide_eq_true_eq] at h
  exact h.1.1.1.1.1.1

structure PortablePath.Canonical (unicode : Unicode) (path : PortablePath) : Prop where
  parse : PortablePath.parse unicode path.value = .ok path
  normal : ∀ component ∈ path.components, unicode.nfc component = component
  portable : ∀ component ∈ path.components,
    isPortableComponent component = true ∧ isReservedComponent unicode component = false
  plain : ∀ component ∈ path.components,
    '/' ∉ component.toList ∧ contains component '\\' = false ∧ component ≠ ""
  keys : path.componentKeys = path.components.map unicode.portableCaseKey
  key : path.collisionKey = join '/' path.componentKeys
  size : (utf8 path.value).length ≤ maxPortablePathBytes
  count : path.components.length ≤ maxPathComponents

theorem PortablePath.canonical_of_parse (hunicode : unicode.KeepsSlashes)
    (h : parse unicode value = .ok path) (hvalue : path.value = value)
    : path.Canonical unicode := by
  obtain ⟨⟨hempty, hsize, hfirst, hlast, hslash⟩, hnormalSize, hcount, hcomponents, hpath⟩ :=
    parse_ok.mp h
  have hnormal : unicode.nfc value = value := by
    rw [hpath] at hvalue
    exact hvalue
  rw [hnormal] at hcount hcomponents hpath
  have hsplit : path.components = split '/' value := by
    unfold components
    rw [hvalue]
  refine ⟨hvalue ▸ h, ?_, ?_, ?_, ?_, ?_, ?_, ?_⟩
  . have hmap := hunicode value
    rw [hnormal] at hmap
    have hsame : (split '/' value).map unicode.nfc = (split '/' value).map id := by
      rw [List.map_id]
      exact hmap.symm
    rw [hsplit]
    exact List.map_eq_map_iff.mp hsame
  . rw [hsplit]
    exact hcomponents
  . rw [hsplit]
    intro component hcomponent
    refine ⟨not_mem_of_mem_split hcomponent, ?_, isPortableComponent_ne (hcomponents _ hcomponent).1⟩
    unfold contains at hslash ⊢
    rw [List.contains_eq_mem, decide_eq_false_iff_not] at hslash ⊢
    exact fun hmem => hslash (mem_of_mem_split hcomponent hmem)
  . rw [hsplit, hpath]
  . rw [hpath]
  . rw [hvalue]
    exact hsize
  . rw [hsplit]
    exact hcount

theorem PortablePath.Canonical.directory (hunicode : unicode.KeepsSlashes)
    (h : path.Canonical unicode) {key spelling : String} (hdirectory : (key, spelling) ∈ path.directories)
    : ∃ parent : PortablePath, parent.Canonical unicode ∧ parent.value = spelling
        ∧ parent.collisionKey = key := by
  obtain ⟨n, hpos, hn, hpair⟩ := mem_directories.mp hdirectory
  obtain ⟨hkey, hspelling⟩ := Prod.mk.inj hpair
  have hsub : ∀ component ∈ path.components.take n, component ∈ path.components :=
    fun component hmem => List.mem_of_mem_take hmem
  have hne : path.components.take n ≠ [] := by
    intro hnil
    rw [List.take_eq_nil_iff] at hnil
    cases hnil with
    | inl hzero => omega
    | inr hnil =>
      rw [hnil] at hn
      cases hn
  have hplain : ∀ component ∈ path.components.take n,
      '/' ∉ component.toList ∧ component ≠ "" := by
    intro component hmem
    exact ⟨(h.plain _ (hsub _ hmem)).1, (h.plain _ (hsub _ hmem)).2.2⟩
  have hsplit : split '/' spelling = path.components.take n := by
    rw [hspelling]
    exact split_join (fun component hmem => (hplain component hmem).1) hne
  have hnormal : unicode.nfc spelling = spelling := by
    apply split_inj (c := '/')
    rw [hunicode spelling, hsplit]
    calc (path.components.take n).map unicode.nfc
        = (path.components.take n).map id :=
          List.map_congr_left (fun component hmem => h.normal component (hsub component hmem))
      _ = path.components.take n := List.map_id _
  have hsize : (utf8 spelling).length ≤ maxPortablePathBytes := by
    have hwhole : (utf8 path.value).length + 1
        = (path.components.map (fun component => (utf8 component).length + 1)).sum := by
      rw [← length_utf8_join (c := '/') (by decide) (by unfold components; exact split_ne_nil)]
      unfold components
      rw [join_split]
    have hpart := length_utf8_join (c := '/') (by decide) hne
    rw [← hspelling] at hpart
    have hle : ((path.components.take n).map (fun component => (utf8 component).length + 1)).sum
        ≤ (path.components.map (fun component => (utf8 component).length + 1)).sum :=
      List.Sublist.sum_le_sum ((List.take_sublist n _).map _) (fun _ _ => Nat.zero_le _)
    have := h.size
    omega
  have hends := join_ends hne hplain
  rw [← hspelling] at hends
  have hparse : PortablePath.parse unicode spelling
      = .ok ⟨spelling, key, path.componentKeys.take n⟩ := by
    rw [parse_ok, hnormal, hsplit]
    refine ⟨⟨?_, hsize, hends.1, hends.2, ?_⟩, hsize, ?_, ?_, ?_⟩
    . rintro rfl
      have hfirst : "" ∈ path.components.take n := by
        rw [← hsplit]
        decide
      exact (hplain _ hfirst).2 rfl
    . rw [hspelling]
      exact contains_join (by decide) (fun component hmem => (h.plain _ (hsub _ hmem)).2.1)
    . exact (List.length_take_le' n _).trans h.count
    . exact fun component hmem => h.portable component (hsub component hmem)
    . rw [hkey, h.keys, List.map_take]
  exact ⟨_, canonical_of_parse hunicode hparse rfl, rfl, rfl⟩

end Paths

end Artifact

end Pliego
