import Pliego.Log.FailedCalls
import Pliego.Log.SchemaSet

/-!
When the schema that a failed registration leaves behind is noticed: sealing reports another error, or fails where it
did not, unless it fails before it comes to the schema.
-/

namespace Pliego

open EventCatalogBuilder (checkVersions checkEdge sealKind)

variable {E : Type} {codec : EventCodec E}

section Versions

variable {name : String} {current : Nat}

theorem checkVersions_append {previous : Option Nat} {front rest : List Nat}
    : checkVersions name current previous (front ++ rest)
      = (checkVersions name current previous front).bind fun _ =>
          checkVersions name current (front.getLast?.or previous) rest := by
  induction front generalizing previous with
  | nil => rfl
  | cons version front ih =>
    have hlast : (version :: front).getLast?.or previous = front.getLast?.or (some version) := by
      cases front with
      | nil => rfl
      | cons next front =>
        rw [List.getLast?_cons_cons]
        cases hlast : (next :: front).getLast? with
        | none => cases List.getLast?_eq_none_iff.mp hlast
        | some last => rfl
    rw [hlast, List.cons_append,
      EventCatalogBuilder.checkVersions.eq_def name current previous (version :: (front ++ rest)),
      EventCatalogBuilder.checkVersions.eq_def name current previous (version :: front)]
    dsimp only
    split
    . rfl
    . split
      . split
        . rfl
        . exact ih
      . exact ih

theorem checkVersions_some_ok {previous : Nat} {versions : List Nat} (hsorted : (previous :: versions).Pairwise (· < ·))
    : checkVersions name current (some previous) versions = .ok ()
      ↔ ∀ version ∈ versions, version ≤ current ∧ version - 1 ∈ previous :: versions := by
  induction versions generalizing previous with
  | nil => exact ⟨fun _ => nofun, fun _ => rfl⟩
  | cons first rest ih =>
    obtain ⟨hprevious, hrest⟩ := List.pairwise_cons.mp hsorted
    have hfirst := hprevious first List.mem_cons_self
    have hlater := (List.pairwise_cons.mp hrest).1
    unfold checkVersions
    split
    . next hpast => exact iff_of_false (fun h => by cases h) (fun h => absurd (h first List.mem_cons_self).1 (not_le.mpr hpast))
    . next hbound =>
      dsimp only
      split
      . next hgap =>
        refine iff_of_false (fun h => by cases h) (fun h => ?_)
        have hbefore := (h first List.mem_cons_self).2
        rw [List.mem_cons, List.mem_cons] at hbefore
        rcases hbefore with hsame | hsame | hmem
        . omega
        . omega
        . have hlt := hlater _ hmem
          omega
      . next hnext =>
        rw [ne_eq, not_not] at hnext
        rw [ih hrest]
        constructor
        . intro h version hversion
          cases hversion with
          | head => exact ⟨not_lt.mp hbound, by rw [hnext]; exact List.mem_cons_self⟩
          | tail _ hversion => exact ⟨(h version hversion).1, List.mem_cons_of_mem _ (h version hversion).2⟩
        . intro h version hversion
          obtain ⟨hle, hbefore⟩ := h version (List.mem_cons_of_mem _ hversion)
          refine ⟨hle, ?_⟩
          cases hbefore with
          | head =>
            have hlt := hlater version hversion
            omega
          | tail _ hbefore => exact hbefore

-- A version past the current one, or one that is neither the first nor follows another.
def BreaksIn (versions : List Nat) (current version : Nat) : Prop :=
  version ∈ versions ∧ (current < version ∨ (version - 1 ∉ versions ∧ ∃ lower ∈ versions, lower < version))

theorem checkVersions_none_ok {versions : List Nat} (hsorted : versions.Pairwise (· < ·))
    : checkVersions name current none versions = .ok () ↔ ∀ version, ¬ BreaksIn versions current version := by
  cases versions with
  | nil => exact ⟨fun _ _ hbreaks => absurd hbreaks.1 List.not_mem_nil, fun _ => rfl⟩
  | cons first rest =>
    have hlater := (List.pairwise_cons.mp hsorted).1
    unfold checkVersions
    split
    . next hpast => exact iff_of_false (fun h => by cases h) (fun h => h first ⟨List.mem_cons_self, .inl hpast⟩)
    . next hbound =>
      dsimp only
      rw [checkVersions_some_ok hsorted]
      constructor
      . intro h version hbreaks
        obtain ⟨hversion, hbreaks⟩ := hbreaks
        cases hversion with
        | head =>
          rcases hbreaks with hpast | ⟨-, lower, hlower, hlt⟩
          . exact hbound hpast
          . cases hlower with
            | head => exact lt_irrefl _ hlt
            | tail _ hlower => exact absurd hlt (hlater lower hlower).asymm
        | tail _ hversion =>
          obtain ⟨hle, hbefore⟩ := h version hversion
          rcases hbreaks with hpast | ⟨hmissing, -⟩
          . exact absurd hpast (not_lt.mpr hle)
          . exact hmissing hbefore
      . intro h version hversion
        have hnone := h version
        unfold BreaksIn at hnone
        simp only [List.mem_cons_of_mem _ hversion, true_and, not_or, not_lt] at hnone
        refine ⟨hnone.1, ?_⟩
        by_contra hmissing
        exact hnone.2 ⟨hmissing, first, List.mem_cons_self, hlater version hversion⟩

theorem checkVersions_some_error {previous : Nat} {versions : List Nat} {error : CatalogBuildError}
    (hsorted : (previous :: versions).Pairwise (· < ·))
    (h : checkVersions name current (some previous) versions = .error error)
    : (∃ version ∈ versions, error = .schemaPastCurrent name version current)
      ∨ ∃ version, previous < version ∧ error = .schemaGap name version := by
  induction versions generalizing previous with
  | nil => cases h
  | cons first rest ih =>
    obtain ⟨hprevious, hrest⟩ := List.pairwise_cons.mp hsorted
    have hfirst := hprevious first List.mem_cons_self
    unfold checkVersions at h
    split at h
    . cases h
      exact .inl ⟨first, List.mem_cons_self, rfl⟩
    . dsimp only at h
      split at h
      . cases h
        exact .inr ⟨previous + 1, Nat.lt_succ_self _, rfl⟩
      . rcases ih hrest h with ⟨version, hversion, herror⟩ | ⟨version, hlt, herror⟩
        . exact .inl ⟨version, List.mem_cons_of_mem _ hversion, herror⟩
        . exact .inr ⟨version, hfirst.trans hlt, herror⟩

end Versions

namespace KindBuilder

def Known (kind : KindBuilder E) (version : Nat) : Prop := (kind.schemas.get? version).isSome = true

-- A version past the current one, or one whose predecessor is missing above the lowest version.
def Breaks (kind : KindBuilder E) (current version : Nat) : Prop :=
  kind.Known version ∧ (current < version ∨ (¬ kind.Known (version - 1) ∧ ∃ lower < version, kind.Known lower))

def Sealable (kind : KindBuilder E) : Prop :=
  ∃ current, kind.current = some current ∧ kind.Known current.version
    ∧ (∀ version, ¬ kind.Breaks current.version version)
    ∧ (∀ version < current.version, kind.Known version → (kind.upcasters.get? version).isSome = true)
    ∧ ∀ source edge, kind.upcasters.get? source = some edge → source < current.version

-- Sealing the kind fails in the same way with a new schema of this version.
def Masks (kind : KindBuilder E) (version : Nat) : Prop :=
  kind.current = none ∨ ∃ current, kind.current = some current
    ∧ ((∃ lower < version, kind.Breaks current.version lower)
      ∨ (kind.Known (version + 1) ∧ (∀ lower < version, ¬ kind.Known lower)
        ∧ ∃ broken, kind.Breaks current.version broken)
      ∨ (version < current.version ∧ ¬ kind.Known (version - 1) ∧ ∃ lower < version, kind.Known lower))

end KindBuilder

section Kinds

variable {kind : KindBuilder E} {name : String} {current : CurrentSchema E} {version : Nat} {schemaId : String}

theorem known_iff : kind.Known version ↔ version ∈ kind.schemas.keys :=
  SortedMap.mem_keys.symm

theorem breaks_iff {current : Nat} : kind.Breaks current version ↔ BreaksIn kind.schemas.keys current version := by
  unfold KindBuilder.Breaks BreaksIn
  simp only [known_iff]
  constructor
  . rintro ⟨hversion, hpast | ⟨hmissing, lower, hlt, hlower⟩⟩
    . exact ⟨hversion, .inl hpast⟩
    . exact ⟨hversion, .inr ⟨hmissing, lower, hlower, hlt⟩⟩
  . rintro ⟨hversion, hpast | ⟨hmissing, lower, hlower, hlt⟩⟩
    . exact ⟨hversion, .inl hpast⟩
    . exact ⟨hversion, .inr ⟨hmissing, lower, hlt, hlower⟩⟩

def sealEdges (name : String) (kind : KindBuilder E) (current : CurrentSchema E)
    : Except CatalogBuildError (SealedEntry E) :=
  ((kind.schemas.keys.takeWhile (fun version => decide (version < current.version))).forM
    (checkEdge name kind.upcasters)).bind fun _ =>
      match kind.upcasters.entries.find? (fun entry =>
        decide (current.version ≤ entry.1) || decide (current.version < entry.2.target)) with
      | some entry => .error (.upcastPastCurrent name entry.1 current.version)
      | none => .ok ⟨kind.schemas, current, kind.upcasters, kind.adjacent⟩

theorem sealKind_eq (hcurrent : kind.current = some current) (hknown : kind.Known current.version)
    : sealKind name kind = (checkVersions name current.version none kind.schemas.keys).bind fun _ =>
        sealEdges name kind current := by
  unfold sealKind
  rw [hcurrent]
  dsimp only
  rw [if_neg]
  . rfl
  . rw [Bool.not_eq_true, Option.isNone_eq_false_iff]
    exact hknown

theorem forM_error {ε α : Type} {values : List α} {f : α → Except ε Unit} {error : ε} (h : values.forM f = .error error)
    : ∃ value ∈ values, f value = .error error := by
  induction values with
  | nil => cases h
  | cons first rest ih =>
    rw [List.forM_eq_forM] at ih
    rw [List.forM_eq_forM, List.forM_cons] at h
    cases hfirst : f first with
    | error found =>
      rw [hfirst] at h
      cases h
      exact ⟨first, List.mem_cons_self, hfirst⟩
    | ok done =>
      rw [hfirst] at h
      obtain ⟨value, hvalue, herror⟩ := ih h
      exact ⟨value, List.mem_cons_of_mem _ hvalue, herror⟩

-- An error of the edges is not one of the versions.
inductive OfEdges (name : String) (versions : List Nat) : CatalogBuildError → Prop where
  | missing (source : Nat) (hsource : source ∈ versions) : OfEdges name versions (.missingUpcaster name source)
  | nonAdjacent (source target : Nat) : OfEdges name versions (.nonAdjacentUpcast name source target)
  | past (source current : Nat) : OfEdges name versions (.upcastPastCurrent name source current)

theorem sealEdges_error {error : CatalogBuildError} (h : sealEdges name kind current = .error error)
    : OfEdges name kind.schemas.keys error := by
  unfold sealEdges at h
  cases hedges : (kind.schemas.keys.takeWhile (fun version => decide (version < current.version))).forM
      (checkEdge name kind.upcasters) with
  | error found =>
    rw [hedges] at h
    cases h
    obtain ⟨source, hsource, herror⟩ := forM_error hedges
    unfold checkEdge at herror
    split at herror
    . cases herror
      exact .missing source ((List.takeWhile_sublist _).subset hsource)
    . split at herror
      . cases herror
        exact .nonAdjacent source _
      . cases herror
  | ok done =>
    rw [hedges] at h
    dsimp only [Except.bind] at h
    split at h
    . cases h
      exact .past _ _
    . cases h

theorem sealEdges_missing (hknown : kind.Known version) (hlt : version < current.version)
    (hnone : kind.upcasters.get? version = none)
    : ∃ error, sealEdges name kind current = .error error := by
  cases hedges : sealEdges name kind current with
  | error error => exact ⟨error, rfl⟩
  | ok entry =>
    unfold sealEdges at hedges
    obtain ⟨⟨⟩, hall, _⟩ := Except.bind_eq_ok.mp hedges
    have hedge := Except.forM_eq_ok.mp hall version
      (mem_takeWhile_of_sorted kind.schemas.keys_sorted (known_iff.mp hknown) hlt)
    unfold checkEdge at hedge
    rw [hnone] at hedge
    cases hedge

theorem keys_insertEntry {entries : List (Nat × String)} (hsorted : entries.Pairwise (fun a b => a.1 < b.1))
    (hfresh : version ∉ entries.map Prod.fst)
    : ∃ below above, entries.map Prod.fst = below ++ above
        ∧ (SortedMap.insertEntry version schemaId entries).map Prod.fst = below ++ version :: above
        ∧ (∀ lower ∈ below, lower < version) ∧ ∀ upper ∈ above, version < upper := by
  induction entries with
  | nil => exact ⟨[], [], rfl, rfl, nofun, nofun⟩
  | cons first rest ih =>
    rw [List.map_cons, List.mem_cons, not_or] at hfresh
    obtain ⟨hfirst, hrest⟩ := List.pairwise_cons.mp hsorted
    unfold SortedMap.insertEntry
    split
    . next hlt =>
      refine ⟨[], (first :: rest).map Prod.fst, rfl, rfl, nofun, ?_⟩
      intro upper hupper
      obtain ⟨entry, hentry, rfl⟩ := List.mem_map.mp hupper
      cases hentry with
      | head => exact hlt
      | tail _ hentry => exact hlt.trans (hfirst entry hentry)
    . next hge =>
      rw [if_neg hfresh.1]
      obtain ⟨below, above, hkeys, hkeys', hbelow, habove⟩ := ih hrest hfresh.2
      refine ⟨first.1 :: below, above, ?_, ?_, ?_, habove⟩
      . rw [List.map_cons, hkeys]
        rfl
      . rw [List.map_cons, hkeys']
        rfl
      . intro lower hlower
        cases hlower with
        | head => exact lt_of_le_of_ne (not_lt.mp hge) (Ne.symm hfresh.1)
        | tail _ hlower => exact hbelow lower hlower

theorem keys_withSchema (hfresh : kind.schemas.get? version = none) (schemaId : String)
    : ∃ below above, kind.schemas.keys = below ++ above
        ∧ (kind.withSchema version schemaId).schemas.keys = below ++ version :: above
        ∧ (∀ lower ∈ below, lower < version) ∧ ∀ upper ∈ above, version < upper := by
  apply keys_insertEntry kind.schemas.sorted
  intro hmem
  have hsome := SortedMap.mem_keys.mp hmem
  rw [hfresh] at hsome
  cases hsome

end Kinds

section Split

variable {kind : KindBuilder E} {name : String} {version bound : Nat} {schemaId : String} {below above : List Nat}

-- The versions of a kind below and above a new one.
structure SplitAt (kind : KindBuilder E) (version : Nat) (below above : List Nat) : Prop where
  keys : kind.schemas.keys = below ++ above
  below : ∀ lower ∈ below, lower < version
  above : ∀ upper ∈ above, version < upper

section

variable (h : SplitAt kind version below above)

include h

theorem SplitAt.mem_below {other : Nat}
    : other ∈ below ↔ other < version ∧ kind.Known other := by
  rw [known_iff, h.keys, List.mem_append]
  constructor
  . exact fun hmem => ⟨h.below other hmem, .inl hmem⟩
  . rintro ⟨hlt, hmem | hmem⟩
    . exact hmem
    . exact absurd hlt (h.above other hmem).asymm

theorem SplitAt.mem_above {other : Nat}
    : other ∈ above ↔ version < other ∧ kind.Known other := by
  rw [known_iff, h.keys, List.mem_append]
  constructor
  . exact fun hmem => ⟨h.above other hmem, .inr hmem⟩
  . rintro ⟨hlt, hmem | hmem⟩
    . exact absurd hlt (h.below other hmem).asymm
    . exact hmem

theorem SplitAt.sorted : (below ++ above).Pairwise (· < ·) :=
  h.keys ▸ kind.schemas.keys_sorted

theorem SplitAt.breaks_below
    : (∃ lower < version, kind.Breaks bound lower) ↔ checkVersions name bound none below ≠ .ok () := by
  rw [ne_eq, checkVersions_none_ok (List.pairwise_append.mp h.sorted).1]
  simp only [not_forall, not_not]
  unfold KindBuilder.Breaks BreaksIn
  constructor
  . rintro ⟨lower, hlt, hknown, hbreaks⟩
    refine ⟨lower, h.mem_below.mpr ⟨hlt, hknown⟩, ?_⟩
    rcases hbreaks with hpast | ⟨hmissing, lowest, hlowest, hlowestKnown⟩
    . exact .inl hpast
    . refine .inr ⟨fun hmem => hmissing (h.mem_below.mp hmem).2, lowest,
        h.mem_below.mpr ⟨hlowest.trans hlt, hlowestKnown⟩, hlowest⟩
  . rintro ⟨lower, hmem, hbreaks⟩
    obtain ⟨hlt, hknown⟩ := h.mem_below.mp hmem
    refine ⟨lower, hlt, hknown, ?_⟩
    rcases hbreaks with hpast | ⟨hmissing, lowest, hlowestMem, hlowest⟩
    . exact .inl hpast
    . refine .inr ⟨fun hbefore => hmissing (h.mem_below.mpr ⟨by omega, hbefore⟩), lowest, hlowest,
        (h.mem_below.mp hlowestMem).2⟩

end

theorem checkVersions_split {rest : List Nat} (hok : checkVersions name bound none below = .ok ())
    : checkVersions name bound none (below ++ rest) = checkVersions name bound below.getLast? rest := by
  rw [checkVersions_append, hok, Option.or_none]
  rfl

theorem SplitAt.past (h : SplitAt kind version below above) (hok : checkVersions name bound none below = .ok ())
    (hpast : bound < version)
    : checkVersions name bound none (below ++ version :: above) = .error (.schemaPastCurrent name version bound)
      ∧ checkVersions name bound none (below ++ above) ≠ .error (.schemaPastCurrent name version bound) := by
  rw [checkVersions_split hok, checkVersions_split hok]
  constructor
  . rw [EventCatalogBuilder.checkVersions.eq_def]
    dsimp only
    rw [if_pos hpast]
  . cases habove : above with
    | nil =>
      intro h
      cases h
    | cons upper rest =>
      have hlt := h.above upper (habove ▸ List.mem_cons_self)
      rw [EventCatalogBuilder.checkVersions.eq_def]
      dsimp only
      rw [if_pos (hpast.trans hlt)]
      intro heq
      injection heq with heq
      injection heq with _ hsame _
      omega

theorem SplitAt.lowest (h : SplitAt kind version [] above) (hlt : version < bound) (hbound : kind.Known bound)
    : (kind.Known (version + 1)
        → checkVersions name bound none (version :: above) = checkVersions name bound none above)
      ∧ (¬ kind.Known (version + 1) → checkVersions name bound none (version :: above) = .error (.schemaGap name (version + 1))
        ∧ checkVersions name bound none above ≠ .error (.schemaGap name (version + 1))) := by
  have hmem := h.mem_above.mpr ⟨hlt, hbound⟩
  have hsorted := h.sorted
  rw [List.nil_append] at hsorted
  have hmem_above := @SplitAt.mem_above E kind version [] above h
  have habove := h.above
  clear h
  cases above with
  | nil => exact absurd hmem List.not_mem_nil
  | cons upper rest =>
    have hupper := habove upper List.mem_cons_self
    have hlater := (List.pairwise_cons.mp hsorted).1
    have hle : upper ≤ bound := by
      cases hmem with
      | head => exact le_refl _
      | tail _ hmem => exact le_of_lt (hlater bound hmem)
    have hrest : checkVersions name bound none (upper :: rest) = checkVersions name bound (some upper) rest := by
      rw [EventCatalogBuilder.checkVersions.eq_def]
      dsimp only
      rw [if_neg (not_lt.mpr hle)]
    have hfirst : checkVersions name bound none (version :: upper :: rest)
        = checkVersions name bound (some version) (upper :: rest) := by
      rw [EventCatalogBuilder.checkVersions.eq_def]
      dsimp only
      rw [if_neg (not_lt.mpr (le_of_lt hlt))]
    have hnext : checkVersions name bound (some version) (upper :: rest)
        = if upper ≠ version + 1 then .error (.schemaGap name (version + 1))
          else checkVersions name bound (some upper) rest := by
      rw [EventCatalogBuilder.checkVersions.eq_def]
      dsimp only
      rw [if_neg (not_lt.mpr hle)]
    rw [hfirst, hnext, hrest]
    constructor
    . intro hknown
      have hnextMem := hmem_above.mpr ⟨Nat.lt_succ_self version, hknown⟩
      have hsame : upper = version + 1 := by
        cases hnextMem with
        | head => rfl
        | tail _ hnextMem =>
          have hbefore := hlater _ hnextMem
          omega
      exact if_neg (not_not.mpr hsame)
    . intro hunknown
      have hdiffers : upper ≠ version + 1 := by
        intro hsame
        exact hunknown (hsame ▸ (hmem_above.mp List.mem_cons_self).2)
      refine ⟨if_pos hdiffers, ?_⟩
      intro herror
      rcases checkVersions_some_error hsorted herror with ⟨past, -, hpast⟩ | ⟨gap, hgap, hsame⟩
      . cases hpast
      . injection hsame with _ hsame
        omega

theorem SplitAt.inside (h : SplitAt kind version below above) (hok : checkVersions name bound none below = .ok ())
    (hlt : version < bound) (hbound : kind.Known bound) (hlower : ∃ lower < version, kind.Known lower)
    : (¬ kind.Known (version - 1) → ∃ gap, checkVersions name bound none (below ++ version :: above) = .error (.schemaGap name gap)
        ∧ checkVersions name bound none (below ++ above) = .error (.schemaGap name gap))
      ∧ (kind.Known (version - 1) → checkVersions name bound none (below ++ above) = .error (.schemaGap name version)
        ∧ checkVersions name bound none (below ++ version :: above) ≠ .error (.schemaGap name version)) := by
  obtain ⟨lower, hlowerLt, hlowerKnown⟩ := hlower
  have hlowerMem := h.mem_below.mpr ⟨hlowerLt, hlowerKnown⟩
  have hne : below ≠ [] := List.ne_nil_of_mem hlowerMem
  have hlastMem := List.getLast_mem hne
  have hlastLt := h.below _ hlastMem
  have hmax : ∀ other ∈ below, other ≤ below.getLast hne := by
    intro other hother
    have hsorted := (List.pairwise_append.mp h.sorted).1
    rw [← List.dropLast_append_getLast hne, List.pairwise_append] at hsorted
    rw [← List.dropLast_append_getLast hne, List.mem_append, List.mem_singleton] at hother
    cases hother with
    | inl hbefore => exact le_of_lt (hsorted.2.2 other hbefore _ (List.mem_singleton_self _))
    | inr hsame => exact le_of_eq hsame
  have hmem := h.mem_above.mpr ⟨hlt, hbound⟩
  have hsorted := (List.pairwise_append.mp h.sorted).2.1
  have hknown_iff : kind.Known (version - 1) ↔ below.getLast hne + 1 = version := by
    constructor
    . intro hknown
      have hle := hmax _ (h.mem_below.mpr ⟨by omega, hknown⟩)
      omega
    . intro hsame
      have hlast : version - 1 = below.getLast hne := by omega
      rw [hlast]
      exact (h.mem_below.mp hlastMem).2
  rw [checkVersions_split hok, checkVersions_split hok, List.getLast?_eq_some_getLast hne, hknown_iff]
  generalize below.getLast hne = last at hlastLt
  have habove := h.above
  clear hknown_iff hmax hlastMem
  cases above with
  | nil => exact absurd hmem List.not_mem_nil
  | cons upper rest =>
    have hupper := habove upper List.mem_cons_self
    have hlater := (List.pairwise_cons.mp hsorted).1
    have hle : upper ≤ bound := by
      cases hmem with
      | head => exact le_refl _
      | tail _ hmem => exact le_of_lt (hlater bound hmem)
    have hcheck : ∀ {previous next : Nat} {rest : List Nat}, next ≤ bound →
        checkVersions name bound (some previous) (next :: rest)
          = if next ≠ previous + 1 then .error (.schemaGap name (previous + 1))
            else checkVersions name bound (some next) rest := by
      intro previous next rest hnext
      rw [EventCatalogBuilder.checkVersions.eq_def]
      dsimp only
      rw [if_neg (not_lt.mpr hnext)]
    rw [hcheck (le_of_lt hlt), hcheck hle, hcheck hle]
    constructor
    . intro hgap
      exact ⟨last + 1, if_pos (Ne.symm hgap), if_pos (by omega)⟩
    . intro hgap
      rw [hgap]
      refine ⟨if_pos (by omega), ?_⟩
      rw [if_neg (not_not.mpr rfl)]
      intro herror
      split at herror
      . injection herror with herror
        injection herror with _ herror
        omega
      . rcases checkVersions_some_error hsorted herror with ⟨past, -, hpast⟩ | ⟨gap, hgap, hsame⟩
        . cases hpast
        . injection hsame with _ hsame
          omega

end Split

section Sealing

variable {kind : KindBuilder E} {name : String} {current : CurrentSchema E} {version : Nat} {schemaId : String}

theorem masks_iff (hcurrent : kind.current = some current)
    : kind.Masks version ↔ (∃ lower < version, kind.Breaks current.version lower)
      ∨ (kind.Known (version + 1) ∧ (∀ lower < version, ¬ kind.Known lower)
        ∧ ∃ broken, kind.Breaks current.version broken)
      ∨ (version < current.version ∧ ¬ kind.Known (version - 1) ∧ ∃ lower < version, kind.Known lower) := by
  unfold KindBuilder.Masks
  rw [hcurrent]
  simp

theorem bind_checked {checked : Except CatalogBuildError Unit} {edges : Except CatalogBuildError (SealedEntry E)}
    {error : CatalogBuildError}
    : (checked.bind fun _ => edges) = .error error ↔ checked = .error error ∨ checked = .ok () ∧ edges = .error error := by
  cases checked with
  | error found =>
    constructor
    . intro h
      cases h
      exact .inl rfl
    . intro h
      cases h with
      | inl h =>
        cases h
        rfl
      | inr h => cases h.1
  | ok done =>
    constructor
    . exact fun h => .inr ⟨rfl, h⟩
    . exact fun h => (h.resolve_left nofun).2

theorem sealEdges_first {rest : List Nat} (hkeys : kind.schemas.keys = version :: rest) (hlt : version < current.version)
    (hnone : kind.upcasters.get? version = none)
    : sealEdges name kind current = .error (.missingUpcaster name version) := by
  unfold sealEdges
  rw [hkeys, List.takeWhile_cons, if_pos (decide_eq_true hlt), List.forM_eq_forM, List.forM_cons]
  have hfirst : checkEdge name kind.upcasters version = .error (.missingUpcaster name version) := by
    unfold checkEdge
    rw [hnone]
  rw [hfirst]
  rfl

theorem sealKind_withSchema (hrooted : kind.Rooted) (hfresh : kind.schemas.get? version = none)
    : ∃ error, sealKind name (kind.withSchema version schemaId) = .error error
        ∧ (sealKind name kind = .error error ↔ kind.Masks version) := by
  cases hcurrent : kind.current with
  | none =>
    refine ⟨.missingCurrent name, ?_, iff_of_true ?_ (.inl hcurrent)⟩
    . unfold sealKind KindBuilder.withSchema
      dsimp only
      rw [hcurrent]
    . unfold sealKind
      rw [hcurrent]
  | some current =>
    have hbound : kind.Known current.version := hrooted.current current hcurrent
    have hbound' : (kind.withSchema version schemaId).Known current.version := isSome_insert hbound
    have hkept : (kind.withSchema version schemaId).current = some current := hcurrent
    have hunknown : ¬ kind.Known version := by
      unfold KindBuilder.Known
      rw [hfresh]
      exact Bool.false_ne_true
    obtain ⟨below, above, hkeys, hkeys', hbelow, habove⟩ := keys_withSchema hfresh schemaId
    have hsplit : SplitAt kind version below above := ⟨hkeys, hbelow, habove⟩
    -- Its upcaster is missing: a kind whose versions are fine has an error at an edge.
    have hnone : (kind.withSchema version schemaId).upcasters.get? version = none := by
      cases hedge : (kind.withSchema version schemaId).upcasters.get? version with
      | none => rfl
      | some edge => exact absurd (hrooted.edges version edge hedge).1 hunknown
    have hknown' : (kind.withSchema version schemaId).Known version := by
      unfold KindBuilder.Known KindBuilder.withSchema
      dsimp only
      rw [SortedMap.get?_insert, if_pos rfl]
      rfl
    rw [masks_iff hcurrent, sealKind_eq hcurrent hbound, sealKind_eq hkept hbound', hkeys, hkeys', hsplit.breaks_below]
    simp only [bind_checked]
    cases hok : checkVersions name current.version none below with
    | error error =>
      have hfails : ∀ rest, checkVersions name current.version none (below ++ rest) = .error error := by
        intro rest
        rw [checkVersions_append, hok]
        rfl
      exact ⟨error, .inl (hfails _), iff_of_true (.inl (hfails _)) (.inl nofun)⟩
    | ok done =>
      have hof : ∀ {error}, sealEdges name kind current = .error error → OfEdges name (below ++ above) error :=
        fun h => hkeys ▸ sealEdges_error h
      rcases lt_trichotomy current.version version with hpast | hsame | hlt
      . obtain ⟨herror, hdiffers⟩ := hsplit.past hok hpast
        refine ⟨_, .inl herror, iff_of_false ?_ ?_⟩
        . rintro (h | ⟨-, h⟩)
          . exact hdiffers h
          . cases hof h
        . rintro (h | ⟨-, hlowest, -⟩ | ⟨hlt, -, -⟩)
          . exact h rfl
          . exact hlowest _ hpast hbound
          . exact absurd hlt hpast.asymm
      . exact absurd (hsame ▸ hbound) hunknown
      . cases hbelowCase : below with
        | nil =>
          subst hbelowCase
          have hlowest : ∀ lower < version, ¬ kind.Known lower :=
            fun lower hlower hknown => nomatch hsplit.mem_below.mpr ⟨hlower, hknown⟩
          obtain ⟨hnext, hgap⟩ := @SplitAt.lowest E kind name version current.version above hsplit hlt hbound
          simp only [List.nil_append] at hkeys hkeys' hof ⊢
          by_cases hknown : kind.Known (version + 1)
          . rw [hnext hknown]
            cases hchecked : checkVersions name current.version none above with
            | error error =>
              refine ⟨error, .inl rfl, iff_of_true (.inl rfl) (.inr (.inl ⟨hknown, hlowest, ?_⟩))⟩
              by_contra hnot
              have hfine : checkVersions name current.version none above = .ok () := by
                apply (checkVersions_none_ok (hsplit.sorted)).mpr
                intro broken hbroken
                exact hnot ⟨broken, breaks_iff.mpr (hkeys ▸ hbroken)⟩
              rw [hchecked] at hfine
              cases hfine
            | ok done' =>
              refine ⟨_, .inr ⟨rfl, sealEdges_first hkeys' hlt hnone⟩, iff_of_false ?_ ?_⟩
              . rintro (h | ⟨-, h⟩)
                . cases h
                . cases hof h with
                  | missing source hsource => exact hunknown (known_iff.mpr (hkeys ▸ hsource))
              . rintro (h | ⟨-, -, broken, hbroken⟩ | ⟨-, -, lower, hlower, hknownLower⟩)
                . exact h rfl
                . exact (checkVersions_none_ok hsplit.sorted).mp hchecked broken (hkeys ▸ breaks_iff.mp hbroken)
                . exact hlowest lower hlower hknownLower
          . obtain ⟨herror, hdiffers⟩ := hgap hknown
            refine ⟨_, .inl herror, iff_of_false ?_ ?_⟩
            . rintro (h | ⟨-, h⟩)
              . exact hdiffers h
              . cases hof h
            . rintro (h | ⟨h, -, -⟩ | ⟨-, -, lower, hlower, hknownLower⟩)
              . exact h rfl
              . exact hknown h
              . exact hlowest lower hlower hknownLower
        | cons first others =>
          rw [← hbelowCase]
          have hlower : ∃ lower < version, kind.Known lower :=
            ⟨first, (hsplit.mem_below.mp (hbelowCase ▸ List.mem_cons_self))⟩
          obtain ⟨hgap, hfills⟩ := @SplitAt.inside E kind name version current.version below above hsplit hok hlt hbound hlower
          by_cases hknown : kind.Known (version - 1)
          . obtain ⟨herror, hdiffers⟩ := hfills hknown
            rw [herror]
            have hnot : ¬ ((Except.ok () : Except CatalogBuildError Unit) ≠ .ok ()
                ∨ (kind.Known (version + 1) ∧ (∀ lower < version, ¬ kind.Known lower)
                  ∧ ∃ broken, kind.Breaks current.version broken)
                ∨ (version < current.version ∧ ¬ kind.Known (version - 1) ∧ ∃ lower < version, kind.Known lower)) := by
              rintro (h | ⟨-, hlowest, -⟩ | ⟨-, h, -⟩)
              . exact h rfl
              . obtain ⟨lower, hlowerLt, hlowerKnown⟩ := hlower
                exact hlowest lower hlowerLt hlowerKnown
              . exact h hknown
            cases hchecked : checkVersions name current.version none (below ++ version :: above) with
            | error error =>
              refine ⟨error, .inl rfl, iff_of_false ?_ hnot⟩
              rintro (h | ⟨h, -⟩)
              . cases h
                exact hdiffers hchecked
              . cases h
            | ok done' =>
              obtain ⟨error, hedges⟩ := @sealEdges_missing E _ name current version hknown' hlt hnone
              refine ⟨error, .inr ⟨rfl, hedges⟩, iff_of_false ?_ hnot⟩
              rintro (h | ⟨h, -⟩)
              . cases h
                cases sealEdges_error hedges
              . cases h
          . obtain ⟨gap, herror', herror⟩ := hgap hknown
            exact ⟨_, .inl herror', iff_of_true (.inl herror) (.inr (.inr ⟨hlt, hknown, hlower⟩))⟩

theorem edges_fine
    : kind.upcasters.entries.find? (fun entry =>
        decide (current.version ≤ entry.1) || decide (current.version < entry.2.target)) = none
      ↔ ∀ source edge, kind.upcasters.get? source = some edge → source < current.version := by
  rw [List.find?_eq_none]
  constructor
  . intro h source edge hedge
    have hnone := h (source, edge) (SortedMap.get?_eq_some.mp hedge)
    rw [Bool.or_eq_true, not_or, decide_eq_true_eq, not_le] at hnone
    exact hnone.1
  . intro h entry hentry
    have hedge := SortedMap.get?_eq_some.mpr hentry
    have hlt := h entry.1 entry.2 hedge
    have htarget := kind.adjacent entry.1 entry.2 hedge
    rw [Bool.or_eq_true, not_or, decide_eq_true_eq, decide_eq_true_eq]
    omega

theorem sealKind_sealable (hrooted : kind.Rooted) : (∃ entry, sealKind name kind = .ok entry) ↔ kind.Sealable := by
  cases hcurrent : kind.current with
  | none =>
    apply iff_of_false
    . rintro ⟨entry, h⟩
      unfold sealKind at h
      rw [hcurrent] at h
      cases h
    . rintro ⟨current, h, -⟩
      rw [hcurrent] at h
      cases h
  | some current =>
    have hbound : kind.Known current.version := hrooted.current current hcurrent
    rw [sealKind_eq hcurrent hbound]
    unfold sealEdges
    constructor
    . rintro ⟨entry, h⟩
      obtain ⟨⟨⟩, hversions, h⟩ := Except.bind_eq_ok.mp h
      obtain ⟨⟨⟩, hedges, h⟩ := Except.bind_eq_ok.mp h
      refine ⟨current, hcurrent, hbound, ?_, ?_, ?_⟩
      . intro version hbreaks
        exact (checkVersions_none_ok kind.schemas.keys_sorted).mp hversions version (breaks_iff.mp hbreaks)
      . intro version hlt hknown
        have hedge := Except.forM_eq_ok.mp hedges version
          (mem_takeWhile_of_sorted kind.schemas.keys_sorted (known_iff.mp hknown) hlt)
        unfold checkEdge at hedge
        cases hget : kind.upcasters.get? version with
        | none =>
          rw [hget] at hedge
          cases hedge
        | some edge => rfl
      . apply edges_fine.mp
        split at h
        . cases h
        . assumption
    . rintro ⟨current', hcurrent', -, hfine, hedges, hpast⟩
      rw [hcurrent] at hcurrent'
      cases hcurrent'
      have hversions : checkVersions name current.version none kind.schemas.keys = .ok () :=
        (checkVersions_none_ok kind.schemas.keys_sorted).mpr
          (fun version hbreaks => hfine version (breaks_iff.mpr hbreaks))
      have hall : (kind.schemas.keys.takeWhile (fun version => decide (version < current.version))).forM
          (checkEdge name kind.upcasters) = .ok () := by
        apply Except.forM_eq_ok.mpr
        intro version hversion
        have hlt : version < current.version := by
          simpa only [decide_eq_true_eq] using List.mem_takeWhile_imp hversion
        have hknown := known_iff.mpr ((List.takeWhile_sublist _).subset hversion)
        obtain ⟨edge, hedge⟩ := Option.isSome_iff_exists.mp (hedges version hlt hknown)
        unfold checkEdge
        rw [hedge]
        exact if_neg (not_not.mpr (kind.adjacent version edge hedge))
      rw [hversions, hall, edges_fine.mpr hpast]
      exact ⟨_, rfl⟩

end Sealing

section Catalogs

variable {sha256 : Sha256} {builder : EventCatalogBuilder E} {name : String} {kind : KindBuilder E}

def CatalogBuildError.kind? (error : CatalogBuildError) : Option String :=
  match error with
  | .missingCurrent kind => some kind
  | .missingSchema kind _ => some kind
  | .missingUpcaster kind _ => some kind
  | .schemaPastCurrent kind _ _ => some kind
  | .schemaGap kind _ => some kind
  | .upcastPastCurrent kind _ _ => some kind
  | .nonAdjacentUpcast kind _ _ => some kind
  | _ => none

variable {error : CatalogBuildError}

theorem checkVersions_kind {current : Nat} {previous : Option Nat} {versions : List Nat}
    (h : checkVersions name current previous versions = .error error)
    : error.kind? = some name := by
  induction versions generalizing previous with
  | nil => cases h
  | cons version rest ih =>
    unfold checkVersions at h
    split at h
    . cases h
      rfl
    . split at h
      . split at h
        . cases h
          rfl
        . exact ih h
      . exact ih h

theorem sealKind_kind (h : sealKind name kind = .error error)
    : error.kind? = some name := by
  cases hcurrent : kind.current with
  | none =>
    unfold sealKind at h
    rw [hcurrent] at h
    cases h
    rfl
  | some current =>
    by_cases hbound : kind.Known current.version
    . rw [sealKind_eq hcurrent hbound, bind_checked] at h
      rcases h with h | ⟨-, h⟩
      . exact checkVersions_kind h
      . cases sealEdges_error h with
        | _ => rfl
    . unfold sealKind at h
      rw [hcurrent] at h
      dsimp only at h
      unfold KindBuilder.Known at hbound
      rw [Bool.not_eq_true, Option.isSome_eq_false_iff] at hbound
      rw [if_pos hbound] at h
      cases h
      rfl

def sealStep (kinds : SortedMap String (SealedEntry E)) (entry : String × KindBuilder E)
    : Except CatalogBuildError (SortedMap String (SealedEntry E)) :=
  (sealKind entry.1 entry.2).bind fun kind => .ok (kinds.insert entry.1 kind)

theorem sealSteps_error {entries : List (String × KindBuilder E)} {kinds : SortedMap String (SealedEntry E)}
    (h : entries.foldlM sealStep kinds = .error error)
    : ∃ entry ∈ entries, error.kind? = some entry.1 := by
  induction entries generalizing kinds with
  | nil => cases h
  | cons first rest ih =>
    rw [List.foldlM_cons] at h
    cases hfirst : sealKind first.1 first.2 with
    | error found =>
      have hstep : sealStep kinds first = .error found := by
        unfold sealStep
        rw [hfirst]
        rfl
      rw [hstep] at h
      cases h
      exact ⟨first, List.mem_cons_self, sealKind_kind hfirst⟩
    | ok entry =>
      have hstep : sealStep kinds first = .ok (kinds.insert first.1 entry) := by
        unfold sealStep
        rw [hfirst]
        rfl
      rw [hstep] at h
      obtain ⟨found, hfound, hkind⟩ := ih h
      exact ⟨found, List.mem_cons_of_mem _ hfound, hkind⟩

theorem sealSteps_ok {entries : List (String × KindBuilder E)} {kinds : SortedMap String (SealedEntry E)}
    : (∃ sealed, entries.foldlM sealStep kinds = .ok sealed)
      ↔ ∀ entry ∈ entries, ∃ kind, sealKind entry.1 entry.2 = .ok kind := by
  induction entries generalizing kinds with
  | nil => exact ⟨fun _ => nofun, fun _ => ⟨kinds, rfl⟩⟩
  | cons first rest ih =>
    rw [List.foldlM_cons, List.forall_mem_cons]
    cases hfirst : sealKind first.1 first.2 with
    | error error =>
      have hstep : sealStep kinds first = .error error := by
        unfold sealStep
        rw [hfirst]
        rfl
      rw [hstep]
      exact iff_of_false (fun h => nomatch h.choose_spec) (fun h => nomatch h.1.choose_spec)
    | ok entry =>
      have hstep : sealStep kinds first = .ok (kinds.insert first.1 entry) := by
        unfold sealStep
        rw [hfirst]
        rfl
      rw [hstep, ← @ih (kinds.insert first.1 entry)]
      exact ⟨fun h => ⟨⟨entry, rfl⟩, h⟩, fun h => h.2⟩

theorem insertEntry_split {α : Type} {value : α} {entries : List (String × α)}
    (hsorted : entries.Pairwise (fun a b => a.1 < b.1)) (hmem : (name, value) ∈ entries) (other : α)
    : ∃ front back, entries = front ++ (name, value) :: back
        ∧ SortedMap.insertEntry name other entries = front ++ (name, other) :: back
        ∧ (∀ entry ∈ front, entry.1 < name) ∧ ∀ entry ∈ back, name < entry.1 := by
  induction entries with
  | nil => cases hmem
  | cons first rest ih =>
    obtain ⟨hfirst, hrest⟩ := List.pairwise_cons.mp hsorted
    unfold SortedMap.insertEntry
    cases List.mem_cons.mp hmem with
    | inl hhere =>
      cases hhere
      refine ⟨[], rest, rfl, ?_, List.forall_mem_nil _, hfirst⟩
      rw [if_neg (lt_irrefl _), if_pos rfl]
      rfl
    | inr hlater =>
      obtain ⟨front, back, hentries, hinserted, hbefore, hafter⟩ := ih hrest hlater
      have hlt : first.1 < name := hfirst _ hlater
      refine ⟨first :: front, back, ?_, ?_, List.forall_mem_cons.mpr ⟨hlt, hbefore⟩, hafter⟩
      . rw [hentries, List.cons_append]
      . rw [if_neg hlt.asymm, if_neg hlt.ne', hinserted, List.cons_append]

theorem sealKinds_split {front back : List (String × KindBuilder E)}
    (h : builder.kinds.entries = front ++ (name, kind) :: back)
    : builder.sealKinds = (front.foldlM sealStep .empty).bind fun kinds =>
        (sealStep kinds (name, kind)).bind fun kinds => back.foldlM sealStep kinds := by
  unfold EventCatalogBuilder.sealKinds
  rw [if_neg (by rw [h, List.isEmpty_iff]; exact List.append_ne_nil_of_right_ne_nil _ (List.cons_ne_nil _ _)), h]
  exact List.foldlM_append.trans rfl

-- The same error, or catalogs that support and decode the same and have one digest.
def SameSeal (before after : Except CatalogBuildError (SealedEventCatalog E)) : Prop :=
  match before, after with
  | .error error, .error error' => error = error'
  | .ok catalog, .ok catalog' =>
    (∀ kind version, catalog.supports kind version = catalog'.supports kind version)
      ∧ (∀ event, catalog.decode event = catalog'.decode event) ∧ catalog.digest = catalog'.digest
  | _, _ => False

theorem SameSeal.refl (result : Except CatalogBuildError (SealedEventCatalog E)) : SameSeal result result := by
  cases result with
  | error error => exact rfl
  | ok catalog => exact ⟨fun _ _ => rfl, fun _ => rfl, rfl⟩

theorem sameSeal_error {result : Except CatalogBuildError (SealedEventCatalog E)}
    : SameSeal result (.error error) ↔ result = .error error := by
  cases result with
  | error other => exact ⟨fun h => congrArg _ h, fun h => by cases h; exact rfl⟩
  | ok catalog => exact ⟨fun h => h.elim, nofun⟩

theorem sealRest_error {kinds : SortedMap String (SealedEntry E)} {back : List (String × KindBuilder E)}
    (hkind : error.kind? = some name) (hback : ∀ entry ∈ back, name < entry.1)
    : ((sealStep kinds (name, kind)).bind fun kinds => back.foldlM sealStep kinds) = .error error
      ↔ sealKind name kind = .error error := by
  unfold sealStep
  dsimp only
  cases hseal : sealKind name kind with
  | error other =>
    constructor
    . intro h
      cases h
      rfl
    . intro h
      cases h
      rfl
  | ok entry =>
    apply iff_of_false
    . intro h
      obtain ⟨found, hfound, hnamed⟩ := sealSteps_error h
      rw [hkind, Option.some.injEq] at hnamed
      exact absurd hnamed (hback found hfound).ne
    . nofun

theorem sealCatalog_error
    : builder.sealCatalog sha256 = .error error ↔ builder.sealKinds = .error error := by
  unfold EventCatalogBuilder.sealCatalog
  cases builder.sealKinds with
  | error other =>
    constructor
    . intro h
      cases h
      rfl
    . intro h
      cases h
      rfl
  | ok kinds => exact iff_of_false nofun nofun

theorem sameSeal_insert {replaced : KindBuilder E}
    (hget : builder.kinds.get? name = some kind) (hreplaced : sealKind name replaced = .error error)
    : SameSeal (builder.sealCatalog sha256) (EventCatalogBuilder.sealCatalog sha256 ⟨builder.kinds.insert name replaced⟩)
      ↔ (∃ earlier < name, ∃ kind, builder.kinds.get? earlier = some kind ∧ ∀ entry, sealKind earlier kind ≠ .ok entry)
        ∨ sealKind name kind = .error error := by
  obtain ⟨front, back, hentries, hinserted, hfront, hback⟩ :=
    insertEntry_split builder.kinds.sorted (SortedMap.get?_eq_some.mp hget) replaced
  have hbefore := sealKinds_split hentries
  have hafter := @sealKinds_split E ⟨builder.kinds.insert name replaced⟩ name replaced front back hinserted
  -- The kinds before the name are those of the front.
  have hearlier : (∃ earlier < name, ∃ kind, builder.kinds.get? earlier = some kind
      ∧ ∀ entry, sealKind earlier kind ≠ .ok entry) ↔ ¬ ∃ sealed, front.foldlM sealStep .empty = .ok sealed := by
    rw [sealSteps_ok]
    constructor
    . rintro ⟨earlier, hlt, found, hfound, hfails⟩ hall
      have hmem := SortedMap.get?_eq_some.mp hfound
      rw [hentries, List.mem_append, List.mem_cons] at hmem
      rcases hmem with hmem | hmem | hmem
      . obtain ⟨entry, hentry⟩ := hall _ hmem
        exact hfails entry hentry
      . cases hmem
        exact lt_irrefl _ hlt
      . exact lt_irrefl _ (hlt.trans (hback _ hmem))
    . intro hall
      simp only [not_forall] at hall
      obtain ⟨entry, hmem, hfails⟩ := hall
      refine ⟨entry.1, hfront entry hmem, entry.2, SortedMap.get?_eq_some.mpr ?_, ?_⟩
      . rw [hentries]
        exact List.mem_append_left _ hmem
      . exact fun sealed hsealed => hfails ⟨sealed, hsealed⟩
  rw [hearlier]
  cases hfrontRun : front.foldlM sealStep (.empty : SortedMap String (SealedEntry E)) with
  | error found =>
    rw [hfrontRun] at hbefore hafter
    rw [sealCatalog_error.mpr hbefore, sealCatalog_error.mpr hafter]
    exact iff_of_true (SameSeal.refl _) (.inl (fun h => nomatch h.choose_spec))
  | ok kinds =>
    rw [hfrontRun] at hbefore hafter
    have hlast : EventCatalogBuilder.sealKinds ⟨builder.kinds.insert name replaced⟩ = .error error := by
      rw [hafter]
      exact (sealRest_error (sealKind_kind hreplaced) hback).mpr hreplaced
    rw [sealCatalog_error.mpr hlast, sameSeal_error, sealCatalog_error, hbefore]
    constructor
    . exact fun h => .inr ((sealRest_error (sealKind_kind hreplaced) hback).mp h)
    . intro h
      apply (sealRest_error (sealKind_kind hreplaced) hback).mpr
      exact h.resolve_left (fun hnone => hnone ⟨kinds, rfl⟩)

end Catalogs

section Failed

variable {sha256 : Sha256} {builder : EventCatalogBuilder E} {registration : Registration E} {error : CatalogBuildError}

-- Sealing fails in one way with and without the schema that the call leaves behind.
def Registration.Unseen (registration : Registration E) (builder : EventCatalogBuilder E) (version : Nat) : Prop :=
  (∃ earlier < registration.name, ∃ kind, builder.kinds.get? earlier = some kind ∧ ¬ kind.Sealable)
    ∨ (builder.kindOf registration.name).Masks version

theorem failed_call_seals (sha256 : Sha256) (codec : EventCodec E) (builder : EventCatalogBuilder E)
    (registration : Registration E) (error : CatalogBuildError) (hbuilder : EventCatalogBuilder.Reached codec builder)
    (hfailed : (registration.call codec builder).2 = .error error)
    : SameSeal (builder.sealCatalog sha256) ((registration.call codec builder).1.sealCatalog sha256)
      ↔ ∀ version, registration.Valid → registration.Leaves (builder.kindOf registration.name) version
        → registration.Unseen builder version := by
  have hrooted := hbuilder.rooted
  cases failed_call hrooted hfailed with
  | inl hsame =>
    obtain ⟨hsame, hnone⟩ := hsame
    rw [hsame]
    exact iff_of_true (SameSeal.refl _) (fun version hvalid hleaves => absurd ⟨hvalid, hleaves⟩ (hnone version))
  | inr hleft =>
    obtain ⟨kind, version, schemaId, hvalid, hleaves, hget, hafter⟩ := hleft
    have hkind : builder.kindOf registration.name = kind := by
      unfold EventCatalogBuilder.kindOf
      rw [hget]
      rfl
    obtain ⟨found, hfound, hmasks⟩ := @sealKind_withSchema E kind registration.name version schemaId
      (hrooted registration.name kind hget) hleaves.1
    have honly : ∀ other, registration.Leaves kind other → other = version := by
      intro other hother
      have hversion := hleaves.2.2
      have hversion' := hother.2.2
      cases registration with
      | current schema mappingId intoEvent => exact hversion'.1.trans hversion.1.symm
      | upcaster source target stepId upcast => exact hversion'.1.trans hversion.1.symm
    rw [hafter, sameSeal_insert hget hfound, hmasks]
    have hearlier : (∃ earlier < registration.name, ∃ kind, builder.kinds.get? earlier = some kind
          ∧ ∀ entry, sealKind earlier kind ≠ .ok entry)
        ↔ ∃ earlier < registration.name, ∃ kind, builder.kinds.get? earlier = some kind ∧ ¬ kind.Sealable := by
      constructor
      . rintro ⟨earlier, hlt, other, hother, hfails⟩
        refine ⟨earlier, hlt, other, hother, fun hsealable => ?_⟩
        obtain ⟨entry, hentry⟩ := (@sealKind_sealable E other earlier (hrooted earlier other hother)).mpr hsealable
        exact hfails entry hentry
      . rintro ⟨earlier, hlt, other, hother, hfails⟩
        refine ⟨earlier, hlt, other, hother, fun entry hentry => hfails ?_⟩
        exact (@sealKind_sealable E other earlier (hrooted earlier other hother)).mp ⟨entry, hentry⟩
    rw [hearlier]
    unfold Registration.Unseen
    rw [hkind]
    constructor
    . intro h other _ hother
      rw [honly other hother]
      exact h
    . exact fun h => h version hvalid hleaves

def flagBuilder : EventCatalogBuilder Bool :=
  ((Registration.current (flagSchema 2 "flag/2") "flag-event" some).call flagCodec .new).1

def flagDuplicate : Registration Bool := .current (flagSchema 3 "flag/3") "flag-event" some

theorem failed_call_seals_flag
    : SameSeal (flagBuilder.sealCatalog sha256Digest)
        ((flagDuplicate.call flagCodec flagBuilder).1.sealCatalog sha256Digest)
      ↔ ∀ version, flagDuplicate.Valid → flagDuplicate.Leaves (flagBuilder.kindOf flagDuplicate.name) version
        → flagDuplicate.Unseen flagBuilder version :=
  failed_call_seals sha256Digest flagCodec flagBuilder flagDuplicate (.duplicateCurrent "app_flag") (.call .new _) rfl

theorem SameSeal.isSome {before after : Except CatalogBuildError (SealedEventCatalog E)} (h : SameSeal before after)
    : before.toOption.isSome = after.toOption.isSome := by
  cases before with
  | error error =>
    cases after with
    | error error' => rfl
    | ok catalog => exact h.elim
  | ok catalog =>
    cases after with
    | error error => exact h.elim
    | ok catalog' => rfl

theorem refused_current_spoils_the_seal
    : EventCatalogBuilder.Reached flagCodec flagBuilder
        ∧ (flagDuplicate.call flagCodec flagBuilder).2 = .error (.duplicateCurrent "app_flag")
        ∧ ¬ SameSeal (flagBuilder.sealCatalog sha256Digest)
          ((flagDuplicate.call flagCodec flagBuilder).1.sealCatalog sha256Digest) := by
  refine ⟨.call .new _, rfl, fun h => ?_⟩
  have hbefore : (flagBuilder.sealCatalog sha256Digest).toOption.isSome = true := by decide
  have hafter : ((flagDuplicate.call flagCodec flagBuilder).1.sealCatalog sha256Digest).toOption.isSome = false := by
    decide
  rw [h.isSome, hafter] at hbefore
  cases hbefore

end Failed

end Pliego
