import Pliego.Lib.Text

/-!
The path of a URL without percent-encoded characters: what a parser makes of the dot segments of an absolute
path.
-/

namespace UrlPath

open Text

-- A double dot takes the segment before it back and a single dot is left out. As the last segment both leave an
-- empty one.
def walk (path : List String) (segments : List String) : List String :=
  match segments with
  | [] => path
  | segment :: rest =>
    let path :=
      if segment = ".." then path.dropLast
      else if segment = "." then path
      else path ++ [segment]
    if rest = [] ∧ (segment = ".." ∨ segment = ".") then path ++ [""] else walk path rest

def written (segments : List String) : String :=
  String.ofList (segments.flatMap (fun segment => '/' :: segment.toList))

def resolve (path : String) : String := written (walk [] (split '/' path).tail)

def extent (segments : List String) : Nat := (segments.map (fun segment => segment.toList.length + 1)).sum

variable {path segments : List String} {value : String}

@[simp]
theorem extent_nil : extent [] = 0 := rfl

@[simp]
theorem extent_cons {segment : String} : extent (segment :: segments) = segment.toList.length + 1 + extent segments :=
  rfl

@[simp]
theorem extent_append : extent (path ++ segments) = extent path + extent segments := by
  unfold extent
  rw [List.map_append, List.sum_append]

theorem length_written : (written segments).toList.length = extent segments := by
  unfold written extent
  rw [String.toList_ofList, List.length_flatMap]
  rfl

theorem walk_plain (hparent : ".." ∉ segments) (hself : "." ∉ segments) : walk path segments = path ++ segments := by
  induction segments generalizing path with
  | nil => rw [walk, List.append_nil]
  | cons segment rest ih =>
    simp only [List.mem_cons, not_or] at hparent hself
    have hparent' : ¬ segment = ".." := fun h => hparent.1 h.symm
    have hself' : ¬ segment = "." := fun h => hself.1 h.symm
    simp only [walk, hparent', hself', if_false, or_false, and_false]
    rw [ih hparent.2 hself.2, List.append_assoc, List.singleton_append]

theorem extent_walk_le (hparent : ".." ∉ segments) : extent (walk path segments) ≤ extent path + extent segments := by
  induction segments generalizing path with
  | nil => exact le_refl _
  | cons segment rest ih =>
    simp only [List.mem_cons, not_or] at hparent
    have hparent' : ¬ segment = ".." := fun h => hparent.1 h.symm
    by_cases hself : segment = "."
    . subst hself
      have hdot : ".".toList.length = 1 := by decide
      simp only [walk, hparent', if_false, if_true, false_or, and_true, extent_cons, hdot]
      split
      . next hlast =>
        have hempty : "".toList.length = 0 := by decide
        rw [extent_append, extent_cons, extent_nil, hempty]
        omega
      . have hrest : extent (walk path rest) ≤ extent path + extent rest := ih hparent.2
        omega
    . simp only [walk, hparent', hself, if_false, or_false, and_false, extent_cons]
      have hrest : extent (walk (path ++ [segment]) rest) ≤ extent (path ++ [segment]) + extent rest := ih hparent.2
      rw [extent_append, extent_cons, extent_nil] at hrest
      omega

theorem extent_walk_lt (hparent : ".." ∉ segments) (hself : "." ∈ segments)
    : extent (walk path segments) < extent path + extent segments := by
  induction segments generalizing path with
  | nil => cases hself
  | cons segment rest ih =>
    simp only [List.mem_cons, not_or] at hparent
    have hparent' : ¬ segment = ".." := fun h => hparent.1 h.symm
    by_cases hdot : segment = "."
    . subst hdot
      have hlength : ".".toList.length = 1 := by decide
      simp only [walk, hparent', if_false, if_true, false_or, and_true, extent_cons, hlength]
      split
      . next hlast =>
        have hempty : "".toList.length = 0 := by decide
        rw [extent_append, extent_cons, extent_nil, hempty]
        omega
      . have hrest : extent (walk path rest) ≤ extent path + extent rest := extent_walk_le hparent.2
        omega
    . have hmem : "." ∈ rest := by
        cases List.mem_cons.mp hself with
        | inl hsame => exact absurd hsame.symm hdot
        | inr hrest => exact hrest
      simp only [walk, hparent', hdot, if_false, or_false, and_false, extent_cons]
      have hrest : extent (walk (path ++ [segment]) rest) < extent (path ++ [segment]) + extent rest :=
        ih hparent.2 hmem
      rw [extent_append, extent_cons, extent_nil] at hrest
      omega

theorem written_split (h : (split '/' value).head? = some "") : value = written (split '/' value).tail := by
  have hintercalate : ∀ (first : List Char) (rest : List (List Char)),
      ['/'].intercalate (first :: rest) = first ++ rest.flatMap (fun piece => '/' :: piece) := by
    intro first rest
    induction rest generalizing first with
    | nil => rw [List.intercalate_singleton, List.flatMap_nil, List.append_nil]
    | cons second rest ih =>
      rw [List.intercalate_cons_cons, ih, List.flatMap_cons, List.append_assoc, List.singleton_append,
        List.cons_append]
  have hvalue : join '/' (split '/' value) = value := join_split
  cases hsplit : split '/' value with
  | nil => exact absurd hsplit split_ne_nil
  | cons first rest =>
    rw [hsplit, List.head?_cons, Option.some.injEq] at h
    subst h
    rw [hsplit] at hvalue
    rw [← hvalue]
    unfold join written
    rw [List.map_cons, hintercalate, List.flatMap_map, List.tail_cons]
    rfl

theorem infix_of_mem_split {segment : String} (h : segment ∈ split '/' value)
    : segment.toList <:+: value.toList := by
  have hintercalate : ∀ pieces : List (List Char), ∀ piece ∈ pieces, piece <:+: ['/'].intercalate pieces := by
    intro pieces
    induction pieces with
    | nil =>
      intro piece hmem
      cases hmem
    | cons first rest ih =>
      intro piece hmem
      cases rest with
      | nil =>
        rw [List.mem_singleton] at hmem
        rw [List.intercalate_singleton, hmem]
      | cons second rest =>
        rw [List.intercalate_cons_cons]
        cases List.mem_cons.mp hmem with
        | inl hfirst =>
          rw [hfirst, List.append_assoc]
          exact (List.prefix_append _ _).isInfix
        | inr hrest => exact (ih piece hrest).trans (List.suffix_append _ _).isInfix
  have hvalue : join '/' (split '/' value) = value := join_split
  rw [← hvalue, join_toList]
  exact hintercalate _ _ (List.mem_map_of_mem h)

theorem containsPair_of_infix {a b : Char} {chars : List Char} (h : [a, b] <:+: chars)
    : containsPair a b chars = true := by
  obtain ⟨before, after, rfl⟩ := h
  induction before with
  | nil =>
    rw [List.nil_append, List.cons_append, List.cons_append, containsPair_cons_cons, beq_self_eq_true,
      beq_self_eq_true]
    rfl
  | cons first before ih =>
    cases hrest : before ++ [a, b] ++ after with
    | nil =>
      rw [hrest] at ih
      cases ih
    | cons second rest =>
      rw [hrest] at ih
      rw [List.cons_append, List.cons_append, hrest, containsPair_cons_cons, ih, Bool.or_true]

theorem resolve_eq_iff (h : (split '/' value).head? = some "") (hparent : ".." ∉ (split '/' value).tail)
    : resolve value = value ↔ "." ∉ (split '/' value).tail := by
  have hvalue := written_split h
  constructor
  . intro hsame hself
    have hshorter : extent (walk [] (split '/' value).tail) < extent [] + extent (split '/' value).tail :=
      extent_walk_lt hparent hself
    have hlength : extent (split '/' value).tail = value.toList.length := by
      rw [← length_written, ← hvalue]
    unfold resolve at hsame
    rw [← length_written, hsame, hlength, extent_nil] at hshorter
    omega
  . intro hself
    unfold resolve
    rw [walk_plain hparent hself, List.nil_append, ← hvalue]

end UrlPath
