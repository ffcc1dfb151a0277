import Pliego.Router.Graph

/-!
What a match of a pattern says: the captured parameters rebuild the path, and two patterns of one
specificity that match one path have one shape.
-/

namespace Pliego

open Bytes Text Sorting

namespace Router

variable {unicode : Unicode}

theorem join_cons {piece : String} {as bs : List String} (hempty : as = [] ↔ bs = [])
    (h : join '/' as = join '/' bs) : join '/' (piece :: as) = join '/' (piece :: bs) := by
  cases as with
  | nil => rw [hempty.mp rfl]
  | cons a as =>
    cases bs with
    | nil => exact absurd (hempty.mpr rfl) (List.cons_ne_nil _ _)
    | cons b bs =>
      unfold join at h ⊢
      have hchars := String.ofList_injective h
      simp only [List.map_cons] at hchars ⊢
      rw [List.intercalate_cons_cons, hchars, ← List.intercalate_cons_cons]

theorem join_singleton (piece : String) : join '/' [piece] = piece := by
  simp [join]

namespace Segment

def fill (parameters : SortedMap String String) (segment : Segment) : Option String :=
  match segment with
  | .literal value => some value
  | .parameter name | .optionalParameter name | .catchAll name => parameters.get? name
  | .group _ => none

def single (segment : Segment) : Option String :=
  match segment with
  | .parameter name | .optionalParameter name => some name
  | _ => none

end Segment

def fillPiece (parameters : SortedMap String String) (piece : String) : Option String :=
  match stripPrefix ':' piece with
  | some name => parameters.get? ((stripSuffix '?' name).getD name)
  | none =>
    match stripPrefix '*' piece with
    | some name => parameters.get? name
    | none => some piece

/--
The captured parameters put into a canonical pattern; an optional parameter that was not captured is
dropped.
-/
def substitute (canonical : String) (parameters : SortedMap String String) : String :=
  joinPath ((rawSegments canonical).filterMap (fillPiece parameters))

theorem WellFormed.render {segment : Segment} (h : segment.WellFormed unicode)
    (hpath : segment.consumesPath = true) : '/' ∉ segment.render.toList ∧ segment.render ≠ "" := by
  have hname : ∀ {name : String}, validateParameter name = .ok () → '/' ∉ name.toList := by
    intro name hname
    exact not_mem_of_isNameByte (validateParameter_ok hname).2.2 (by decide)
      (by decide)
  cases segment with
  | literal value =>
    refine ⟨h.2, ?_⟩
    have hportable := h.1
    unfold isPortableLiteral at hportable
    simp only [Bool.and_eq_true, decide_eq_true_eq] at hportable
    exact hportable.1.1.1.1.1
  | parameter name =>
    unfold Segment.render
    simp [hname h]
  | optionalParameter name =>
    unfold Segment.render
    simp [hname h]
  | catchAll name =>
    unfold Segment.render
    simp [hname h]
  | group name => cases hpath

theorem stripPrefix_append {c : Char} {text : String} (head : String) (h : head.toList = [c])
    : stripPrefix c (head ++ text) = some text := by
  rw [stripPrefix_eq_some, String.toList_append, h]
  rfl

theorem stripPrefix_of_ne {c : Char} {text : String} (h : text.toList.head? ≠ some c)
    : stripPrefix c text = none := by
  unfold stripPrefix
  split
  . rfl
  . next first rest hchars =>
    rw [if_neg]
    intro hsame
    rw [hchars, hsame] at h
    exact h rfl

theorem fillPiece_render {segment : Segment} {parameters : SortedMap String String}
    (h : segment.WellFormed unicode) (hpath : segment.consumesPath = true)
    : fillPiece parameters segment.render = segment.fill parameters := by
  have hname : ∀ {name : String}, validateParameter name = .ok () →
      stripSuffix '?' name = none := by
    intro name hname
    have hnot : '?' ∉ name.toList := not_mem_of_isNameByte (validateParameter_ok hname).2.2
      (by decide) (by decide)
    unfold stripSuffix
    rw [if_neg]
    exact fun hlast => hnot (List.mem_of_getLast? hlast)
  cases segment with
  | literal value =>
    have hportable := h.1
    unfold isPortableLiteral at hportable
    simp only [Bool.and_eq_true, Bool.not_eq_true'] at hportable
    have hnone := List.any_eq_false.mp hportable.1.2
    have hfirst : ∀ c, isReservedCharacter c = true → value.toList.head? ≠ some c := by
      intro c hc hhead
      exact hnone c (List.mem_of_head? hhead) hc
    unfold fillPiece Segment.render Segment.fill
    dsimp only
    rw [stripPrefix_of_ne (hfirst ':' (by decide)), stripPrefix_of_ne (hfirst '*' (by decide))]
  | parameter name =>
    unfold fillPiece Segment.render Segment.fill
    dsimp only
    rw [stripPrefix_append (c := ':') ":" rfl]
    dsimp only
    rw [hname h]
    rfl
  | optionalParameter name =>
    have hsuffix : stripSuffix '?' (name ++ "?") = some name := by
      unfold stripSuffix
      rw [String.toList_append, if_pos (by simp)]
      simp
    unfold fillPiece Segment.render Segment.fill
    dsimp only
    rw [String.append_assoc, stripPrefix_append (c := ':') ":" rfl]
    dsimp only
    rw [hsuffix]
    rfl
  | catchAll name =>
    unfold fillPiece Segment.render Segment.fill
    dsimp only
    have hcolon : stripPrefix ':' ("*" ++ name) = none := by
      apply stripPrefix_of_ne
      simp
    rw [hcolon, stripPrefix_append (c := '*') "*" rfl]
  | group name => cases hpath

namespace RoutePattern

variable {segments : List Segment} {input : List String}
  {parameters out : SortedMap String String}

theorem get?_of_matchSegments (h : matchSegments segments input parameters = some out) {name : String}
    (hname : name ∉ segments.filterMap Segment.parameterName)
    : out.get? name = parameters.get? name := by
  induction segments generalizing input parameters with
  | nil =>
    unfold matchSegments at h
    split at h
    . cases h
      rfl
    . cases h
  | cons segment segments ih =>
    cases segment with
    | literal expected =>
      rw [List.filterMap_cons_none (f := Segment.parameterName) rfl] at hname
      unfold matchSegments at h
      split at h
      . cases h
      . split at h
        . exact ih h hname
        . cases h
    | parameter first =>
      rw [List.filterMap_cons_some (f := Segment.parameterName) rfl, List.mem_cons, not_or] at hname
      unfold matchSegments at h
      split at h
      . cases h
      . rw [ih h hname.2, SortedMap.get?_insert, if_neg hname.1]
    | optionalParameter first =>
      rw [List.filterMap_cons_some (f := Segment.parameterName) rfl, List.mem_cons, not_or] at hname
      unfold matchSegments at h
      split at h
      . exact ih h hname.2
      . rw [ih h hname.2, SortedMap.get?_insert, if_neg hname.1]
    | catchAll first =>
      rw [List.filterMap_cons_some (f := Segment.parameterName) rfl, List.mem_cons, not_or] at hname
      unfold matchSegments at h
      split at h
      . cases h
      . rw [ih h hname.2, SortedMap.get?_insert, if_neg hname.1]
    | group _ => cases h

theorem fill_of_matchSegments (h : matchSegments segments input parameters = some out)
    (hnames : (segments.filterMap Segment.parameterName).Nodup)
    (hfresh : ∀ name ∈ segments.filterMap Segment.parameterName, parameters.get? name = none)
    : (segments.filterMap (Segment.fill out) = [] ↔ input = [])
      ∧ join '/' (segments.filterMap (Segment.fill out)) = join '/' input
      ∧ ∀ segment ∈ segments, ∀ name ∈ segment.single, ∀ value, out.get? name = some value →
        value ∈ input := by
  induction segments generalizing input parameters with
  | nil =>
    unfold matchSegments at h
    split at h
    . next hempty =>
      rw [List.isEmpty_iff] at hempty
      simp [hempty]
    . cases h
  | cons segment segments ih =>
    -- the head took the first piece and left the rest
    have htake : ∀ {name value : String} {rest : List String},
        segment.parameterName = some name → segment.fill out = out.get? name →
        (∀ only ∈ segment.single, only = name) →
        matchSegments segments rest (parameters.insert name value) = some out →
        ((segment :: segments).filterMap (Segment.fill out) = [] ↔ value :: rest = [])
          ∧ join '/' ((segment :: segments).filterMap (Segment.fill out)) = join '/' (value :: rest)
          ∧ ∀ other ∈ segment :: segments, ∀ name ∈ other.single, ∀ found, out.get? name = some found →
            found ∈ value :: rest := by
      intro name value rest hname hfill honly hrest
      rw [List.filterMap_cons_some hname, List.nodup_cons] at hnames
      rw [List.filterMap_cons_some hname] at hfresh
      have hcaptured : out.get? name = some value := by
        rw [get?_of_matchSegments hrest hnames.1, SortedMap.get?_insert, if_pos rfl]
      obtain ⟨hempty, hjoin, hsingle⟩ := ih hrest hnames.2 (by
        intro other hother
        have hne : other ≠ name := fun hsame => hnames.1 (hsame ▸ hother)
        rw [SortedMap.get?_insert, if_neg hne]
        exact hfresh other (List.mem_cons_of_mem _ hother))
      rw [List.filterMap_cons_some (hfill.trans hcaptured)]
      refine ⟨by simp, join_cons hempty hjoin, ?_⟩
      intro other hother only hother' found hfound
      cases List.mem_cons.mp hother with
      | inl hhead =>
        rw [honly only (hhead ▸ hother'), hcaptured] at hfound
        cases hfound
        exact List.mem_cons_self
      | inr htail => exact List.mem_cons_of_mem _ (hsingle other htail only hother' found hfound)
    cases segment with
    | literal expected =>
      rw [List.filterMap_cons_none (f := Segment.parameterName) rfl] at hnames hfresh
      unfold matchSegments at h
      split at h
      . cases h
      . next value rest =>
        split at h
        . next hsame =>
          obtain ⟨hempty, hjoin, hsingle⟩ := ih h hnames hfresh
          rw [List.filterMap_cons_some (show Segment.fill out (.literal expected) = some value by
            rw [hsame]; rfl)]
          refine ⟨by simp, join_cons hempty hjoin, ?_⟩
          intro segment hsegment name hname found hfound
          cases List.mem_cons.mp hsegment with
          | inl hhead =>
            rw [hhead] at hname
            cases hname
          | inr htail =>
            exact List.mem_cons_of_mem _ (hsingle segment htail name hname found hfound)
        . cases h
    | parameter first =>
      unfold matchSegments at h
      split at h
      . cases h
      . exact htake rfl rfl (fun _ hname => (Option.some.inj hname).symm) h
    | optionalParameter first =>
      unfold matchSegments at h
      split at h
      . rw [List.filterMap_cons_some (f := Segment.parameterName) rfl, List.nodup_cons] at hnames
        rw [List.filterMap_cons_some (f := Segment.parameterName) rfl] at hfresh
        obtain ⟨hempty, hjoin, hsingle⟩ := ih h hnames.2
          (fun other hother => hfresh other (List.mem_cons_of_mem _ hother))
        have habsent : out.get? first = none := by
          rw [get?_of_matchSegments h hnames.1]
          exact hfresh first List.mem_cons_self
        rw [List.filterMap_cons_none (show Segment.fill out (.optionalParameter first) = none from
          habsent)]
        refine ⟨hempty, hjoin, ?_⟩
        intro segment hsegment name hname found hfound
        cases List.mem_cons.mp hsegment with
        | inl hhead =>
          rw [hhead] at hname
          cases hname
          rw [habsent] at hfound
          cases hfound
        | inr htail => exact hsingle segment htail name hname found hfound
      . exact htake rfl rfl (fun _ hname => (Option.some.inj hname).symm) h
    | catchAll first =>
      unfold matchSegments at h
      split at h
      . cases h
      . next hrest =>
        rw [Bool.or_eq_true, not_or] at hrest
        obtain ⟨hempty, hjoin, -⟩ := htake rfl rfl nofun h
        have hend : segments = [] := by simpa using hrest.1
        have hinput : input ≠ [] := by simpa using hrest.2
        rw [join_singleton] at hjoin
        subst hend
        refine ⟨iff_of_false (fun h => List.cons_ne_nil _ _ (hempty.mp h)) hinput, hjoin, ?_⟩
        intro segment hsegment name hname found hfound
        rw [List.mem_singleton.mp hsegment] at hname
        cases hname
    | group _ => cases h

theorem shapePiece_of_matchSegments {segments' : List Segment} {parameters' out' : SortedMap String String}
    (h : matchSegments segments input parameters = some out)
    (h' : matchSegments segments' input parameters' = some out')
    (hweight : segments.map Segment.specificity = segments'.map Segment.specificity)
    : segments.map (shapePiece unicode) = segments'.map (shapePiece unicode) := by
  induction segments generalizing segments' input parameters parameters' with
  | nil =>
    rw [List.map_nil, eq_comm, List.map_eq_nil_iff] at hweight
    rw [hweight]
  | cons segment segments ih =>
    cases segments' with
    | nil => cases hweight
    | cons segment' segments' =>
      rw [List.map_cons, List.map_cons, List.cons.injEq] at hweight
      obtain ⟨hhead, htail⟩ := hweight
      rw [List.map_cons, List.map_cons]
      cases segment with
      | literal expected =>
        cases segment' with
        | literal expected' =>
          cases input with
          | nil => cases h
          | cons value rest =>
            unfold matchSegments at h h'
            dsimp only at h h'
            split at h
            . next hsame =>
              split at h'
              . next hsame' => rw [ih h h' htail, ← hsame, ← hsame']
              . cases h'
            . cases h
        | _ => cases hhead
      | parameter first =>
        cases segment' with
        | parameter first' =>
          cases input with
          | nil => cases h
          | cons value rest =>
            unfold matchSegments at h h'
            rw [ih h h' htail]
            rfl
        | _ => cases hhead
      | optionalParameter first =>
        cases segment' with
        | optionalParameter first' =>
          cases input with
          | nil =>
            unfold matchSegments at h h'
            rw [ih h h' htail]
            rfl
          | cons value rest =>
            unfold matchSegments at h h'
            rw [ih h h' htail]
            rfl
        | _ => cases hhead
      | catchAll first =>
        cases segment' with
        | catchAll first' =>
          unfold matchSegments at h h'
          split at h
          . cases h
          . split at h'
            . cases h'
            . rw [ih h h' htail]
              rfl
        | _ => cases hhead
      | group _ => cases h

end RoutePattern

end Router

end Pliego
