import Pliego.Lib.JsonValue

/-!
The compact text of a JSON value as characters, with the escapes of its strings as a parameter.
-/

namespace JsonText

open Bytes

def quoted (escape : Char → List Char) (text : String) : List Char :=
  '"' :: (text.toList.flatMap escape ++ ['"'])

mutual

def compact (escape : Char → List Char) (value : Value) : List Char :=
  match value with
  | .null => ['n', 'u', 'l', 'l']
  | .bool true => ['t', 'r', 'u', 'e']
  | .bool false => ['f', 'a', 'l', 's', 'e']
  | .number lexeme => lexeme.toList
  | .text value => quoted escape value
  | .array items => '[' :: ([','].intercalate (compactItems escape items) ++ [']'])
  | .object members => '{' :: ([','].intercalate (compactMembers escape members) ++ ['}'])

def compactItems (escape : Char → List Char) (items : List Value) : List (List Char) :=
  match items with
  | [] => []
  | item :: rest => compact escape item :: compactItems escape rest

def compactMembers (escape : Char → List Char) (members : List (String × Value)) : List (List Char) :=
  match members with
  | [] => []
  | (key, value) :: rest => (quoted escape key ++ ':' :: compact escape value) :: compactMembers escape rest

end

variable {escape f : Char → List Char} {value : Value} {items : List Value} {members : List (String × Value)}

theorem compactItems_eq : compactItems escape items = items.map (compact escape) := by
  induction items with
  | nil => rfl
  | cons item rest ih => rw [compactItems, ih, List.map_cons]

theorem compactMembers_eq
    : compactMembers escape members = members.map (fun member => quoted escape member.1 ++ ':' :: compact escape member.2) := by
  induction members with
  | nil => rfl
  | cons member rest ih => rw [compactMembers, ih, List.map_cons]

theorem utf8_intercalate {parts : List (List Char)}
    : utf8 (String.ofList ([','].intercalate parts)) = [44].intercalate (parts.map fun part => utf8 (String.ofList part)) := by
  induction parts with
  | nil => rfl
  | cons part parts ih =>
    cases parts with
    | nil => rw [List.intercalate_singleton, List.map_singleton, List.intercalate_singleton]
    | cons second parts =>
      rw [List.intercalate_cons_cons, utf8_ofList_append, utf8_ofList_append, ih, List.map_cons, List.map_cons,
        List.map_cons, List.intercalate_cons_cons]
      rfl

theorem utf8_compact
    : utf8 (String.ofList (compact escape value)) = write (fun text => utf8 (String.ofList (quoted escape text))) value := by
  induction value using Value.induct with
  | h value ih =>
    cases value with
    | null => rfl
    | bool value => cases value <;> rfl
    | number lexeme =>
      rw [compact, String.ofList_toList]
      rfl
    | text _ => rfl
    | array items =>
      rw [compact, write, utf8_ofList_cons, utf8_ofList_append, utf8_intercalate, compactItems_eq, writeItems_eq,
        List.map_map]
      have hparts : items.map ((fun part => utf8 (String.ofList part)) ∘ compact escape) = items.map _ :=
        List.map_congr_left ih
      rw [hparts]
      rfl
    | object members =>
      rw [compact, write, utf8_ofList_cons, utf8_ofList_append, utf8_intercalate, compactMembers_eq, writeMembers_eq,
        List.map_map]
      have hparts : ∀ member ∈ members,
          ((fun part => utf8 (String.ofList part)) ∘ fun member : String × Value =>
            quoted escape member.1 ++ ':' :: compact escape member.2) member
          = utf8 (String.ofList (quoted escape member.1)) ++ [58]
            ++ write (fun text => utf8 (String.ofList (quoted escape text))) member.2 := by
        intro member hmember
        rw [Function.comp_apply, utf8_ofList_append, utf8_ofList_cons, ih member.2 (List.mem_map_of_mem hmember),
          List.append_assoc]
        rfl
      rw [List.map_congr_left hparts]
      rfl

theorem reads_compact (hescape : ∀ c, Spelling (escape c) c) (hproper : value.Every ProperNumber)
    : Reads (utf8 (String.ofList (compact escape value))) value := by
  rw [utf8_compact]
  apply reads_write _ hproper
  intro text
  refine ⟨_, rfl, ?_⟩
  induction text.toList with
  | nil => exact .nil
  | cons c rest ih =>
    rw [List.flatMap_cons]
    exact .cons (hescape c) ih

/-!
What a text consists of beside the escaped characters of its strings.
-/

def isFixed (c : Char) : Bool :=
  isMark c || c = '"' || isNumberChar c || c.isAlpha

theorem mem_intercalate_comma {c : Char} {parts : List (List Char)} (h : c ∈ [','].intercalate parts)
    : c = ',' ∨ ∃ part ∈ parts, c ∈ part :=
  (Text.mem_intercalate.mp h).imp And.left id

theorem compact_forall {P : Char → Prop} (hescape : ∀ d, ∀ c ∈ escape d, P c) (hfixed : ∀ c, isFixed c = true → P c)
    (hproper : value.Every ProperNumber)
    : ∀ c ∈ compact escape value, P c := by
  have hquoted : ∀ text, ∀ c ∈ quoted escape text, P c := by
    intro text c hc
    unfold quoted at hc
    rw [List.mem_cons, List.mem_append, List.mem_flatMap, List.mem_singleton] at hc
    rcases hc with rfl | ⟨d, -, hc⟩ | rfl
    . exact hfixed _ rfl
    . exact hescape d c hc
    . exact hfixed _ rfl
  induction value using Value.induct with
  | h value ih =>
    rw [Value.every_iff] at hproper
    have hchildren := fun child hchild => ih child hchild (hproper.2 child hchild)
    intro c hc
    cases value with
    | null => exact hfixed c (List.all_eq_true.mp (rfl : ['n', 'u', 'l', 'l'].all isFixed = true) c hc)
    | bool value =>
      cases value with
      | true => exact hfixed c (List.all_eq_true.mp (rfl : ['t', 'r', 'u', 'e'].all isFixed = true) c hc)
      | false => exact hfixed c (List.all_eq_true.mp (rfl : ['f', 'a', 'l', 's', 'e'].all isFixed = true) c hc)
    | number lexeme =>
      apply hfixed
      unfold isFixed
      rw [List.all_eq_true.mp (number_chars (hproper.1 lexeme rfl)) c hc, Bool.or_true, Bool.true_or]
    | text text => exact hquoted text c hc
    | array items =>
      rw [compact, List.mem_cons, List.mem_append, List.mem_singleton, compactItems_eq] at hc
      rcases hc with rfl | hc | rfl
      . exact hfixed _ rfl
      . rcases mem_intercalate_comma hc with rfl | ⟨part, hpart, hc⟩
        . exact hfixed _ rfl
        . obtain ⟨item, hitem, rfl⟩ := List.mem_map.mp hpart
          exact hchildren item hitem c hc
      . exact hfixed _ rfl
    | object members =>
      rw [compact, List.mem_cons, List.mem_append, List.mem_singleton, compactMembers_eq] at hc
      rcases hc with rfl | hc | rfl
      . exact hfixed _ rfl
      . rcases mem_intercalate_comma hc with rfl | ⟨part, hpart, hc⟩
        . exact hfixed _ rfl
        . obtain ⟨member, hmember, rfl⟩ := List.mem_map.mp hpart
          rw [List.mem_append, List.mem_cons] at hc
          rcases hc with hc | rfl | hc
          . exact hquoted _ c hc
          . exact hfixed _ rfl
          . exact hchildren member.2 (List.mem_map_of_mem hmember) c hc
      . exact hfixed _ rfl

theorem flatMap_fixed {chars : List Char} (h : ∀ c ∈ chars, f c = [c]) : chars.flatMap f = chars := by
  induction chars with
  | nil => rfl
  | cons c chars ih =>
    obtain ⟨hc, hothers⟩ := List.forall_mem_cons.mp h
    rw [List.flatMap_cons, hc, ih hothers]
    rfl

theorem flatMap_intercalate {parts : List (List Char)} (h : f ',' = [','])
    : ([','].intercalate parts).flatMap f = [','].intercalate (parts.map (List.flatMap f)) := by
  induction parts with
  | nil => rfl
  | cons part parts ih =>
    cases parts with
    | nil => rw [List.intercalate_singleton, List.map_singleton, List.intercalate_singleton]
    | cons second parts =>
      rw [List.intercalate_cons_cons, List.flatMap_append, List.flatMap_append, ih, List.flatMap_singleton, h,
        List.map_cons, List.map_cons, List.map_cons, List.intercalate_cons_cons]

theorem flatMap_compact (hfixed : ∀ c, isFixed c = true → f c = [c]) (hproper : value.Every ProperNumber)
    : (compact escape value).flatMap f = compact (fun c => (escape c).flatMap f) value := by
  have hquoted : ∀ text, (quoted escape text).flatMap f = quoted (fun c => (escape c).flatMap f) text := by
    intro text
    unfold quoted
    rw [List.flatMap_cons, List.flatMap_append, List.flatMap_singleton, hfixed '"' rfl, List.flatMap_assoc]
    rfl
  induction value using Value.induct with
  | h value ih =>
    rw [Value.every_iff] at hproper
    have hchildren := fun child hchild => ih child hchild (hproper.2 child hchild)
    cases value with
    | null =>
      apply flatMap_fixed
      exact fun c hc => hfixed c (List.all_eq_true.mp (rfl : ['n', 'u', 'l', 'l'].all isFixed = true) c hc)
    | bool value =>
      cases value with
      | true =>
        apply flatMap_fixed
        exact fun c hc => hfixed c (List.all_eq_true.mp (rfl : ['t', 'r', 'u', 'e'].all isFixed = true) c hc)
      | false =>
        apply flatMap_fixed
        exact fun c hc => hfixed c (List.all_eq_true.mp (rfl : ['f', 'a', 'l', 's', 'e'].all isFixed = true) c hc)
    | number lexeme =>
      apply flatMap_fixed
      intro c hc
      apply hfixed
      unfold isFixed
      rw [List.all_eq_true.mp (number_chars (hproper.1 lexeme rfl)) c hc, Bool.or_true, Bool.true_or]
    | text text => exact hquoted text
    | array items =>
      rw [compact, compact, compactItems_eq, compactItems_eq, List.flatMap_cons, List.flatMap_append,
        flatMap_intercalate (hfixed ',' rfl), List.flatMap_singleton, hfixed '[' rfl, hfixed ']' rfl, List.map_map]
      have hparts : items.map (List.flatMap f ∘ compact escape) = items.map _ := List.map_congr_left hchildren
      rw [hparts]
      rfl
    | object members =>
      rw [compact, compact, compactMembers_eq, compactMembers_eq, List.flatMap_cons, List.flatMap_append,
        flatMap_intercalate (hfixed ',' rfl), List.flatMap_singleton, hfixed '{' rfl, hfixed '}' rfl, List.map_map]
      have hparts : ∀ member ∈ members,
          (List.flatMap f ∘ fun member : String × Value => quoted escape member.1 ++ ':' :: compact escape member.2) member
          = quoted (fun c => (escape c).flatMap f) member.1
            ++ ':' :: compact (fun c => (escape c).flatMap f) member.2 := by
        intro member hmember
        rw [Function.comp_apply, List.flatMap_append, List.flatMap_cons, hquoted, hfixed ':' rfl,
          hchildren member.2 (List.mem_map_of_mem hmember)]
        rfl
      rw [List.map_congr_left hparts]
      rfl

end JsonText
