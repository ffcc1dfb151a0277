import Pliego.Lib.Bytes

/-!
JSON texts: trees of values as a text spells them, their compact text and their text with one value a line.
-/

namespace JsonText

open Bytes

-- Numbers are kept as they are spelled, objects as the list of their members.
inductive Value where
  | null
  | bool (value : Bool)
  | number (lexeme : String)
  | text (value : String)
  | array (items : List Value)
  | object (members : List (String × Value))

section Writers

variable (quote : String → List UInt8)

mutual

def write (value : Value) : List UInt8 :=
  match value with
  | .null => utf8 "null"
  | .bool true => utf8 "true"
  | .bool false => utf8 "false"
  | .number lexeme => utf8 lexeme
  | .text value => quote value
  | .array items => [91] ++ [44].intercalate (writeItems items) ++ [93]
  | .object members => [123] ++ [44].intercalate (writeMembers members) ++ [125]

def writeItems (items : List Value) : List (List UInt8) :=
  match items with
  | [] => []
  | item :: rest => write item :: writeItems rest

def writeMembers (members : List (String × Value)) : List (List UInt8) :=
  match members with
  | [] => []
  | (key, value) :: rest => (quote key ++ [58] ++ write value) :: writeMembers rest

end

def newline (depth : Nat) : List UInt8 := 10 :: List.replicate (2 * depth) 32

def laidOut (depth : Nat) (start stop : UInt8) (parts : List (List UInt8)) : List UInt8 :=
  if parts.isEmpty then
    [start, stop]
  else
    [start] ++ newline (depth + 1) ++ (44 :: newline (depth + 1)).intercalate parts ++ newline depth
      ++ [stop]

mutual

def pretty (depth : Nat) (value : Value) : List UInt8 :=
  match value with
  | .null => utf8 "null"
  | .bool true => utf8 "true"
  | .bool false => utf8 "false"
  | .number lexeme => utf8 lexeme
  | .text value => quote value
  | .array items => laidOut depth 91 93 (prettyItems (depth + 1) items)
  | .object members => laidOut depth 123 125 (prettyMembers (depth + 1) members)

def prettyItems (depth : Nat) (items : List Value) : List (List UInt8) :=
  match items with
  | [] => []
  | item :: rest => pretty depth item :: prettyItems depth rest

def prettyMembers (depth : Nat) (members : List (String × Value)) : List (List UInt8) :=
  match members with
  | [] => []
  | (key, value) :: rest =>
    (quote key ++ [58, 32] ++ pretty depth value) :: prettyMembers depth rest

end

mutual

def extent (depth : Nat) (value : Value) : Nat :=
  match value with
  | .null => 4
  | .bool _ => 5
  | .number lexeme => (utf8 lexeme).length
  | .text value => (quote value).length
  | .array items => extentItems (depth + 1) items + 2 * depth + 3
  | .object members => extentMembers (depth + 1) members + 2 * depth + 3

def extentItems (depth : Nat) (items : List Value) : Nat :=
  match items with
  | [] => 0
  | item :: rest => extent depth item + 2 * depth + 2 + extentItems depth rest

def extentMembers (depth : Nat) (members : List (String × Value)) : Nat :=
  match members with
  | [] => 0
  | (key, value) :: rest =>
    (quote key).length + 2 + extent depth value + 2 * depth + 2 + extentMembers depth rest

end

variable {quote}

theorem length_intercalate {α : Type} {sep : List α} {parts : List (List α)} (hne : parts ≠ [])
    : (sep.intercalate parts).length + sep.length
      = (parts.map (fun part => part.length + sep.length)).sum := by
  induction parts with
  | nil => exact absurd rfl hne
  | cons part rest ih =>
    cases rest with
    | nil =>
      rw [List.intercalate_singleton]
      simp
    | cons second rest =>
      have hrest := ih (List.cons_ne_nil _ _)
      rw [List.intercalate_cons_cons, List.length_append, List.length_append, List.map_cons,
        List.sum_cons, ← hrest]
      omega

theorem length_newline {depth : Nat} : (newline depth).length = 2 * depth + 1 := by
  unfold newline
  rw [List.length_cons, List.length_replicate]

theorem length_laidOut_le {depth : Nat} {start stop : UInt8} {parts : List (List UInt8)}
    : (laidOut depth start stop parts).length
      ≤ (parts.map (fun part => part.length + (2 * (depth + 1) + 2))).sum + 2 * depth + 3 := by
  unfold laidOut
  cases parts with
  | nil =>
    rw [List.isEmpty_nil, if_pos rfl]
    exact Nat.le_add_left _ _
  | cons part rest =>
    have hparts := @length_intercalate _ (44 :: newline (depth + 1)) _ (List.cons_ne_nil part rest)
    have hsep : (44 :: newline (depth + 1)).length = 2 * (depth + 1) + 2 := by
      rw [List.length_cons, length_newline]
    rw [hsep] at hparts
    rw [List.isEmpty_cons, if_neg Bool.false_ne_true]
    simp only [List.length_append, List.length_singleton, length_newline]
    omega

mutual

theorem length_pretty_le (depth : Nat) (value : Value)
    : (pretty quote depth value).length ≤ extent quote depth value := by
  match value with
  | .null =>
    rw [pretty, extent]
    decide
  | .bool true =>
    rw [pretty, extent]
    decide
  | .bool false =>
    rw [pretty, extent]
    decide
  | .number lexeme => exact Nat.le_refl _
  | .text value => exact Nat.le_refl _
  | .array items =>
    rw [pretty, extent]
    have hparts := length_prettyItems_le (depth + 1) items
    have hlaid := @length_laidOut_le depth 91 93 (prettyItems quote (depth + 1) items)
    omega
  | .object members =>
    rw [pretty, extent]
    have hparts := length_prettyMembers_le (depth + 1) members
    have hlaid := @length_laidOut_le depth 123 125 (prettyMembers quote (depth + 1) members)
    omega

theorem length_prettyItems_le (depth : Nat) (items : List Value)
    : ((prettyItems quote depth items).map (fun part => part.length + (2 * depth + 2))).sum
      ≤ extentItems quote depth items := by
  match items with
  | [] => exact Nat.zero_le _
  | item :: rest =>
    rw [prettyItems, extentItems, List.map_cons, List.sum_cons]
    have hitem := length_pretty_le depth item
    have hrest := length_prettyItems_le depth rest
    omega

theorem length_prettyMembers_le (depth : Nat) (members : List (String × Value))
    : ((prettyMembers quote depth members).map (fun part => part.length + (2 * depth + 2))).sum
      ≤ extentMembers quote depth members := by
  match members with
  | [] => exact Nat.zero_le _
  | (key, value) :: rest =>
    rw [prettyMembers, extentMembers, List.map_cons, List.sum_cons, List.length_append,
      List.length_append, List.length_cons, List.length_singleton]
    have hvalue := length_pretty_le depth value
    have hrest := length_prettyMembers_le depth rest
    omega

end

theorem extentItems_map_le {α : Type} {f : α → Value} {bound depth : Nat} {values : List α}
    (h : ∀ value ∈ values, extent quote depth (f value) + 2 * depth + 2 ≤ bound)
    : extentItems quote depth (values.map f) ≤ values.length * bound := by
  induction values with
  | nil => exact Nat.zero_le _
  | cons value rest ih =>
    obtain ⟨hvalue, hrest⟩ := List.forall_mem_cons.mp h
    have hsum := ih hrest
    rw [List.map_cons, extentItems, List.length_cons, Nat.add_mul, Nat.one_mul]
    omega

end Writers

end JsonText
