import Pliego.Lib.Bytes

/-!
Bytes read as UTF-8: the characters up to the first byte that belongs to none, and the reading that puts U+FFFD in
the place of what is broken.
-/

namespace Utf8

open Bytes

def nextChar (bytes : List UInt8) : Option Char := bytes.toByteArray.utf8DecodeChar? 0

-- How many bytes a character that begins with these two takes, if there is one of three bytes or more.
def widthOf (first second : UInt8) : Nat :=
  let first := first.toNat
  let second := second.toNat
  if (first = 0xE0 ∧ 0xA0 ≤ second ∧ second ≤ 0xBF) ∨ (0xE1 ≤ first ∧ first ≤ 0xEC ∧ 0x80 ≤ second ∧ second ≤ 0xBF)
      ∨ (first = 0xED ∧ 0x80 ≤ second ∧ second ≤ 0x9F)
      ∨ (0xEE ≤ first ∧ first ≤ 0xEF ∧ 0x80 ≤ second ∧ second ≤ 0xBF) then
    3
  else if (first = 0xF0 ∧ 0x90 ≤ second ∧ second ≤ 0xBF) ∨ (0xF1 ≤ first ∧ first ≤ 0xF3 ∧ 0x80 ≤ second ∧ second ≤ 0xBF)
      ∨ (first = 0xF4 ∧ 0x80 ≤ second ∧ second ≤ 0x8F) then
    4
  else
    0

def continues (byte : UInt8) : Bool := 0x80 ≤ byte.toNat && byte.toNat ≤ 0xBF

-- How much is replaced where no character can be read: what begins a character as far as it goes, or one byte.
def brokenLength (bytes : List UInt8) : Nat :=
  match bytes with
  | first :: second :: third :: _ =>
    if widthOf first second = 0 then 1 else if widthOf first second = 4 ∧ continues third then 3 else 2
  | [first, second] => if widthOf first second = 0 then 1 else 2
  | _ => 1

-- The characters up to the first byte that belongs to none, and the bytes from there on.
def readFrom (fuel : Nat) (bytes : List UInt8) : List Char × List UInt8 :=
  match fuel with
  | 0 => ([], bytes)
  | fuel + 1 =>
    match nextChar bytes with
    | some c =>
      let (chars, rest) := readFrom fuel (bytes.drop c.utf8Size)
      (c :: chars, rest)
    | none => ([], bytes)

def read (bytes : List UInt8) : List Char × List UInt8 := readFrom bytes.length bytes

def decode (bytes : List UInt8) : Option String :=
  match read bytes with
  | (chars, []) => some (String.ofList chars)
  | (_, _ :: _) => none

def lossyFrom (fuel : Nat) (bytes : List UInt8) : List Char :=
  match fuel, bytes with
  | 0, _ => []
  | _ + 1, [] => []
  | fuel + 1, byte :: rest =>
    match nextChar (byte :: rest) with
    | some c => c :: lossyFrom fuel ((byte :: rest).drop c.utf8Size)
    | none => '\uFFFD' :: lossyFrom fuel ((byte :: rest).drop (brokenLength (byte :: rest)))

def lossy (bytes : List UInt8) : String := String.ofList (lossyFrom bytes.length bytes)

theorem nextChar_append (c : Char) (rest : List UInt8) : nextChar (String.utf8EncodeChar c ++ rest) = some c := by
  unfold nextChar
  rw [List.toByteArray_append]
  have hone := @List.utf8DecodeChar?_utf8Encode_singleton_append rest.toByteArray c
  rw [List.utf8Encode, List.flatMap_singleton] at hone
  exact hone

theorem nextChar_eq_some {bytes : List UInt8} {c : Char} (h : nextChar bytes = some c)
    : ∃ rest, bytes = String.utf8EncodeChar c ++ rest := by
  obtain ⟨rest, hbytes⟩ := ByteArray.exists_of_utf8DecodeChar?_eq_some h
  refine ⟨rest.data.toList, ?_⟩
  have hdata := congrArg (fun array => array.data.toList) hbytes
  simpa using hdata

theorem drop_encoded (c : Char) (rest : List UInt8) : (String.utf8EncodeChar c ++ rest).drop c.utf8Size = rest := by
  rw [← String.length_utf8EncodeChar c]
  exact List.drop_left

theorem encoded_ne_nil (c : Char) : String.utf8EncodeChar c ≠ [] := by
  intro hnil
  have hlength := String.length_utf8EncodeChar c
  have hpos := c.utf8Size_pos
  rw [hnil] at hlength
  rw [← hlength] at hpos
  cases hpos

theorem nextChar_nil : nextChar [] = none := by
  cases h : nextChar [] with
  | none => rfl
  | some c =>
    obtain ⟨rest, hrest⟩ := nextChar_eq_some h
    cases encoded_ne_nil c (List.append_eq_nil_iff.mp hrest.symm).1

theorem readFrom_encoded (fuel : Nat) (chars : List Char) (rest : List UInt8) (hfuel : chars.length ≤ fuel)
    (hrest : nextChar rest = none)
    : readFrom fuel (chars.flatMap String.utf8EncodeChar ++ rest) = (chars, rest) := by
  induction chars generalizing fuel with
  | nil =>
    cases fuel with
    | zero => rfl
    | succ fuel =>
      rw [List.flatMap_nil, List.nil_append]
      unfold readFrom
      rw [hrest]
  | cons c chars ih =>
    cases fuel with
    | zero => cases hfuel
    | succ fuel =>
      rw [List.flatMap_cons, List.append_assoc]
      unfold readFrom
      rw [nextChar_append]
      dsimp only
      rw [drop_encoded, ih fuel (Nat.le_of_succ_le_succ hfuel)]

theorem length_le_encoded (chars : List Char) : chars.length ≤ (chars.flatMap String.utf8EncodeChar).length := by
  rw [List.length_flatMap]
  induction chars with
  | nil => exact Nat.le_refl 0
  | cons c chars ih =>
    rw [List.map_cons, List.sum_cons, List.length_cons, String.length_utf8EncodeChar]
    have hpos := c.utf8Size_pos
    omega

theorem read_encoded (chars : List Char) (rest : List UInt8) (hrest : nextChar rest = none)
    : read (chars.flatMap String.utf8EncodeChar ++ rest) = (chars, rest) := by
  apply readFrom_encoded _ _ _ _ hrest
  have hlength := length_le_encoded chars
  rw [List.length_append]
  omega

theorem readFrom_bytes (fuel : Nat) (bytes : List UInt8)
    : bytes = (readFrom fuel bytes).1.flatMap String.utf8EncodeChar ++ (readFrom fuel bytes).2 := by
  induction fuel generalizing bytes with
  | zero => rfl
  | succ fuel ih =>
    unfold readFrom
    cases hnext : nextChar bytes with
    | none => rfl
    | some c =>
      obtain ⟨rest, hbytes⟩ := nextChar_eq_some hnext
      subst hbytes
      dsimp only
      rw [drop_encoded, List.flatMap_cons, List.append_assoc, ← ih rest]

theorem read_bytes (bytes : List UInt8)
    : bytes = (read bytes).1.flatMap String.utf8EncodeChar ++ (read bytes).2 := readFrom_bytes _ bytes

theorem utf8_chars (text : String) : utf8 text = text.toList.flatMap String.utf8EncodeChar := by
  conv_lhs => rw [← String.ofList_toList (s := text)]
  exact utf8_ofList _

theorem decode_utf8 (text : String) : decode (utf8 text) = some text := by
  unfold decode
  have hread := read_encoded text.toList [] nextChar_nil
  rw [List.append_nil, ← utf8_chars] at hread
  rw [hread]
  exact congrArg some String.ofList_toList

theorem decode_eq_some {bytes : List UInt8} {text : String} : decode bytes = some text ↔ bytes = utf8 text := by
  constructor
  . intro h
    have hbytes := read_bytes bytes
    unfold decode at h
    cases hread : read bytes with
    | mk chars rest =>
      rw [hread] at h hbytes
      cases rest with
      | nil =>
        cases h
        rw [utf8_ofList]
        rw [List.append_nil] at hbytes
        exact hbytes
      | cons byte rest => cases h
  . intro h
    rw [h]
    exact decode_utf8 text

theorem lossyFrom_encoded (fuel : Nat) (chars : List Char) (hfuel : chars.length ≤ fuel)
    : lossyFrom fuel (chars.flatMap String.utf8EncodeChar) = chars := by
  induction chars generalizing fuel with
  | nil =>
    cases fuel with
    | zero => rfl
    | succ fuel => rfl
  | cons c chars ih =>
    cases fuel with
    | zero => cases hfuel
    | succ fuel =>
      rw [List.flatMap_cons]
      cases hbytes : String.utf8EncodeChar c ++ chars.flatMap String.utf8EncodeChar with
      | nil => cases encoded_ne_nil c (List.append_eq_nil_iff.mp hbytes).1
      | cons byte rest =>
        unfold lossyFrom
        rw [← hbytes, nextChar_append]
        dsimp only
        rw [drop_encoded, ih fuel (Nat.le_of_succ_le_succ hfuel)]

theorem lossy_utf8 (text : String) : lossy (utf8 text) = text := by
  unfold lossy
  rw [utf8_chars, lossyFrom_encoded _ _ (length_le_encoded _), String.ofList_toList]

end Utf8
