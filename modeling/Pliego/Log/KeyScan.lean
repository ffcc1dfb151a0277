import Pliego.Lib.Fields
import Pliego.Lib.JsonWritten
import Pliego.Log.CanonicalJson

/-!
The scan for reserved keys: on a document of JSON it meets every string once and looks at every key, whatever
escapes spell it.
-/

namespace Pliego

open Bytes Decimal JsonText Sorting

namespace CanonicalJson

-- What is assumed of `serde_json`: it reads the grammar down to the recursion limit, a `Map` is ordered by key
-- and the text written for a string is a literal of it. An object whose only key is the reserved one would be
-- taken for a number, and of two members with one key only one is kept.
structure Lawful (serde : SerdeJson) : Prop where
  sound : ∀ raw value, serde.visit raw = (value, none) → Reads raw value
  complete : ∀ raw value, Reads raw value → value.levels < 128 → serde.visit raw = (value, none)
  fromSlice : ∀ raw value, serde.visit raw = (value, none) → value.Every UniqueNames →
    value.Every (Unnamed serdeArbitraryPrecisionNumberKey) → serde.fromSlice raw = .ok (value.normal id)
  text : ∀ raw text, IsLiteral raw text → serde.text raw = .ok text
  quote : ∀ text, IsLiteral (serde.quote text) text

section Names

def StartsNamed (tokens : List Token) : Prop := tokens.head? = some (.mark ':')

def nameAt (token : Token) (next : Option Token) : List String :=
  match token with
  | .text name =>
    match next with
    | some (.mark ':') => [name]
    | _ => []
  | _ => []

def namesOf (tokens : List Token) : List String :=
  match tokens with
  | [] => []
  | token :: rest => nameAt token rest.head? ++ namesOf rest

variable {tokens tokens' : List Token} {name : String}

theorem nameAt_mark {c : Char} {next : Option Token} : nameAt (.mark c) next = [] := rfl

theorem nameAt_of_not_named {token : Token} (h : ¬ StartsNamed tokens) : nameAt token tokens.head? = [] := by
  unfold nameAt
  split
  . split
    . next heq => exact absurd heq h
    . rfl
  . rfl

theorem namesOf_append (h : ¬ StartsNamed tokens')
    : namesOf (tokens ++ tokens') = namesOf tokens ++ namesOf tokens' := by
  induction tokens with
  | nil => rfl
  | cons token rest ih =>
    have hat : nameAt token (rest ++ tokens').head? = nameAt token rest.head? := by
      cases rest with
      | nil =>
        rw [List.nil_append, nameAt_of_not_named h]
        cases token <;> rfl
      | cons second rest => rfl
    rw [List.cons_append, namesOf, namesOf, ih, hat, List.append_assoc]

theorem namesOf_sequence {α : Type} {g : α → List Token} {parts : List α} {stop : Char} (hstop : stop ≠ ':')
    : namesOf ([Token.mark ','].intercalate (parts.map g) ++ [.mark stop]) = parts.flatMap (fun part => namesOf (g part)) := by
  have hend : ¬ StartsNamed [Token.mark stop] := by
    intro h
    cases h
    exact hstop rfl
  have hcomma : ∀ tokens : List Token, ¬ StartsNamed ([Token.mark ','] ++ tokens) := by
    intro tokens h
    cases h
  rw [namesOf_append hend]
  have hlast : namesOf [Token.mark stop] = [] := rfl
  rw [hlast, List.append_nil]
  induction parts with
  | nil => rfl
  | cons part rest ih =>
    cases rest with
    | nil => rw [List.map_singleton, List.intercalate_singleton, List.flatMap_singleton]
    | cons second rest =>
      rw [List.map_cons, List.map_cons, List.intercalate_cons_cons, List.append_assoc,
        namesOf_append (hcomma _), List.flatMap_cons, ← ih]
      rfl

theorem mem_namesOf {value : Value}
    : name ∉ namesOf value.tokens ↔ value.Every (Unnamed name) := by
  induction value using Value.induct with
  | h value ih =>
    rw [Value.every_iff]
    cases value with
    | array items =>
      rw [Value.tokens, itemsTokens_eq, namesOf, namesOf_sequence (by decide), nameAt_mark, List.nil_append]
      simp only [List.mem_flatMap, not_exists, not_and]
      constructor
      . intro h
        refine ⟨?_, fun child hchild => (ih child hchild).mp (h child hchild)⟩
        intro members hobject
        cases hobject
      . exact fun h child hchild => (ih child hchild).mpr (h.2 child hchild)
    | object members =>
      have hmember : ∀ member : String × Value, namesOf (.text member.1 :: .mark ':' :: member.2.tokens)
          = member.1 :: namesOf member.2.tokens := by
        intro member
        rfl
      rw [Value.tokens, membersTokens_eq, namesOf, namesOf_sequence (by decide), nameAt_mark, List.nil_append]
      simp only [hmember, List.mem_flatMap, List.mem_cons, not_exists, not_and, not_or]
      constructor
      . intro h
        constructor
        . intro members' hsame
          cases hsame
          rw [List.mem_map, not_exists]
          exact fun member hmem => (h member hmem.1).1 hmem.2.symm
        . intro child hchild
          obtain ⟨member, hmem, rfl⟩ := List.mem_map.mp hchild
          exact (ih member.2 hchild).mp (h member hmem).2
      . intro h member hmem
        have hchild : member.2 ∈ (Value.object members).children := List.mem_map_of_mem hmem
        refine ⟨?_, (ih member.2 hchild).mpr (h.2 member.2 hchild)⟩
        intro hname
        apply h.1 members rfl
        rw [hname]
        exact List.mem_map_of_mem hmem
    | _ =>
      apply iff_of_true
      . intro h
        cases h
      . refine ⟨?_, fun child hchild => absurd hchild List.not_mem_nil⟩
        intro members hobject
        cases hobject

end Names

section Scan

variable {serde : SerdeJson} {xs ys : List UInt8} {chars rest : List Char} {tokens : List Token}

def reservedError : CanonicalJsonError :=
  .invalid ("object key `" ++ serdeArbitraryPrecisionNumberKey ++ "` is reserved")

theorem scanKeys_outside (h : (34 : UInt8) ∉ xs)
    : scanKeys serde .outside (xs ++ ys) = scanKeys serde .outside ys := by
  induction xs with
  | nil => rfl
  | cons byte xs ih =>
    rw [List.mem_cons, not_or] at h
    rw [List.cons_append, scanKeys, if_neg (Ne.symm h.1), ih h.2]

variable {body : List UInt8} {c : Char}

theorem scanKeys_inside (h : ∀ byte ∈ xs, byte ≠ 34 ∧ byte ≠ 92)
    : scanKeys serde (.inside body) (xs ++ ys) = scanKeys serde (.inside (xs.reverse ++ body)) ys := by
  induction xs generalizing body with
  | nil => rfl
  | cons byte xs ih =>
    obtain ⟨⟨hquote, hescape⟩, hrest⟩ := List.forall_mem_cons.mp h
    rw [List.cons_append, scanKeys, if_neg hquote, if_neg hescape, ih hrest, List.reverse_cons, List.append_assoc]
    rfl

theorem scanKeys_escape {byte : UInt8}
    : scanKeys serde (.inside body) (92 :: byte :: ys) = scanKeys serde (.inside (byte :: 92 :: body)) ys := by
  rw [scanKeys, if_neg (by decide), if_pos rfl, scanKeys]

theorem utf8EncodeChar_ne {byte : UInt8} (hbyte : byte.toNat < 128) (h : c.toNat ≠ byte.toNat)
    : byte ∉ String.utf8EncodeChar c := by
  by_cases hascii : c.toNat < 128
  . rw [Text.utf8EncodeChar_ascii hascii, List.mem_singleton]
    intro hsame
    apply h
    rw [hsame, UInt8.toNat_ofNat']
    omega
  . intro hmem
    have hwide := Text.le_of_mem_utf8EncodeChar (Nat.le_of_not_lt hascii) hmem
    omega

theorem inside_of_char (hquote : c ≠ '"') (hescape : c ≠ '\\')
    : ∀ byte ∈ String.utf8EncodeChar c, byte ≠ 34 ∧ byte ≠ 92 := by
  intro byte hbyte
  constructor
  . intro hsame
    rw [hsame] at hbyte
    exact utf8EncodeChar_ne (by decide) (fun h => hquote (Char.toNat_inj.mp h)) hbyte
  . intro hsame
    rw [hsame] at hbyte
    exact utf8EncodeChar_ne (by decide) (fun h => hescape (Char.toNat_inj.mp h)) hbyte

theorem hexValue_bytes {n : Nat} (h : hexValue c = some n)
    : ∀ byte ∈ String.utf8EncodeChar c, byte ≠ 34 ∧ byte ≠ 92 := by
  apply inside_of_char
  . intro hc
    rw [hc] at h
    cases h
  . intro hc
    rw [hc] at h
    cases h

theorem hexUnit_bytes {a b c d : Char} {n : Nat} (h : hexUnit a b c d = some n)
    : ∀ byte ∈ utf8 (String.ofList [a, b, c, d]), byte ≠ 34 ∧ byte ≠ 92 := by
  unfold hexUnit at h
  simp only [Option.bind_eq_some_iff, Option.map_eq_some_iff] at h
  obtain ⟨_, ha, _, hb, _, hc, _, hd, -⟩ := h
  rw [utf8_ofList]
  simp only [List.flatMap_cons, List.flatMap_nil, List.append_nil, List.mem_append]
  intro byte hbyte
  rcases hbyte with hbyte | hbyte | hbyte | hbyte
  . exact hexValue_bytes ha byte hbyte
  . exact hexValue_bytes hb byte hbyte
  . exact hexValue_bytes hc byte hbyte
  . exact hexValue_bytes hd byte hbyte

theorem scanKeys_unit {a b c d : Char} {n : Nat} (h : hexUnit a b c d = some n)
    : scanKeys serde (.inside body) (utf8 (String.ofList ['\\', 'u', a, b, c, d]) ++ ys)
      = scanKeys serde (.inside ((utf8 (String.ofList ['\\', 'u', a, b, c, d])).reverse ++ body)) ys := by
  have hsplit : utf8 (String.ofList ['\\', 'u', a, b, c, d]) = 92 :: 117 :: utf8 (String.ofList [a, b, c, d]) := by
    rw [utf8_ofList_cons, utf8_ofList_cons]
    rfl
  rw [hsplit, List.cons_append, List.cons_append, scanKeys_escape, scanKeys_inside (hexUnit_bytes h),
    List.reverse_cons, List.reverse_cons, List.append_assoc, List.append_assoc]
  rfl

theorem scanKeys_written (h : Written chars)
    : scanKeys serde (.inside body) (utf8 (String.ofList chars) ++ ys)
      = scanKeys serde (.inside ((utf8 (String.ofList chars)).reverse ++ body)) ys := by
  cases h with
  | plain hquote hescape _ =>
    apply scanKeys_inside
    rw [utf8_ofList_cons, String.ofList_nil]
    have hnil : utf8 "" = [] := rfl
    rw [hnil, List.append_nil]
    exact inside_of_char hquote hescape
  | @short mark c hmark =>
    obtain ⟨byte, hbyte⟩ : ∃ byte, utf8 (String.ofList ['\\', mark]) = [92, byte] := by
      unfold shortEscape at hmark
      split at hmark
      . exact ⟨34, rfl⟩
      . exact ⟨92, rfl⟩
      . exact ⟨47, rfl⟩
      . exact ⟨98, rfl⟩
      . exact ⟨102, rfl⟩
      . exact ⟨110, rfl⟩
      . exact ⟨114, rfl⟩
      . exact ⟨116, rfl⟩
      . cases hmark
    rw [hbyte]
    exact scanKeys_escape
  | unit hunit => exact scanKeys_unit hunit

theorem scanKeys_body (h : Body chars)
    : scanKeys serde (.inside body) (utf8 (String.ofList chars) ++ ys)
      = scanKeys serde (.inside ((utf8 (String.ofList chars)).reverse ++ body)) ys := by
  induction h generalizing body with
  | nil => rfl
  | cons first _ ih =>
    rw [utf8_ofList_append, List.append_assoc, scanKeys_written first, ih, List.reverse_append, List.append_assoc]

theorem dropWhile_of_start (hascii : c.toNat < 128) (hblank : isAsciiWhitespace (UInt8.ofNat c.toNat) = false)
    : (∃ after, (utf8 (String.ofList (c :: chars))).dropWhile isAsciiWhitespace = 58 :: after) ↔ c = ':' := by
  rw [utf8_ofList_cons, Text.utf8EncodeChar_ascii hascii, List.singleton_append, List.dropWhile_cons, hblank,
    if_neg Bool.false_ne_true]
  constructor
  . intro h
    obtain ⟨after, h⟩ := h
    rw [List.cons.injEq] at h
    have hnat := congrArg UInt8.toNat h.1
    rw [UInt8.toNat_ofNat', Nat.mod_eq_of_lt (by omega)] at hnat
    exact Char.toNat_inj.mp hnat
  . intro h
    subst h
    exact ⟨_, rfl⟩

theorem ascii_of_start (h : startOf c ≠ 6)
    : c.toNat < 128 ∧ isAsciiWhitespace (UInt8.ofNat c.toNat) = false := by
  have hcase : isMark c = true ∨ c = 'n' ∨ c = 't' ∨ c = 'f' ∨ c = '"' ∨ c.isDigit = true ∨ c = '-' := by
    by_contra hnone
    simp only [not_or] at hnone
    obtain ⟨hmark, hn, ht, hf, hquote, hdigit, hminus⟩ := hnone
    apply h
    unfold startOf
    simp [hmark, hn, ht, hf, hquote, hdigit, hminus]
  rcases hcase with hmark | rfl | rfl | rfl | rfl | hdigit | rfl
  . unfold isMark at hmark
    simp only [Bool.or_eq_true, beq_iff_eq] at hmark
    rcases hmark with ((((rfl | rfl) | rfl) | rfl) | rfl) | rfl <;> decide
  . decide
  . decide
  . decide
  . decide
  . have hrange := Char.isDigit_iff_toNat.mp hdigit
    have hzero : '0'.toNat = 48 := rfl
    have hnine : '9'.toNat = 57 := rfl
    refine ⟨by omega, ?_⟩
    have hnat : (UInt8.ofNat c.toNat).toNat = c.toNat := by
      rw [UInt8.toNat_ofNat', Nat.mod_eq_of_lt (by omega)]
    have hne : ∀ byte : UInt8, byte.toNat < 48 → (UInt8.ofNat c.toNat == byte) = false := by
      intro byte hbyte
      rw [beq_eq_false_iff_ne]
      intro hsame
      rw [hsame] at hnat
      omega
    unfold isAsciiWhitespace
    rw [hne 32 (by decide), hne 9 (by decide), hne 10 (by decide), hne 12 (by decide), hne 13 (by decide)]
    rfl
  . decide

theorem dropWhile_blanks (h : WrittenAs chars tokens)
    : (∃ after, (utf8 (String.ofList chars)).dropWhile isAsciiWhitespace = 58 :: after) ↔ StartsNamed tokens := by
  induction h with
  | nil =>
    apply iff_of_false
    . intro h
      obtain ⟨after, h⟩ := h
      cases h
    . intro h
      cases h
  | @blank c rest tokens hc _ ih =>
    have hbyte : ∃ byte, String.utf8EncodeChar c = [byte] ∧ isAsciiWhitespace byte = true := by
      unfold isBlank at hc
      simp only [Bool.or_eq_true, beq_iff_eq] at hc
      rcases hc with ((rfl | rfl) | rfl) | rfl
      . exact ⟨32, rfl, rfl⟩
      . exact ⟨9, rfl, rfl⟩
      . exact ⟨10, rfl, rfl⟩
      . exact ⟨13, rfl, rfl⟩
    obtain ⟨byte, hencode, hblank⟩ := hbyte
    rw [utf8_ofList_cons, hencode, List.singleton_append, List.dropWhile_cons, if_pos hblank]
    exact ih
  | @token text rest token tokens first _ _ =>
    obtain ⟨c, others, htext, hstart⟩ := first.start
    have hne : startOf c ≠ 6 := by
      rw [hstart]
      intro hsix
      cases token with
      | bool value => cases value <;> cases hsix
      | _ => cases hsix
    obtain ⟨hascii, hblank⟩ := ascii_of_start hne
    rw [htext, List.cons_append, dropWhile_of_start hascii hblank]
    unfold StartsNamed
    rw [List.head?_cons, Option.some.injEq]
    cases first with
    | other first _ =>
      cases first with
      | mark _ =>
        cases htext
        rw [Token.mark.injEq]
      | number hnumber =>
        apply iff_of_false
        . intro hc
          subst hc
          cases hstart
        . intro h
          cases h
      | _ =>
        cases htext
        simp
    | text _ =>
      cases htext
      simp

def checkName (serde : SerdeJson) (body : String) : Except CanonicalJsonError Unit :=
  match serde.text (34 :: (utf8 body ++ [34])) with
  | .error reason => .error (.invalid reason)
  | .ok key => if key = serdeArbitraryPrecisionNumberKey then .error reservedError else .ok ()

theorem scanKeys_writtenAs (h : WrittenAs chars tokens)
    : scanKeys serde .outside (utf8 (String.ofList chars)) = (namesOf tokens).forM (checkName serde) := by
  induction h with
  | nil => rfl
  | @blank c rest tokens hc _ ih =>
    have hquote : (34 : UInt8) ∉ String.utf8EncodeChar c := by
      apply utf8EncodeChar_ne (by decide)
      intro hsame
      have hc' : c = '"' := Char.toNat_inj.mp hsame
      subst hc'
      cases hc
    rw [utf8_ofList_cons, scanKeys_outside hquote, ih]
  | @token text rest token tokens first _ hrest ih =>
    rw [utf8_ofList_append]
    cases first with
    | other first hother =>
      have hname : nameAt token tokens.head? = [] := by
        cases token with
        | text value => exact absurd rfl (hother value)
        | _ => rfl
      have hplain : (34 : UInt8) ∉ utf8 (String.ofList text) →
          scanKeys serde .outside (utf8 (String.ofList text) ++ utf8 (String.ofList rest))
            = (namesOf (token :: tokens)).forM (checkName serde) := by
        intro hquote
        rw [scanKeys_outside hquote, ih, namesOf, hname, List.nil_append]
      cases first with
      | mark hc =>
        apply hplain
        unfold isMark at hc
        simp only [Bool.or_eq_true, beq_iff_eq] at hc
        rcases hc with ((((rfl | rfl) | rfl) | rfl) | rfl) | rfl <;> decide
      | nullWord => exact hplain (by decide)
      | trueWord => exact hplain (by decide)
      | falseWord => exact hplain (by decide)
      | number hnumber =>
        apply hplain
        rw [utf8_ofList, List.mem_flatMap, not_exists]
        intro c hmem
        have hc := List.all_eq_true.mp (number_chars hnumber) c hmem.1
        apply utf8EncodeChar_ne (by decide) _ hmem.2
        intro hsame
        have hc' : c = '"' := Char.toNat_inj.mp hsame
        subst hc'
        cases hc
      | text _ => exact absurd rfl (hother _)
    | @text body hbody =>
      have hshape : utf8 (String.ofList ('"' :: (body ++ ['"']))) ++ utf8 (String.ofList rest)
          = 34 :: (utf8 (String.ofList body) ++ (34 :: utf8 (String.ofList rest))) := by
        rw [utf8_ofList_cons, utf8_ofList_append, List.append_assoc, List.append_assoc]
        rfl
      rw [hshape, scanKeys, if_pos rfl, scanKeys_body hbody, scanKeys, if_pos rfl, List.append_nil,
        List.reverse_reverse, ih, namesOf]
      have hblanks := dropWhile_blanks hrest
      by_cases hnamed : StartsNamed tokens
      . obtain ⟨after, hafter⟩ := hblanks.mpr hnamed
        have hat : nameAt (.text (String.ofList body)) tokens.head? = [String.ofList body] := by
          unfold StartsNamed at hnamed
          rw [hnamed]
          rfl
        have hcheck : checkKey serde (34 :: (utf8 (String.ofList body) ++ [34])) (utf8 (String.ofList rest))
            = checkName serde (String.ofList body) := by
          unfold checkKey checkName
          rw [hafter]
          rfl
        rw [hcheck, hat, List.singleton_append]
        rfl
      . rw [nameAt_of_not_named hnamed, List.nil_append]
        unfold checkKey
        split
        . next after hafter => exact absurd (hblanks.mp ⟨_, hafter⟩) hnamed
        . rfl

theorem scan_ok_iff {raw : List UInt8} {value : Value} (h : Writes raw value)
    : rejectReservedNumberKeys serde raw = .ok () ↔ ∀ body ∈ namesOf value.tokens, checkName serde body = .ok () := by
  obtain ⟨chars, rfl, hwritten⟩ := h
  unfold rejectReservedNumberKeys
  rw [scanKeys_writtenAs hwritten, Except.forM_eq_ok]

theorem namesOf_decoded {spelled : List Token} (h : List.Forall₂ Token.Decoded spelled tokens)
    : List.Forall₂ Decodes (namesOf spelled) (namesOf tokens) := by
  induction h with
  | nil => exact .nil
  | @cons first decoded others tokens hfirst hothers ih =>
    have hhead : others.head? = some (.mark ':') ↔ tokens.head? = some (.mark ':') := by
      cases hothers with
      | nil => exact Iff.rfl
      | cons hnext _ =>
        cases hnext with
        | same _ => exact Iff.rfl
        | text _ => simp
    rw [namesOf, namesOf]
    cases hfirst with
    | same hplain =>
      have hnone : ∀ next, nameAt first next = [] := by
        intro next
        cases first with
        | text value => exact absurd rfl (hplain value)
        | _ => rfl
      rw [hnone, hnone]
      exact ih
    | @text body name hdecodes =>
      by_cases hnamed : tokens.head? = some (.mark ':')
      . rw [hhead.mpr hnamed, hnamed]
        exact .cons hdecodes ih
      . rw [@nameAt_of_not_named others (.text body) (fun h => hnamed (hhead.mp h)),
          @nameAt_of_not_named tokens (.text name) hnamed]
        exact ih

theorem checkName_of_decodes (hserde : Lawful serde) {body name : String} (h : Decodes body name)
    : checkName serde body = .ok () ↔ name ≠ serdeArbitraryPrecisionNumberKey := by
  have hkey : serde.text (34 :: (utf8 body ++ [34])) = .ok name := by
    apply hserde.text
    refine ⟨body.toList, ?_, h⟩
    rw [utf8_ofList_cons, utf8_ofList_append, String.ofList_toList]
    rfl
  unfold checkName
  rw [hkey]
  dsimp only
  split
  . next hreserved => exact iff_of_false nofun (not_not.mpr hreserved)
  . next hother => exact iff_of_true rfl hother

theorem checkName_decoded (hserde : Lawful serde) {bodies names : List String}
    (h : List.Forall₂ Decodes bodies names)
    : (∀ body ∈ bodies, checkName serde body = .ok ()) ↔ serdeArbitraryPrecisionNumberKey ∉ names := by
  induction h with
  | nil => simp
  | cons hname _ ih =>
    rw [List.forall_mem_cons, ih, checkName_of_decodes hserde hname, List.mem_cons, not_or, ne_comm]

theorem rejectReservedNumberKeys_ok (hserde : Lawful serde) {raw : List UInt8} {value : Value} (h : Reads raw value)
    : rejectReservedNumberKeys serde raw = .ok () ↔ value.Every (Unnamed serdeArbitraryPrecisionNumberKey) := by
  obtain ⟨chars, rfl, hlexed⟩ := h
  obtain ⟨spelled, hwritten, hdecoded⟩ := hlexed.writtenAs
  unfold rejectReservedNumberKeys
  rw [scanKeys_writtenAs hwritten, Except.forM_eq_ok, ← mem_namesOf]
  exact checkName_decoded hserde (namesOf_decoded hdecoded)

end Scan

end CanonicalJson

end Pliego
