import Pliego.Lib.ByteReader
import Pliego.Log.CanonicalValue

/-!
The scan for reserved keys by index.
-/

namespace Pliego

open Bytes ByteReader Decimal JsonText

namespace CanonicalJson

-- The inner loop: the closing quote of a string, or where the text has ended before there was one.
def stringEnd (raw : List UInt8) (index : Nat) : Option Nat :=
  if index < raw.length then
    match raw[index]? with
    | none => none
    | some byte =>
      if byte = 34 then some index
      else stringEnd raw (if byte = 92 then index + 2 else index + 1)
  else
    some index
termination_by raw.length - index
decreasing_by split <;> omega

def skipWhitespace (raw : List UInt8) (next : Nat) : Option Nat :=
  if next < raw.length then
    match raw[next]? with
    | none => none
    | some byte => if isAsciiWhitespace byte then skipWhitespace raw (next + 1) else some next
  else
    some next
termination_by raw.length - next

theorem le_stringEnd {raw : List UInt8} {index stop : Nat} (h : stringEnd raw index = some stop) : index ≤ stop := by
  unfold stringEnd at h
  split at h
  . cases hbyte : raw[index]? with
    | none =>
      rw [hbyte] at h
      cases h
    | some byte =>
      rw [hbyte] at h
      dsimp only at h
      split at h
      . cases h
        exact Nat.le_refl _
      . have hstep := le_stringEnd h
        split at hstep <;> omega
  . cases h
    exact Nat.le_refl _
termination_by raw.length - index
decreasing_by split <;> omega

-- The outer loop. Nothing is returned when an index is out of range.
def scanFrom (serde : SerdeJson) (raw : List UInt8) (index : Nat) : Option (Except CanonicalJsonError Unit) :=
  if index < raw.length then
    match raw[index]? with
    | none => none
    | some byte =>
      if byte ≠ 34 then
        scanFrom serde raw (index + 1)
      else
        match hend : stringEnd raw (index + 1) with
        | none => none
        | some stop =>
          have := le_stringEnd hend
          match skipWhitespace raw (stop + 1) with
          | none => none
          | some next =>
            if next ≥ raw.length then
              scanFrom serde raw (stop + 1)
            else
              match raw[next]? with
              | none => none
              | some byte =>
                if byte ≠ 58 then
                  scanFrom serde raw (stop + 1)
                else
                  match slice raw index (stop + 1) with
                  | none => none
                  | some literal =>
                    match serde.text literal with
                    | .error reason => some (.error (.invalid reason))
                    | .ok key =>
                      if key = serdeArbitraryPrecisionNumberKey then
                        some (.error (.invalid ("object key `" ++ serdeArbitraryPrecisionNumberKey ++ "` is reserved")))
                      else
                        scanFrom serde raw (stop + 1)
  else
    some (.ok ())
termination_by raw.length - index

variable {serde : SerdeJson} {raw : List UInt8} {index : Nat}

theorem drop_of_lt (h : index < raw.length) : raw.drop index = raw[index] :: raw.drop (index + 1) :=
  List.drop_eq_getElem_cons h

theorem skipWhitespace_eq (raw : List UInt8) (index : Nat)
    : ∃ next, skipWhitespace raw index = some next ∧ index ≤ next ∧
        (raw.drop index).dropWhile isAsciiWhitespace = raw.drop next := by
  unfold skipWhitespace
  by_cases hlt : index < raw.length
  . rw [if_pos hlt, List.getElem?_eq_getElem hlt, drop_of_lt hlt, List.dropWhile_cons]
    dsimp only
    split
    . obtain ⟨next, hnext, hle, hdrop⟩ := skipWhitespace_eq raw (index + 1)
      exact ⟨next, hnext, by omega, hdrop⟩
    . exact ⟨index, rfl, Nat.le_refl _, (drop_of_lt hlt).symm⟩
  . rw [if_neg hlt]
    refine ⟨index, rfl, Nat.le_refl _, ?_⟩
    rw [List.drop_eq_nil_of_le (Nat.le_of_not_lt hlt)]
    rfl
termination_by raw.length - index

theorem take_of_lt {stop : Nat} (h : index < raw.length) (hle : index + 1 ≤ stop)
    : (raw.drop index).take (stop - index) = raw[index] :: (raw.drop (index + 1)).take (stop - (index + 1)) := by
  have hcount : stop - index = stop - (index + 1) + 1 := by omega
  rw [drop_of_lt h, hcount, List.take_succ_cons]

theorem scanKeys_stringEnd (serde : SerdeJson) (raw : List UInt8) (index : Nat)
    : ∃ stop, stringEnd raw index = some stop ∧
        (stop < raw.length → raw[stop]? = some 34) ∧
        ∀ body, scanKeys serde (.inside body) (raw.drop index) =
          if stop < raw.length then
            (checkKey serde (34 :: (body.reverse ++ ((raw.drop index).take (stop - index) ++ [34]))) (raw.drop (stop + 1))).bind
              fun _ => scanKeys serde .outside (raw.drop (stop + 1))
          else
            .ok () := by
  unfold stringEnd
  by_cases hlt : index < raw.length
  . rw [if_pos hlt, List.getElem?_eq_getElem hlt]
    dsimp only
    by_cases hquote : raw[index] = 34
    . rw [if_pos hquote]
      refine ⟨index, rfl, ?_, ?_⟩
      . intro _
        rw [List.getElem?_eq_getElem hlt, hquote]
      . intro body
        rw [if_pos hlt, drop_of_lt hlt, scanKeys, if_pos hquote, Nat.sub_self, List.take_zero, List.nil_append]
    . rw [if_neg hquote]
      by_cases hescape : raw[index] = 92
      . rw [if_pos hescape]
        obtain ⟨stop, hstop, hbyte, hscan⟩ := scanKeys_stringEnd serde raw (index + 2)
        have hle := le_stringEnd hstop
        refine ⟨stop, hstop, hbyte, ?_⟩
        intro body
        rw [drop_of_lt hlt, scanKeys, if_neg hquote, if_pos hescape]
        by_cases hlast : index + 1 < raw.length
        . rw [drop_of_lt hlast, scanKeys, hscan, ← drop_of_lt hlast, ← drop_of_lt hlt, take_of_lt hlt (by omega),
            take_of_lt hlast hle, List.reverse_cons, List.reverse_cons, List.append_assoc, List.append_assoc]
          rfl
        . rw [List.drop_eq_nil_of_le (Nat.le_of_not_lt hlast), if_neg (by omega)]
          rfl
      . rw [if_neg hescape]
        obtain ⟨stop, hstop, hbyte, hscan⟩ := scanKeys_stringEnd serde raw (index + 1)
        have hle := le_stringEnd hstop
        refine ⟨stop, hstop, hbyte, ?_⟩
        intro body
        rw [drop_of_lt hlt, scanKeys, if_neg hquote, if_neg hescape, hscan, ← drop_of_lt hlt, take_of_lt hlt hle,
          List.reverse_cons, List.append_assoc]
        rfl
  . rw [if_neg hlt]
    refine ⟨index, rfl, fun h => absurd h hlt, ?_⟩
    intro body
    rw [List.drop_eq_nil_of_le (Nat.le_of_not_lt hlt), if_neg hlt]
    rfl
termination_by raw.length - index

theorem checkKey_other {literal after : List UInt8} (h : ∀ rest, after.dropWhile isAsciiWhitespace ≠ 58 :: rest)
    : checkKey serde literal after = .ok () := by
  unfold checkKey
  split
  . next rest hrest => exact absurd hrest (h rest)
  . rfl

theorem slice_literal {stop : Nat} (hstart : index < raw.length) (hquote : raw[index] = 34) (hle : index + 1 ≤ stop)
    (hlt : stop < raw.length) (hstop : raw[stop]? = some 34)
    : slice raw index (stop + 1) = some (34 :: ((raw.drop (index + 1)).take (stop - (index + 1)) ++ [34])) := by
  have hcount : stop - index = stop - (index + 1) + 1 := by omega
  have hlast : (raw.drop (index + 1))[stop - (index + 1)]? = some 34 := by
    rw [List.getElem?_drop, ← hstop]
    congr 1
    omega
  unfold slice
  rw [if_pos ⟨by omega, by omega⟩, take_of_lt hstart (by omega), hquote, Nat.add_sub_add_right, hcount,
    List.take_add_one, hlast]
  rfl

theorem scanFrom_eq (serde : SerdeJson) (raw : List UInt8) (index : Nat)
    : scanFrom serde raw index = some (scanKeys serde .outside (raw.drop index)) := by
  unfold scanFrom
  by_cases hlt : index < raw.length
  . rw [if_pos hlt, List.getElem?_eq_getElem hlt, drop_of_lt hlt, scanKeys]
    dsimp only
    by_cases hquote : raw[index] = 34
    . rw [if_neg (not_not.mpr hquote), if_pos hquote]
      obtain ⟨stop, hstop, hbyte, hscan⟩ := scanKeys_stringEnd serde raw (index + 1)
      obtain ⟨next, hnext, hle, hdrop⟩ := skipWhitespace_eq raw (stop + 1)
      have hafter := le_stringEnd hstop
      rw [hscan]
      split
      . next hend =>
        rw [hend] at hstop
        cases hstop
      . next other hend =>
        rw [hend] at hstop
        cases hstop
        rw [hnext]
        dsimp only
        rw [List.reverse_nil, List.nil_append]
        by_cases hend : next < raw.length
        . have hlast : stop < raw.length := by omega
          rw [if_neg (Nat.not_le_of_lt hend), List.getElem?_eq_getElem hend, if_pos hlast,
            slice_literal hlt hquote hafter hlast (hbyte hlast)]
          dsimp only
          rw [drop_of_lt hend] at hdrop
          by_cases hcolon : raw[next] = 58
          . rw [if_neg (not_not.mpr hcolon)]
            unfold checkKey
            rw [hdrop, hcolon]
            cases serde.text (34 :: ((raw.drop (index + 1)).take (stop - (index + 1)) ++ [34])) with
            | error reason => rfl
            | ok key =>
              dsimp only
              split
              . rfl
              . exact scanFrom_eq serde raw (stop + 1)
          . rw [if_pos hcolon, checkKey_other]
            . exact scanFrom_eq serde raw (stop + 1)
            . intro rest hrest
              rw [hdrop, List.cons.injEq] at hrest
              exact hcolon hrest.1
        . rw [if_pos (Nat.le_of_not_lt hend), scanFrom_eq serde raw (stop + 1)]
          by_cases hlast : stop < raw.length
          . rw [if_pos hlast, checkKey_other]
            . rfl
            . intro rest hrest
              rw [hdrop, List.drop_eq_nil_of_le (Nat.le_of_not_lt hend)] at hrest
              cases hrest
          . rw [if_neg hlast, List.drop_eq_nil_of_le (by omega)]
            rfl
    . rw [if_pos hquote, if_neg hquote]
      exact scanFrom_eq serde raw (index + 1)
  . rw [if_neg hlt, List.drop_eq_nil_of_le (Nat.le_of_not_lt hlt)]
    rfl
termination_by raw.length - index

def rejectReservedNumberKeysByIndex (serde : SerdeJson) (raw : List UInt8)
    : Option (Except CanonicalJsonError Unit) :=
  scanFrom serde raw 0

theorem byIndex_eq (serde : SerdeJson) (raw : List UInt8)
    : rejectReservedNumberKeysByIndex serde raw = some (rejectReservedNumberKeys serde raw) :=
  scanFrom_eq serde raw 0

-- What is assumed of `serde_json` on one string: it gives the text that is spelled there, where there is one.
structure LawfulText (serde : SerdeJson) : Prop where
  exact : ∀ body name, serde.text (34 :: (utf8 body ++ [34])) = .ok name ↔ Decodes body name

def Refused (body : String) : Prop := Decodes body serdeArbitraryPrecisionNumberKey ∨ ∀ name, ¬ Decodes body name

theorem checkName_ok_iff (hserde : LawfulText serde) (body : String)
    : checkName serde body = .ok () ↔ ¬ Refused body := by
  unfold checkName Refused
  cases htext : serde.text (34 :: (utf8 body ++ [34])) with
  | error reason =>
    apply iff_of_false nofun
    intro h
    apply h
    right
    intro name hname
    rw [(hserde.exact body name).mpr hname] at htext
    cases htext
  | ok key =>
    have hkey := (hserde.exact body key).mp htext
    have honly : ∀ name, Decodes body name → name = key := by
      intro name hname
      rw [(hserde.exact body name).mpr hname] at htext
      cases htext
      rfl
    dsimp only
    split
    . next hreserved =>
      apply iff_of_false nofun
      rw [not_not]
      left
      rw [← hreserved]
      exact hkey
    . next hother =>
      apply iff_of_true rfl
      rintro (hreserved | hnone)
      . exact hother (honly _ hreserved).symm
      . exact hnone key hkey

theorem mem_namesOf_iff {value : Value} {name : String}
    : name ∈ namesOf value.tokens ↔
        ∃ part ∈ value.values, ∃ members, part = .object members ∧ ∃ member ∈ members, member.1 = name := by
  rw [← not_iff_not, mem_namesOf]
  constructor
  . rintro h ⟨part, hpart, members, hobject, member, hmember, hname⟩
    exact h part hpart members hobject (List.mem_map.mpr ⟨member, hmember, hname⟩)
  . intro h part hpart members hobject hname
    obtain ⟨member, hmember, hname⟩ := List.mem_map.mp hname
    exact h ⟨part, hpart, members, hobject, member, hmember, hname⟩

theorem byIndex_error_iff (hserde : LawfulText serde) {value : Value} (h : Writes raw value)
    : (∃ error, rejectReservedNumberKeysByIndex serde raw = some (.error error)) ↔
        ∃ part ∈ value.values, ∃ members, part = .object members ∧ ∃ member ∈ members, Refused member.1 := by
  have hok := @scan_ok_iff serde raw value h
  have herror : (∃ error, rejectReservedNumberKeysByIndex serde raw = some (.error error)) ↔
      ¬ rejectReservedNumberKeys serde raw = .ok () := by
    rw [byIndex_eq]
    cases rejectReservedNumberKeys serde raw with
    | error error => simp
    | ok value => simp
  rw [herror, hok]
  constructor
  . intro h
    obtain ⟨body, hrest⟩ := not_forall.mp h
    obtain ⟨hbody, hbad⟩ := Classical.not_imp.mp hrest
    rw [checkName_ok_iff hserde, not_not] at hbad
    obtain ⟨part, hpart, members, hobject, member, hmember, rfl⟩ := mem_namesOf_iff.mp hbody
    exact ⟨part, hpart, members, hobject, member, hmember, hbad⟩
  . rintro ⟨part, hpart, members, hobject, member, hmember, hbad⟩ h
    have hbody := mem_namesOf_iff.mpr ⟨part, hpart, members, hobject, member, hmember, rfl⟩
    exact (checkName_ok_iff hserde member.1).mp (h _ hbody) hbad

theorem reserved_scan_exact (hserde : LawfulText serde) (raw : List UInt8)
    : rejectReservedNumberKeysByIndex serde raw ≠ none ∧
      ∀ value, Writes raw value →
        ((∃ error, rejectReservedNumberKeysByIndex serde raw = some (.error error)) ↔
          ∃ part ∈ value.values, ∃ members, part = .object members ∧ ∃ member ∈ members,
            Decodes member.1 serdeArbitraryPrecisionNumberKey ∨ ∀ name, ¬ Decodes member.1 name) := by
  constructor
  . rw [byIndex_eq]
    exact Option.some_ne_none _
  . intro value h
    exact byIndex_error_iff hserde h

theorem isLiteral_quoted {body name : String} : IsLiteral (34 :: (utf8 body ++ [34])) name ↔ Decodes body name := by
  have hquoted : ∀ chars : List Char, utf8 (String.ofList ('"' :: (chars ++ ['"'])))
      = 34 :: (utf8 (String.ofList chars) ++ [34]) := by
    intro chars
    rw [utf8_ofList_cons, utf8_ofList_append]
    rfl
  constructor
  . rintro ⟨chars, hraw, hliteral⟩
    rw [hquoted, List.cons.injEq, List.append_left_inj] at hraw
    unfold Decodes
    rw [utf8_inj hraw.2, String.toList_ofList]
    exact hliteral
  . intro h
    refine ⟨body.toList, ?_, h⟩
    rw [hquoted, String.ofList_toList]

theorem grammarSerde_text : LawfulText grammarSerde where
  exact := by
    intro body name
    rw [← isLiteral_quoted]
    unfold grammarSerde
    dsimp only
    split
    . next hexists =>
      constructor
      . intro h
        cases h
        exact hexists.choose_spec
      . intro h
        rw [IsLiteral.unique hexists.choose_spec h]
    . next hnone => exact iff_of_false nofun (fun h => hnone ⟨name, h⟩)

def unpairedKey : String := "\\ud800"

def unpairedText : List UInt8 := utf8 "\x7b\"\\ud800\":0\x7d"

def unpairedValue : Value := .object [(unpairedKey, .number "0")]

theorem writes_unpaired : Writes unpairedText unpairedValue := by
  refine ⟨['{', '"', '\\', 'u', 'd', '8', '0', '0', '"', ':', '0', '}'], rfl, ?_⟩
  have hbody : Body ['\\', 'u', 'd', '8', '0', '0'] := (Written.unit (by rfl)).body
  have hnumber : Spelled ['0'] (.number "0") := .other (.number (by unfold IsNumber; decide)) nofun
  have hmark : ∀ c, isMark c = true → Spelled [c] (.mark c) := fun c hc => .other (.mark hc) nofun
  have hclose : WrittenAs ['}'] [.mark '}'] := .token (hmark '}' rfl) trivial .nil
  have hvalue : WrittenAs ['0', '}'] [.number "0", .mark '}'] := by
    refine .token hnumber ?_ hclose
    intro c hc
    cases hc
    rfl
  have hcolon : WrittenAs [':', '0', '}'] [.mark ':', .number "0", .mark '}'] := .token (hmark ':' rfl) trivial hvalue
  exact .token (hmark '{' rfl) trivial (.token (.text hbody) trivial hcolon)

theorem not_decodes_unpaired (name : String) : ¬ Decodes unpairedKey name := by
  intro h
  unfold Decodes at h
  rw [show unpairedKey.toList = ['\\', 'u', 'd', '8', '0', '0'] from rfl] at h
  generalize hchars : ['\\', 'u', 'd', '8', '0', '0'] = chars at h
  generalize name.toList = cs at h
  cases h with
  | nil => cases hchars
  | cons first others =>
    cases first with
    | plain _ hescape _ =>
      cases hchars
      exact hescape rfl
    | short hmark =>
      cases hchars
      cases hmark
    | unit hunit hhigh _ =>
      cases hchars
      cases hunit
      cases hhigh
    | pair _ _ _ _ => cases hchars

-- The text is JSON and no key of it is the reserved one.
theorem unpaired_key_is_refused
    : ¬ ∀ raw value, Writes raw value →
        ((∃ error, rejectReservedNumberKeysByIndex grammarSerde raw = some (.error error)) ↔
          ∃ part ∈ value.values, ∃ members, part = .object members ∧ ∃ member ∈ members,
            Decodes member.1 serdeArbitraryPrecisionNumberKey) := by
  intro h
  have hself : unpairedValue ∈ unpairedValue.values := List.mem_cons_self
  have hrefused := (byIndex_error_iff grammarSerde_text writes_unpaired).mpr
    ⟨unpairedValue, hself, _, rfl, _, List.mem_singleton_self _, .inr not_decodes_unpaired⟩
  obtain ⟨part, hpart, members, hobject, member, hmember, hdecodes⟩ := (h _ _ writes_unpaired).mp hrefused
  have hparts : part ∈ [unpairedValue, .number "0"] := hpart
  rw [List.mem_cons, List.mem_singleton] at hparts
  obtain rfl | rfl := hparts
  . cases hobject
    rw [List.mem_singleton.mp hmember] at hdecodes
    exact not_decodes_unpaired _ hdecodes
  . cases hobject

theorem reserved_scan_exact_unpaired
    : ∃ error, rejectReservedNumberKeysByIndex grammarSerde unpairedText = some (.error error) := by
  have hself : unpairedValue ∈ unpairedValue.values := List.mem_cons_self
  exact ((reserved_scan_exact grammarSerde_text unpairedText).2 unpairedValue writes_unpaired).mpr
    ⟨unpairedValue, hself, _, rfl, _, List.mem_singleton_self _, .inr not_decodes_unpaired⟩

end CanonicalJson

end Pliego
