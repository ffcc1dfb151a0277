import Pliego.Log.CanonicalNumber

/-!
The machine words in which canonical numbers are computed. A step that would leave its word, which panics or wraps
around, is `none`.
-/

namespace Pliego

open Decimal

namespace CanonicalNumber

namespace Words

def add (bits a b : Nat) : Option Nat := if a + b < 2 ^ bits then some (a + b) else none

def sub (a b : Nat) : Option Nat := if b ≤ a then some (a - b) else none

def addSigned (bits : Nat) (a b : Int) : Option Int :=
  if -2 ^ (bits - 1) ≤ a + b ∧ a + b < 2 ^ (bits - 1) then some (a + b) else none

-- `as i64`
def asI64 (n : Nat) : Int := Int.bmod n (2 ^ 64)

def parseU64 (text : List Char) : Option Nat :=
  if text.isEmpty || !text.all Char.isDigit then none
  else if digitsValue text < 2 ^ 64 then some (digitsValue text)
  else none

def addDigits (digits : List Char) (carry : Nat) : Option (List Char × Nat) :=
  match digits with
  | [] => some ([], carry)
  | digit :: rest =>
    if carry = 0 then
      some (digit :: rest, 0)
    else do
      let value ← sub digit.toNat 48
      let sum ← add 64 value (carry % 10)
      let byte ← add 8 48 (sum % 10)
      let carry ← add 64 (carry / 10) (sum / 10)
      let added ← addDigits rest carry
      some (Char.ofNat byte :: added.1, added.2)

def addDecimalMagnitude (magnitude : List Char) (small : Nat) : Option (List Char) := do
  let added ← addDigits magnitude.reverse small
  some (((Nat.digits 10 added.2).map Nat.digitChar).reverse ++ added.1.reverse)

def subtractDigits (digits : List Char) (borrow : Nat) : Option (List Char × Nat) :=
  match digits with
  | [] => some ([], borrow)
  | digit :: rest =>
    if borrow = 0 then
      some (digit :: rest, 0)
    else do
      let subtrahend := borrow % 10
      let value ← sub digit.toNat 48
      if value < subtrahend then do
        let raised ← add 8 58 value
        let byte ← sub raised subtrahend
        let borrow ← add 64 (borrow / 10) 1
        let subtracted ← subtractDigits rest borrow
        some (Char.ofNat byte :: subtracted.1, subtracted.2)
      else do
        let raised ← add 8 48 value
        let byte ← sub raised subtrahend
        let subtracted ← subtractDigits rest (borrow / 10)
        some (Char.ofNat byte :: subtracted.1, subtracted.2)

-- The borrow that is left over is asserted to be none.
def subtractSmallFromDecimalMagnitude (magnitude : List Char) (small : Nat) : Option (List Char) := do
  let subtracted ← subtractDigits magnitude.reverse small
  if subtracted.2 ≠ 0 then
    none
  else do
    let bytes := subtracted.1.reverse
    let last ← sub bytes.length 1
    some (match bytes.dropWhile isZero with
      | [] => bytes.drop last
      | significant => significant)

def addSignedDecimal (negative : Bool) (magnitude : List Char) (adjustment : Int) : Option (Bool × List Char) :=
  if adjustment = 0 then
    some (negative, magnitude)
  else
    let adjustmentNegative := decide (adjustment < 0)
    let adjustmentMagnitude := adjustment.natAbs
    if negative = adjustmentNegative then do
      let added ← addDecimalMagnitude magnitude adjustmentMagnitude
      some (negative, added)
    else
      match compareDecimalMagnitudeToSmall magnitude adjustmentMagnitude with
      | .gt => do
        let subtracted ← subtractSmallFromDecimalMagnitude magnitude adjustmentMagnitude
        some (negative, subtracted)
      | .eq => some (false, ['0'])
      | .lt => do
        let parsed ← parseU64 magnitude
        let difference ← sub adjustmentMagnitude parsed
        some (adjustmentNegative, Nat.toDigits 10 difference)

def canonicalNumber (raw : List Char) : Option (Except CanonicalJsonError (List Char)) :=
  let negative := (splitSign raw).1
  let unsigned := (splitSign raw).2
  let mantissa := (splitOnce isExponentMark unsigned).1
  let explicitExponent := (splitOnce isExponentMark unsigned).2
  let integer := (splitOnce (· == '.') mantissa).1
  let fraction := (splitOnce (· == '.') mantissa).2.getD []
  if integer.isEmpty || !integer.all Char.isDigit || !fraction.all Char.isDigit then
    some (.error (.invalid "number has an invalid decimal significand"))
  else
    let digits := integer ++ fraction
    if digits.all isZero then
      some (.ok ['0'])
    else
      let trailingZeros := (digits.rtakeWhile isZero).length
      let significant := (digits.rdropWhile isZero).dropWhile isZero
      match parseDecimalExponent explicitExponent with
      | .error error => some (.error error)
      | .ok exponent => do
        let point ← addSigned 64 (-asI64 fraction.length) (asI64 trailingZeros)
        let last ← sub significant.length 1
        let adjustment ← addSigned 64 point (asI64 last)
        let scientific ← addSignedDecimal exponent.1 exponent.2 adjustment
        some (.ok ((if negative then ['-'] else []) ++ writeDecimal significant scientific.1 scientific.2))

section Arithmetic

variable {digits magnitude : List Char} {small : Nat} {negative : Bool}

theorem ofNat_digit : ∀ n < 10, Char.ofNat (48 + n) = n.digitChar := by
  decide

theorem toNat_digit {c : Char} (h : c.isDigit = true) : sub c.toNat 48 = some (digitOf c) := by
  have hrange : 48 ≤ c.toNat := (Char.isDigit_iff_toNat.mp h).1
  exact if_pos hrange

theorem add_eq {bits a b : Nat} (h : a + b < 2 ^ bits) : add bits a b = some (a + b) := if_pos h

theorem sub_eq {a b : Nat} (h : b ≤ a) : sub a b = some (a - b) := if_pos h

theorem addDigits_eq (hdigits : digits.all Char.isDigit = true) {carry : Nat} (hcarry : carry < 2 ^ 64)
    : addDigits digits carry = some (CanonicalNumber.addDigits digits carry) := by
  induction digits generalizing carry with
  | nil => rfl
  | cons digit rest ih =>
    rw [List.all_cons, Bool.and_eq_true] at hdigits
    have hdigit := digitOf_le hdigits.1
    have hmod : carry % 10 < 10 := Nat.mod_lt _ (by decide)
    have hsum : (digitOf digit + carry % 10) % 10 < 10 := Nat.mod_lt _ (by decide)
    unfold addDigits CanonicalNumber.addDigits
    split
    . rfl
    . simp only [Option.bind_eq_bind]
      rw [toNat_digit hdigits.1, Option.bind_some, add_eq (by omega), Option.bind_some, add_eq (by omega),
        Option.bind_some, add_eq (by omega), Option.bind_some, ih hdigits.2 (by omega), Option.bind_some,
        ofNat_digit _ hsum]

theorem addDecimalMagnitude_eq (hmagnitude : Plain magnitude) (hsmall : small < 2 ^ 64)
    : addDecimalMagnitude magnitude small = some (CanonicalNumber.addDecimalMagnitude magnitude small) := by
  have hall : magnitude.reverse.all Char.isDigit = true := by
    rw [List.all_reverse]
    exact hmagnitude.digits
  unfold addDecimalMagnitude
  rw [addDigits_eq hall hsmall]
  rfl

theorem subtractDigits_eq (hdigits : digits.all Char.isDigit = true) {borrow : Nat} (hborrow : borrow < 2 ^ 64)
    (hle : borrow ≤ digitsValue digits.reverse)
    : subtractDigits digits borrow = some (CanonicalNumber.subtractDigits digits borrow, 0) := by
  induction digits generalizing borrow with
  | nil =>
    rw [List.reverse_nil, digitsValue_nil, Nat.le_zero] at hle
    rw [hle]
    rfl
  | cons digit rest ih =>
    rw [List.all_cons, Bool.and_eq_true] at hdigits
    rw [digitsValue_reverse_cons] at hle
    have hdigit := digitOf_le hdigits.1
    have hmod : borrow % 10 < 10 := Nat.mod_lt _ (by decide)
    unfold subtractDigits CanonicalNumber.subtractDigits
    split
    . rfl
    . simp only [Option.bind_eq_bind]
      rw [toNat_digit hdigits.1, Option.bind_some]
      split
      . have hdifference : 10 + digitOf digit - borrow % 10 < 10 := by omega
        have hbyte : 58 + digitOf digit - borrow % 10 = 48 + (10 + digitOf digit - borrow % 10) := by omega
        rw [add_eq (by omega), Option.bind_some, sub_eq (by omega), Option.bind_some, add_eq (by omega),
          Option.bind_some, ih hdigits.2 (by omega) (by omega), Option.bind_some, hbyte, ofNat_digit _ hdifference]
      . have hdifference : digitOf digit - borrow % 10 < 10 := by omega
        have hbyte : 48 + digitOf digit - borrow % 10 = 48 + (digitOf digit - borrow % 10) := by omega
        rw [add_eq (by omega), Option.bind_some, sub_eq (by omega), Option.bind_some,
          ih hdigits.2 (by omega) (by omega), Option.bind_some, hbyte, ofNat_digit _ hdifference]

theorem subtractDigits_length {borrow : Nat}
    : (CanonicalNumber.subtractDigits digits borrow).length = digits.length := by
  induction digits generalizing borrow with
  | nil => rfl
  | cons digit rest ih =>
    unfold CanonicalNumber.subtractDigits
    split
    . rfl
    . dsimp only
      split
      . rw [List.length_cons, ih, List.length_cons]
      . rw [List.length_cons, ih, List.length_cons]

theorem subtractSmallFromDecimalMagnitude_eq (hmagnitude : Plain magnitude) (hsmall : small < 2 ^ 64)
    (hle : small ≤ digitsValue magnitude)
    : subtractSmallFromDecimalMagnitude magnitude small
      = some (CanonicalNumber.subtractSmallFromDecimalMagnitude magnitude small) := by
  have hall : magnitude.reverse.all Char.isDigit = true := by
    rw [List.all_reverse]
    exact hmagnitude.digits
  have hpos := List.length_pos_iff.mpr hmagnitude.ne_nil
  unfold subtractSmallFromDecimalMagnitude CanonicalNumber.subtractSmallFromDecimalMagnitude
  simp only [Option.bind_eq_bind]
  rw [subtractDigits_eq hall hsmall (by rw [List.reverse_reverse]; exact hle), Option.bind_some,
    if_neg (fun h => h rfl)]
  dsimp only
  have hlast : 1 ≤ (CanonicalNumber.subtractDigits magnitude.reverse small).reverse.length := by
    rw [List.length_reverse, subtractDigits_length, List.length_reverse]
    exact hpos
  cases (CanonicalNumber.subtractDigits magnitude.reverse small).reverse.dropWhile isZero with
  | nil => simp only [sub_eq hlast, Option.bind_some]
  | cons c rest => simp only [sub_eq hlast, Option.bind_some]

theorem parseU64_eq (hmagnitude : Plain magnitude) (h : digitsValue magnitude < 2 ^ 64)
    : parseU64 magnitude = some (digitsValue magnitude) := by
  unfold parseU64
  rw [List.isEmpty_eq_false_iff.mpr hmagnitude.ne_nil, hmagnitude.digits, Bool.not_true, Bool.or_false,
    if_neg Bool.false_ne_true, if_pos h]

theorem addSignedDecimal_eq (hmagnitude : Plain magnitude) {adjustment : Int} (hlow : -2 ^ 63 ≤ adjustment)
    (hhigh : adjustment < 2 ^ 63)
    : addSignedDecimal negative magnitude adjustment
      = some (CanonicalNumber.addSignedDecimal negative magnitude adjustment) := by
  have hsmall : adjustment.natAbs < 2 ^ 64 := by omega
  unfold addSignedDecimal CanonicalNumber.addSignedDecimal
  split
  . rfl
  . dsimp only
    split
    . rw [addDecimalMagnitude_eq hmagnitude hsmall]
      rfl
    . rw [compareDecimalMagnitudeToSmall_spec hmagnitude]
      cases hcompare : compare (digitsValue magnitude) adjustment.natAbs with
      | gt =>
        rw [compare_gt_iff_gt] at hcompare
        dsimp only
        rw [subtractSmallFromDecimalMagnitude_eq hmagnitude hsmall (le_of_lt hcompare)]
        rfl
      | eq => rfl
      | lt =>
        rw [compare_lt_iff_lt] at hcompare
        simp only [Option.bind_eq_bind]
        rw [parseU64_eq hmagnitude (by omega), Option.bind_some, sub_eq (le_of_lt hcompare), Option.bind_some]

end Arithmetic

section Numbers

variable {raw : List Char}

theorem splitOnce_length {p : Char → Bool} {chars : List Char}
    : (splitOnce p chars).1.length + ((splitOnce p chars).2.getD []).length ≤ chars.length := by
  induction chars with
  | nil => exact Nat.le_refl _
  | cons c rest ih =>
    unfold splitOnce
    split
    . dsimp only
      rw [Option.getD_some, List.length_nil, List.length_cons]
      omega
    . dsimp only
      rw [List.length_cons, List.length_cons]
      omega

theorem read_length : (Numeral.read raw).digits.length + ((Numeral.read raw).exponent.getD []).length ≤ raw.length := by
  have hunsigned := @splitOnce_length isExponentMark (splitSign raw).2
  have hmantissa := @splitOnce_length (· == '.') (splitOnce isExponentMark (splitSign raw).2).1
  have hsign : (splitSign raw).2.length ≤ raw.length := by
    unfold splitSign
    split
    . exact Nat.le_succ _
    . exact Nat.le_refl _
  unfold Numeral.read Numeral.digits
  dsimp only
  rw [List.length_append]
  omega

theorem trim_length {digits : List Char}
    : (digits.rtakeWhile isZero).length ≤ digits.length
      ∧ ((digits.rdropWhile isZero).dropWhile isZero).length ≤ digits.length :=
  ⟨(List.rtakeWhile_suffix isZero digits).length_le,
    (List.dropWhile_suffix isZero).length_le.trans (List.rdropWhile_prefix isZero digits).length_le⟩

theorem asI64_eq {n : Nat} (h : n < 2 ^ 63) : asI64 n = n := by
  apply Int.bmod_eq_of_le
  . omega
  . omega

theorem addSigned_eq {bits : Nat} {a b : Int} (h : -2 ^ (bits - 1) ≤ a + b ∧ a + b < 2 ^ (bits - 1))
    : addSigned bits a b = some (a + b) := if_pos h

theorem read_digits (h : IsNumber raw) : (Numeral.read raw).digits.all Char.isDigit = true := by
  unfold Numeral.digits
  rw [List.all_append, h.integer.digits, Bool.true_and]
  cases hcase : (Numeral.read raw).fraction with
  | none => rfl
  | some digits => exact (h.fraction digits hcase).2

theorem fraction_length : ((Numeral.read raw).fraction.getD []).length ≤ (Numeral.read raw).digits.length := by
  unfold Numeral.digits
  rw [List.length_append]
  exact Nat.le_add_left _ _

theorem canonicalNumber_eq (h : IsNumber raw) (hlength : raw.length < 2 ^ 62)
    : canonicalNumber raw = some (Pliego.canonicalNumber raw) := by
  have hread := @read_length raw
  have hdigits := read_digits h
  have hfraction := @fraction_length raw
  obtain ⟨negative, magnitude, hparsed, hspells⟩ := parseDecimalExponent_spec h.exponent
  unfold Numeral.digits at hread hdigits hfraction
  unfold canonicalNumber Pliego.canonicalNumber
  dsimp only
  split
  . rfl
  . split
    . rfl
    . next hzeros =>
      obtain ⟨hleading, -, -⟩ := trim_spec hdigits (Bool.not_eq_true _ ▸ hzeros)
      have hpos := List.length_pos_iff.mpr hleading.ne_nil
      obtain ⟨hbehind, htrimmed⟩ :=
        @trim_length ((Numeral.read raw).integer ++ (Numeral.read raw).fraction.getD [])
      have hexponent : parseDecimalExponent (splitOnce isExponentMark (splitSign raw).2).2
          = .ok (negative, magnitude) := hparsed
      rw [hexponent]
      unfold Numeral.read at hread hfraction hpos hbehind htrimmed
      dsimp only at hread hfraction hpos hbehind htrimmed ⊢
      simp only [Option.bind_eq_bind]
      rw [asI64_eq (by omega), asI64_eq (by omega), addSigned_eq (by omega), Option.bind_some, sub_eq (by omega),
        Option.bind_some, asI64_eq (by omega), addSigned_eq (by omega), Option.bind_some,
        addSignedDecimal_eq hspells.plain (by omega) (by omega), Option.bind_some]
      rfl

theorem Spells.length_le {negative : Bool} {magnitude : List Char} {n : Int} (h : Spells negative magnitude n)
    {k : Nat} (hk : 0 < k) (hn : n.natAbs < 10 ^ k)
    : magnitude.length ≤ k := by
  have hvalue : digitsValue magnitude = n.natAbs := by
    have hsigned := h.value
    unfold signOf at hsigned
    split at hsigned <;> omega
  cases h.plain with
  | inl hzero =>
    rw [hzero, List.length_singleton]
    exact hk
  | inr hleading =>
    have hle := hleading.le_value
    rw [hvalue] at hle
    have hpow := (Nat.pow_lt_pow_iff_right (by decide)).mp (lt_of_le_of_lt hle hn)
    omega

theorem exponentValue_lt {raw : Option (List Char)}
    (h : ∀ exponent ∈ raw, (signed exponent).2 ≠ [] ∧ (signed exponent).2.all Char.isDigit = true)
    : (exponentValue raw).natAbs < 10 ^ (raw.getD []).length := by
  cases raw with
  | none => exact Nat.one_pos
  | some exponent =>
    have hlt := digitsValue_lt (h exponent rfl).2
    have hlength : (signed exponent).2.length ≤ exponent.length := by
      unfold signed
      split
      . exact Nat.le_succ _
      . exact Nat.le_succ _
      . exact Nat.le_refl _
    have hpow : 10 ^ (signed exponent).2.length ≤ 10 ^ exponent.length := Nat.pow_le_pow_right (by decide) hlength
    unfold exponentValue signOf
    rw [Option.getD_some]
    dsimp only
    split <;> omega

theorem writeDecimal_length {significant magnitude : List Char} {negative : Bool}
    : (writeDecimal significant negative magnitude).length ≤ significant.length + magnitude.length + 32 := by
  have hscientific : (writeScientific significant negative magnitude).length
      ≤ significant.length + magnitude.length + 32 := by
    unfold writeScientific
    rw [List.length_append, List.length_append, List.length_take, List.length_cons, List.length_cons]
    split
    . rw [List.length_cons, List.length_drop]
      omega
    . rw [List.length_nil]
      omega
  unfold writeDecimal
  split
  . next exponent _ =>
    split
    . next hrange =>
      dsimp only
      split
      . rw [List.length_append, List.length_replicate]
        omega
      . rw [List.length_append, List.length_cons, List.length_take, List.length_drop]
        omega
    . split
      . next hrange =>
        rw [List.length_cons, List.length_cons, List.length_append, List.length_replicate]
        omega
      . exact hscientific
  . exact hscientific

theorem canonicalNumber_length (h : IsNumber raw) (hlength : raw.length < 2 ^ 62) {text : List Char}
    (hok : Pliego.canonicalNumber raw = .ok text)
    : text.length ≤ 2 * raw.length + 64 := by
  have hread := @read_length raw
  have hdigits := read_digits h
  have hfraction := @fraction_length raw
  have hexponent := exponentValue_lt h.exponent
  obtain ⟨negative, magnitude, hparsed, hspells⟩ := parseDecimalExponent_spec h.exponent
  obtain ⟨hbehind, htrimmed⟩ := @trim_length (Numeral.read raw).digits
  unfold Pliego.canonicalNumber at hok
  dsimp only at hok
  split at hok
  . cases hok
  . split at hok
    . cases hok
      rw [List.length_singleton]
      omega
    . have hparsed' : parseDecimalExponent (splitOnce isExponentMark (splitSign raw).2).2
          = .ok (negative, magnitude) := hparsed
      rw [hparsed'] at hok
      cases hok
      have hadded := hspells.add (-(((Numeral.read raw).fraction.getD []).length : Int)
        + ((Numeral.read raw).digits.rtakeWhile isZero).length
        + ((((Numeral.read raw).digits.rdropWhile isZero).dropWhile isZero).length - 1 : Nat))
      have hpow : 10 ^ (((Numeral.read raw).exponent.getD []).length + 20)
          = 10 ^ ((Numeral.read raw).exponent.getD []).length * 100000000000000000000 := Nat.pow_add _ _ _
      have hone : 0 < 10 ^ ((Numeral.read raw).exponent.getD []).length := Nat.pow_pos (by decide)
      have hmagnitude := Spells.length_le hadded (k := ((Numeral.read raw).exponent.getD []).length + 20) (by omega)
        (by omega)
      rw [List.length_append]
      apply le_trans (Nat.add_le_add_left writeDecimal_length _)
      unfold Numeral.digits Numeral.read at hmagnitude htrimmed hread
      dsimp only at hmagnitude htrimmed hread ⊢
      split
      . rw [List.length_singleton]
        omega
      . rw [List.length_nil]
        omega

end Numbers

-- The canonical form of a number has its value and no other form, and a sum of exponents is the exact one, in words
-- that are never left.
theorem canonical_number_exact
    : (∀ raw, IsNumber raw → raw.length ≤ maxJsonBytes
        → ∃ text, canonicalNumber raw = some (.ok text) ∧ IsNumber text ∧ numberValue text = numberValue raw
          ∧ canonicalNumber text = some (.ok text)
          ∧ ∀ raw', IsNumber raw' → raw'.length ≤ maxJsonBytes → numberValue raw' = numberValue raw
            → canonicalNumber raw' = some (.ok text))
      ∧ ∀ negative magnitude n adjustment, Spells negative magnitude n → -2 ^ 63 ≤ adjustment → adjustment < 2 ^ 63
        → ∃ sum, addSignedDecimal negative magnitude adjustment = some sum ∧ Spells sum.1 sum.2 (n + adjustment) := by
  have hmax : maxJsonBytes = 262144 := rfl
  constructor
  . intro raw h hlength
    obtain ⟨text, hok, hnumber, hvalue⟩ := canonicalNumber_ok h
    have htext := canonicalNumber_length h (by omega) hok
    refine ⟨text, ?_, hnumber, hvalue, ?_, ?_⟩
    . rw [canonicalNumber_eq h (by omega), hok]
    . rw [canonicalNumber_eq hnumber (by omega), canonicalNumber_eq_of_value hnumber h hvalue, hok]
    . intro raw' h' hlength' hvalue'
      rw [canonicalNumber_eq h' (by omega), canonicalNumber_eq_of_value h' h hvalue', hok]
  . intro negative magnitude n adjustment h hlow hhigh
    exact ⟨_, addSignedDecimal_eq h.plain hlow hhigh, h.add adjustment⟩

theorem canonical_number_of_tenths
    : (∃ text, canonicalNumber ['-', '1', '0', '.', '5', '0', 'E', '2'] = some (.ok text) ∧ IsNumber text
        ∧ numberValue text = numberValue ['-', '1', '0', '.', '5', '0', 'E', '2']
        ∧ canonicalNumber text = some (.ok text))
      ∧ ∃ sum, addSignedDecimal true ['1', '0', '0', '0'] 1 = some sum ∧ Spells sum.1 sum.2 (-999) := by
  obtain ⟨text, hok, hnumber, hvalue, hfixed, -⟩ :=
    canonical_number_exact.1 ['-', '1', '0', '.', '5', '0', 'E', '2'] (by decide) (by decide)
  have hthousand : Spells true ['1', '0', '0', '0'] (-1000) := ⟨by decide, rfl, fun _ => by decide⟩
  exact ⟨⟨text, hok, hnumber, hvalue, hfixed⟩, canonical_number_exact.2 _ _ _ 1 hthousand (by decide) (by decide)⟩

end Words

end CanonicalNumber

end Pliego
