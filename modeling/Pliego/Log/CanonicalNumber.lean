import Pliego.Lib.Decimal
import Pliego.Log.Basic

/-!
The normal form of the numbers in canonical JSON, which is computed on the digits of the lexeme.
-/

namespace Pliego

open Decimal

namespace CanonicalNumber

def isZero (c : Char) : Bool := c == '0'

def parseDecimalExponent (raw : Option (List Char)) : Except CanonicalJsonError (Bool × List Char) :=
  match raw with
  | none => .ok (false, ['0'])
  | some raw =>
    let digits := (signed raw).2
    if digits.isEmpty || !digits.all Char.isDigit then
      .error (.invalid "number has an invalid decimal exponent")
    else
      let magnitude := digits.dropWhile isZero
      if magnitude.isEmpty then .ok (false, ['0']) else .ok ((signed raw).1, magnitude)

def addDigits (digits : List Char) (carry : Nat) : List Char × Nat :=
  match digits with
  | [] => ([], carry)
  | digit :: rest =>
    if carry = 0 then
      (digit :: rest, 0)
    else
      let sum := digitOf digit + carry % 10
      let added := addDigits rest (carry / 10 + sum / 10)
      (Nat.digitChar (sum % 10) :: added.1, added.2)

def addDecimalMagnitude (magnitude : List Char) (small : Nat) : List Char :=
  let added := addDigits magnitude.reverse small
  ((Nat.digits 10 added.2).map Nat.digitChar).reverse ++ added.1.reverse

def subtractDigits (digits : List Char) (borrow : Nat) : List Char :=
  match digits with
  | [] => []
  | digit :: rest =>
    if borrow = 0 then
      digit :: rest
    else
      let subtrahend := borrow % 10
      if digitOf digit < subtrahend then
        Nat.digitChar (10 + digitOf digit - subtrahend) :: subtractDigits rest (borrow / 10 + 1)
      else
        Nat.digitChar (digitOf digit - subtrahend) :: subtractDigits rest (borrow / 10)

def subtractSmallFromDecimalMagnitude (magnitude : List Char) (small : Nat) : List Char :=
  let bytes := (subtractDigits magnitude.reverse small).reverse
  match bytes.dropWhile isZero with
  | [] => bytes.drop (bytes.length - 1)
  | significant => significant

def compareDecimalMagnitudeToSmall (magnitude : List Char) (small : Nat) : Ordering :=
  let small := Nat.toDigits 10 small
  (compare magnitude.length small.length).then (compareOfLessAndEq magnitude small)

def addSignedDecimal (negative : Bool) (magnitude : List Char) (adjustment : Int) : Bool × List Char :=
  if adjustment = 0 then
    (negative, magnitude)
  else
    let adjustmentNegative := decide (adjustment < 0)
    let adjustmentMagnitude := adjustment.natAbs
    if negative = adjustmentNegative then
      (negative, addDecimalMagnitude magnitude adjustmentMagnitude)
    else
      match compareDecimalMagnitudeToSmall magnitude adjustmentMagnitude with
      | .gt => (negative, subtractSmallFromDecimalMagnitude magnitude adjustmentMagnitude)
      | .eq => (false, ['0'])
      | .lt => (adjustmentNegative, Nat.toDigits 10 (adjustmentMagnitude - digitsValue magnitude))

-- A magnitude that does not fit an `i32` is none.
def smallSignedDecimal (negative : Bool) (magnitude : List Char) : Option Int :=
  if digitsValue magnitude < 2 ^ 31 then some (signOf negative (digitsValue magnitude)) else none

def writeScientific (significant : List Char) (scientificNegative : Bool) (scientificMagnitude : List Char)
    : List Char :=
  significant.take 1 ++ (if 1 < significant.length then '.' :: significant.drop 1 else [])
    ++ 'e' :: (if scientificNegative then '-' else '+') :: scientificMagnitude

-- The `match small_exponent` at the end of `canonical_number`.
def writeDecimal (significant : List Char) (scientificNegative : Bool) (scientificMagnitude : List Char)
    : List Char :=
  match smallSignedDecimal scientificNegative scientificMagnitude with
  | some exponent =>
    if 0 ≤ exponent ∧ exponent ≤ 20 then
      let point := exponent.toNat + 1
      if significant.length ≤ point then
        significant ++ List.replicate (point - significant.length) '0'
      else
        significant.take point ++ '.' :: significant.drop point
    else if -6 ≤ exponent ∧ exponent ≤ -1 then
      '0' :: '.' :: (List.replicate (-exponent - 1).toNat '0' ++ significant)
    else
      writeScientific significant scientificNegative scientificMagnitude
  | none => writeScientific significant scientificNegative scientificMagnitude

section Arithmetic

variable {digits magnitude : List Char} {small : Nat} {negative : Bool}

theorem digitsValue_reverse_cons {c : Char}
    : digitsValue (c :: digits).reverse = 10 * digitsValue digits.reverse + digitOf c := by
  rw [List.reverse_cons, digitsValue_concat]

theorem digitOf_digitChar {n : Nat} (h : n < 10) : digitOf n.digitChar = n :=
  Nat.toNat_digitChar_sub_48_of_lt_ten h

theorem isDigit_digitChar {n : Nat} (h : n < 10) : n.digitChar.isDigit = true := by
  rw [Nat.isDigit_digitChar, decide_eq_true_eq]
  exact h

theorem addDigits_spec (hdigits : digits.all Char.isDigit = true) (carry : Nat)
    : (addDigits digits carry).1.length = digits.length
      ∧ (addDigits digits carry).1.all Char.isDigit = true
      ∧ digitsValue (addDigits digits carry).1.reverse + 10 ^ digits.length * (addDigits digits carry).2
        = digitsValue digits.reverse + carry := by
  induction digits generalizing carry with
  | nil => exact ⟨rfl, rfl, by unfold addDigits; simp⟩
  | cons digit rest ih =>
    unfold addDigits
    split
    . next hzero => exact ⟨rfl, hdigits, by rw [hzero, Nat.mul_zero]⟩
    . rw [List.all_cons, Bool.and_eq_true] at hdigits
      obtain ⟨hlength, hall, hvalue⟩ := ih hdigits.2 (carry / 10 + (digitOf digit + carry % 10) / 10)
      have hlt : (digitOf digit + carry % 10) % 10 < 10 := Nat.mod_lt _ (by decide)
      refine ⟨?_, ?_, ?_⟩
      . rw [List.length_cons, List.length_cons, hlength]
      . rw [List.all_cons, Bool.and_eq_true]
        exact ⟨isDigit_digitChar hlt, hall⟩
      . dsimp only
        rw [digitsValue_reverse_cons, digitsValue_reverse_cons, digitOf_digitChar hlt, List.length_cons,
          Nat.pow_succ, Nat.mul_right_comm]
        omega

theorem digits_eq_toDigits {n : Nat} (hpos : 0 < n)
    : ((Nat.digits 10 n).map Nat.digitChar).reverse = Nat.toDigits 10 n := by
  induction n using Nat.strongRecOn with
  | ind n ih =>
    rw [Nat.toDigits_eq_if (by decide)]
    split
    . next hlt =>
      rw [Nat.digits_of_lt 10 n (Nat.pos_iff_ne_zero.mp hpos) hlt]
      rfl
    . next hge =>
      rw [not_lt] at hge
      rw [Nat.digits_def' (by decide) hpos, List.map_cons, List.reverse_cons,
        ih (n / 10) (Nat.div_lt_self hpos (by decide)) (Nat.div_pos hge (by decide))]

theorem leading_of_value (hne : digits ≠ []) (hdigits : digits.all Char.isDigit = true)
    (h : 10 ^ (digits.length - 1) ≤ digitsValue digits)
    : Leading digits := by
  refine ⟨hne, ?_, hdigits⟩
  cases digits with
  | nil => exact absurd rfl hne
  | cons c rest =>
    intro hhead
    rw [List.head?_cons, Option.some.injEq] at hhead
    rw [List.all_cons, Bool.and_eq_true] at hdigits
    have hlt := digitsValue_lt hdigits.2
    have hzero : digitOf '0' = 0 := rfl
    rw [digitsValue_cons, hhead, hzero, Nat.mul_zero, Nat.zero_add, List.length_cons, Nat.add_sub_cancel] at h
    omega

theorem addDecimalMagnitude_spec (hmagnitude : Plain magnitude) (hsmall : 0 < small)
    : Leading (addDecimalMagnitude magnitude small)
      ∧ digitsValue (addDecimalMagnitude magnitude small) = digitsValue magnitude + small := by
  have hall : magnitude.reverse.all Char.isDigit = true := by
    rw [List.all_reverse]
    exact hmagnitude.digits
  obtain ⟨hlength, hdigits, hvalue⟩ := addDigits_spec hall small
  rw [List.reverse_reverse, List.length_reverse] at hvalue
  rw [List.length_reverse] at hlength
  unfold addDecimalMagnitude
  dsimp only
  cases Nat.eq_zero_or_pos (addDigits magnitude.reverse small).2 with
  | inl hzero =>
    rw [hzero, Nat.mul_zero, Nat.add_zero] at hvalue
    rw [hzero, Nat.digits_zero, List.map_nil, List.reverse_nil, List.nil_append]
    refine ⟨leading_of_value ?_ ?_ ?_, hvalue⟩
    . rw [ne_eq, List.reverse_eq_nil_iff, ← List.length_eq_zero_iff, hlength, List.length_eq_zero_iff]
      exact hmagnitude.ne_nil
    . rw [List.all_reverse]
      exact hdigits
    . rw [hvalue, List.length_reverse, hlength]
      exact hmagnitude.value_add hsmall
  | inr hpos =>
    rw [digits_eq_toDigits hpos]
    constructor
    . apply (leading_toDigits hpos).append
      rw [List.all_reverse]
      exact hdigits
    . rw [digitsValue_append, digitsValue_toDigits, List.length_reverse, hlength, Nat.add_comm, hvalue]

theorem subtractDigits_spec (hdigits : digits.all Char.isDigit = true) {borrow : Nat}
    (hle : borrow ≤ digitsValue digits.reverse)
    : (subtractDigits digits borrow).all Char.isDigit = true
      ∧ digitsValue (subtractDigits digits borrow).reverse + borrow = digitsValue digits.reverse := by
  induction digits generalizing borrow with
  | nil =>
    rw [List.reverse_nil, digitsValue_nil, Nat.le_zero] at hle
    rw [hle]
    exact ⟨rfl, rfl⟩
  | cons digit rest ih =>
    unfold subtractDigits
    split
    . next hzero => exact ⟨hdigits, by rw [hzero, Nat.add_zero]⟩
    . rw [List.all_cons, Bool.and_eq_true] at hdigits
      rw [digitsValue_reverse_cons] at hle
      have hdigit := digitOf_le hdigits.1
      have hmod : borrow % 10 < 10 := Nat.mod_lt _ (by decide)
      dsimp only
      split
      . next hlt =>
        obtain ⟨hall, hvalue⟩ := @ih hdigits.2 (borrow / 10 + 1) (by omega)
        have hdifference : 10 + digitOf digit - borrow % 10 < 10 := by omega
        rw [List.all_cons, Bool.and_eq_true, digitsValue_reverse_cons, digitsValue_reverse_cons,
          digitOf_digitChar hdifference]
        exact ⟨⟨isDigit_digitChar hdifference, hall⟩, by omega⟩
      . next hge =>
        obtain ⟨hall, hvalue⟩ := @ih hdigits.2 (borrow / 10) (by omega)
        have hdifference : digitOf digit - borrow % 10 < 10 := by omega
        rw [List.all_cons, Bool.and_eq_true, digitsValue_reverse_cons, digitsValue_reverse_cons,
          digitOf_digitChar hdifference]
        exact ⟨⟨isDigit_digitChar hdifference, hall⟩, by omega⟩

theorem dropZeros_spec (hdigits : digits.all Char.isDigit = true)
    : digitsValue (digits.dropWhile isZero) = digitsValue digits
      ∧ (digits.dropWhile isZero ≠ [] → Leading (digits.dropWhile isZero)) := by
  induction digits with
  | nil => exact ⟨rfl, fun h => absurd rfl h⟩
  | cons c rest ih =>
    have hrest := hdigits
    rw [List.all_cons, Bool.and_eq_true] at hrest
    rw [List.dropWhile_cons]
    split
    . next hzero =>
      obtain ⟨hvalue, hleading⟩ := ih hrest.2
      refine ⟨?_, hleading⟩
      have hdigit : digitOf c = 0 := by
        rw [digitOf_eq_zero hrest.1]
        exact beq_iff_eq.mp hzero
      rw [hvalue, digitsValue_cons, hdigit, Nat.mul_zero, Nat.zero_add]
    . next hzero =>
      refine ⟨rfl, fun hne => ⟨hne, ?_, hdigits⟩⟩
      intro hhead
      rw [List.head?_cons, Option.some.injEq] at hhead
      exact hzero (beq_iff_eq.mpr hhead)

theorem subtractSmallFromDecimalMagnitude_spec (hmagnitude : Plain magnitude) (hlt : small < digitsValue magnitude)
    : Leading (subtractSmallFromDecimalMagnitude magnitude small)
      ∧ digitsValue (subtractSmallFromDecimalMagnitude magnitude small) + small = digitsValue magnitude := by
  have hall : magnitude.reverse.all Char.isDigit = true := by
    rw [List.all_reverse]
    exact hmagnitude.digits
  have hle : small ≤ digitsValue magnitude.reverse.reverse := by
    rw [List.reverse_reverse]
    exact le_of_lt hlt
  obtain ⟨hdigits, hvalue⟩ := subtractDigits_spec hall hle
  rw [List.reverse_reverse] at hvalue
  rw [← List.all_reverse] at hdigits
  obtain ⟨hsame, hleading⟩ := dropZeros_spec hdigits
  unfold subtractSmallFromDecimalMagnitude
  dsimp only
  split
  . next hnil =>
    rw [hnil, digitsValue_nil] at hsame
    omega
  . next significant hne =>
    rw [hsame]
    exact ⟨hleading hne, hvalue⟩

theorem digitsValue_lt_iff {xs ys : List Char} (hx : xs.all Char.isDigit = true) (hy : ys.all Char.isDigit = true)
    (hlen : xs.length = ys.length)
    : xs < ys ↔ digitsValue xs < digitsValue ys := by
  induction xs generalizing ys with
  | nil =>
    rw [List.length_eq_zero_iff.mp hlen.symm]
    simp
  | cons c xs ih =>
    cases ys with
    | nil => cases hlen
    | cons d ys =>
      rw [List.all_cons, Bool.and_eq_true] at hx hy
      rw [List.length_cons, List.length_cons, Nat.succ_inj] at hlen
      rw [List.cons_lt_cons_iff, ih hx.2 hy.2 hlen, digitsValue_cons, digitsValue_cons, hlen]
      have hltx := digitsValue_lt hx.2
      have hlty := digitsValue_lt hy.2
      rw [hlen] at hltx
      have hchar : c < d ↔ digitOf c < digitOf d := by
        have hc := Char.isDigit_iff_toNat.mp hx.1
        have hd := Char.isDigit_iff_toNat.mp hy.1
        have hzero : '0'.toNat = 48 := rfl
        unfold digitOf
        rw [Char.lt_def, UInt32.lt_iff_toNat_lt]
        have htoNat : ∀ e : Char, e.val.toNat = e.toNat := fun _ => rfl
        rw [htoNat, htoNat]
        omega
      rw [hchar]
      constructor
      . intro h
        cases h with
        | inl h =>
          have hmul : 10 ^ ys.length * (digitOf c + 1) ≤ 10 ^ ys.length * digitOf d := Nat.mul_le_mul_left _ h
          rw [Nat.mul_succ] at hmul
          omega
        | inr h =>
          rw [h.1]
          omega
      . intro h
        cases Nat.lt_trichotomy (digitOf c) (digitOf d) with
        | inl hlt => exact .inl hlt
        | inr hge =>
          cases hge with
          | inl heq =>
            rw [heq] at h
            exact .inr ⟨digitOf_inj hx.1 hy.1 heq, by omega⟩
          | inr hgt =>
            have hmul : 10 ^ ys.length * (digitOf d + 1) ≤ 10 ^ ys.length * digitOf c := Nat.mul_le_mul_left _ hgt
            rw [Nat.mul_succ] at hmul
            omega

theorem Plain.length_lt {xs ys : List Char} (hx : Plain xs) (hy : Plain ys) (h : xs.length < ys.length)
    : digitsValue xs < digitsValue ys := by
  have hlow := digitsValue_lt hx.digits
  cases hy with
  | inl hy =>
    have hpos := List.length_pos_iff.mpr hx.ne_nil
    rw [hy, List.length_singleton] at h
    omega
  | inr hy =>
    have hhigh := hy.le_value
    have hpow : 10 ^ xs.length ≤ 10 ^ (ys.length - 1) := Nat.pow_le_pow_right (by decide) (by omega)
    omega

theorem compareDecimalMagnitudeToSmall_spec (hmagnitude : Plain magnitude)
    : compareDecimalMagnitudeToSmall magnitude small = compare (digitsValue magnitude) small := by
  have hsmall := plain_toDigits small
  have hvalue := digitsValue_toDigits small
  unfold compareDecimalMagnitudeToSmall
  dsimp only
  generalize Nat.toDigits 10 small = text at hsmall hvalue ⊢
  rw [← hvalue]
  cases Nat.lt_trichotomy magnitude.length text.length with
  | inl hlt =>
    rw [compare_lt_iff_lt.mpr hlt, compare_lt_iff_lt.mpr (Plain.length_lt hmagnitude hsmall hlt)]
    rfl
  | inr hge =>
    cases hge with
    | inl heq =>
      rw [compare_eq_iff_eq.mpr heq]
      have hiff := digitsValue_lt_iff hmagnitude.digits hsmall.digits heq
      unfold compareOfLessAndEq Ordering.then
      dsimp only
      split
      . next hlt => exact (compare_lt_iff_lt.mpr (hiff.mp hlt)).symm
      . next hge =>
        rw [hiff, not_lt] at hge
        split
        . next hsame =>
          rw [hsame]
          exact (compare_eq_iff_eq.mpr rfl).symm
        . next hne =>
          apply (compare_gt_iff_gt.mpr _).symm
          apply lt_of_le_of_ne hge
          exact fun hvalues => hne (hmagnitude.inj hsmall hvalues.symm)
    | inr hgt =>
      rw [compare_gt_iff_gt.mpr hgt, compare_gt_iff_gt.mpr (Plain.length_lt hsmall hmagnitude hgt)]
      rfl

-- A sign and a magnitude that spell an integer, without a sign for zero.
structure Spells (negative : Bool) (magnitude : List Char) (n : Int) : Prop where
  plain : Plain magnitude
  value : signOf negative (digitsValue magnitude) = n
  sign : negative = true → digitsValue magnitude ≠ 0

variable {n adjustment : Int}

theorem spells_zero : Spells false ['0'] 0 :=
  ⟨.inl rfl, rfl, fun h => absurd h Bool.false_ne_true⟩

theorem Spells.add (h : Spells negative magnitude n) (adjustment : Int)
    : Spells (addSignedDecimal negative magnitude adjustment).1
        (addSignedDecimal negative magnitude adjustment).2 (n + adjustment) := by
  obtain ⟨hplain, hvalue, hsign⟩ := h
  unfold addSignedDecimal
  split
  . next hzero =>
    rw [hzero, Int.add_zero]
    exact ⟨hplain, hvalue, hsign⟩
  . next hne =>
    have hpos : 0 < adjustment.natAbs := Int.natAbs_pos.mpr hne
    dsimp only
    split
    . next hsame =>
      obtain ⟨hleading, hsum⟩ := addDecimalMagnitude_spec hplain hpos
      refine ⟨.inr hleading, ?_, fun _ => ?_⟩
      . unfold signOf at hvalue ⊢
        dsimp only
        rw [hsum]
        cases negative with
        | false =>
          have hge := of_decide_eq_false hsame.symm
          rw [if_neg Bool.false_ne_true] at hvalue ⊢
          omega
        | true =>
          have hlt := of_decide_eq_true hsame.symm
          rw [if_pos rfl] at hvalue ⊢
          omega
      . dsimp only
        omega
    . next hother =>
      rw [compareDecimalMagnitudeToSmall_spec hplain]
      -- the signs differ, so the adjustment is taken off the magnitude or the other way round
      have hopposite : decide (adjustment < 0) = !negative := by
        rw [Bool.eq_not_iff]
        exact Ne.symm hother
      rw [hopposite]
      have hsum : n + adjustment = if negative then (adjustment.natAbs : Int) - digitsValue magnitude
          else (digitsValue magnitude : Int) - adjustment.natAbs := by
        unfold signOf at hvalue
        cases negative with
        | false =>
          have hlt := of_decide_eq_true hopposite
          rw [if_neg Bool.false_ne_true] at hvalue ⊢
          omega
        | true =>
          have hge := of_decide_eq_false hopposite
          rw [if_pos rfl] at hvalue ⊢
          omega
      split
      . next hcompare =>
        rw [compare_gt_iff_gt] at hcompare
        obtain ⟨hleading, hdifference⟩ := subtractSmallFromDecimalMagnitude_spec hplain hcompare
        refine ⟨.inr hleading, ?_, fun _ => Nat.pos_iff_ne_zero.mp hleading.value_pos⟩
        rw [hsum]
        unfold signOf
        dsimp only
        cases negative with
        | false =>
          rw [if_neg Bool.false_ne_true, if_neg Bool.false_ne_true]
          omega
        | true =>
          rw [if_pos rfl, if_pos rfl]
          omega
      . next hcompare =>
        rw [compare_eq_iff_eq] at hcompare
        have hzero : n + adjustment = 0 := by
          rw [hsum, hcompare]
          split <;> omega
        rw [hzero]
        exact spells_zero
      . next hcompare =>
        rw [compare_lt_iff_lt] at hcompare
        have hpositive : 0 < adjustment.natAbs - digitsValue magnitude := by omega
        refine ⟨plain_toDigits _, ?_, fun _ => ?_⟩
        . rw [hsum]
          unfold signOf
          dsimp only
          rw [digitsValue_toDigits]
          cases negative with
          | false =>
            rw [Bool.not_false, if_pos rfl, if_neg Bool.false_ne_true]
            omega
          | true =>
            rw [Bool.not_true, if_neg Bool.false_ne_true, if_pos rfl]
            omega
        . rw [digitsValue_toDigits]
          exact Nat.pos_iff_ne_zero.mp hpositive

theorem Spells.unique {negative' : Bool} {magnitude' : List Char} (h : Spells negative magnitude n)
    (h' : Spells negative' magnitude' n)
    : negative = negative' ∧ magnitude = magnitude' := by
  obtain ⟨hplain, hvalue, hsign⟩ := h
  obtain ⟨hplain', hvalue', hsign'⟩ := h'
  unfold signOf at hvalue hvalue'
  have hnegative : negative = negative' := by
    cases negative <;> cases negative'
    . rfl
    . have hne := hsign' rfl
      simp only [Bool.false_eq_true, if_false, if_true] at hvalue hvalue'
      omega
    . have hne := hsign rfl
      simp only [Bool.false_eq_true, if_false, if_true] at hvalue hvalue'
      omega
    . rfl
  subst hnegative
  refine ⟨rfl, hplain.inj hplain' ?_⟩
  split at hvalue <;> split at hvalue' <;> omega

theorem parseDecimalExponent_spec {raw : Option (List Char)}
    (h : ∀ exponent ∈ raw, (signed exponent).2 ≠ [] ∧ (signed exponent).2.all Char.isDigit = true)
    : ∃ negative magnitude, parseDecimalExponent raw = .ok (negative, magnitude)
        ∧ Spells negative magnitude (exponentValue raw) := by
  unfold parseDecimalExponent exponentValue
  cases raw with
  | none => exact ⟨false, ['0'], rfl, spells_zero⟩
  | some raw =>
    obtain ⟨hne, hdigits⟩ := h raw rfl
    obtain ⟨hvalue, hleading⟩ := dropZeros_spec hdigits
    dsimp only
    rw [List.isEmpty_eq_false_iff.mpr hne, hdigits, Bool.false_or, Bool.not_true, if_neg Bool.false_ne_true]
    cases hmagnitude : (signed raw).2.dropWhile isZero with
    | nil =>
      rw [hmagnitude, digitsValue_nil] at hvalue
      rw [← hvalue]
      refine ⟨false, ['0'], rfl, ?_⟩
      unfold signOf
      cases (signed raw).1 <;> exact spells_zero
    | cons c rest =>
      rw [hmagnitude] at hleading hvalue
      have hleads := hleading (List.cons_ne_nil c rest)
      refine ⟨(signed raw).1, c :: rest, rfl, .inr hleads, ?_, fun _ => ?_⟩
      . rw [hvalue]
      . exact Nat.pos_iff_ne_zero.mp hleads.value_pos

end Arithmetic

section Output

variable {significant magnitude : List Char} {negative scientificNegative : Bool} {exponent : Int}

theorem signOf_mul (negative : Bool) (a b : Nat) : signOf negative (a * b) = a * signOf negative b := by
  unfold signOf
  cases negative <;> simp

theorem value_of_shift {numeral : Numeral} {shift : Nat} (hnegative : numeral.negative = negative)
    (hdigits : digitsValue numeral.digits = 10 ^ shift * digitsValue significant)
    (hpower : numeral.power + shift = exponent - (significant.length - 1 : Nat))
    : numeral.value = (Scientific.mk negative significant exponent).value := by
  unfold Numeral.value Scientific.value
  dsimp only
  rw [hnegative, hdigits, signOf_mul, ← hpower, zpow_add₀ (by norm_num), zpow_natCast]
  push_cast
  ring

def Writes (significant : List Char) (exponent : Int) (text : List Char) : Prop :=
  ∃ integer fraction mark, text = spell integer fraction mark
    ∧ ∀ negative, (Numeral.mk negative integer fraction mark).Valid
      ∧ (Numeral.mk negative integer fraction mark).value = (Scientific.mk negative significant exponent).value

theorem writeScientific_writes (hleading : Leading significant)
    (hspells : Spells scientificNegative magnitude exponent)
    : Writes significant exponent (writeScientific significant scientificNegative magnitude) := by
  have hpos := List.length_pos_iff.mpr hleading.ne_nil
  have hsigned : signed ((if scientificNegative then '-' else '+') :: magnitude) = (scientificNegative, magnitude) := by
    cases scientificNegative <;> rfl
  have hmark : ∀ mark ∈ some ((if scientificNegative then '-' else '+') :: magnitude),
      (signed mark).2 ≠ [] ∧ (signed mark).2.all Char.isDigit = true := by
    intro mark hmark
    cases hmark
    rw [hsigned]
    exact ⟨hspells.plain.ne_nil, hspells.plain.digits⟩
  have hvalue : exponentValue (some ((if scientificNegative then '-' else '+') :: magnitude)) = exponent := by
    unfold exponentValue
    dsimp only
    rw [hsigned]
    exact hspells.value
  unfold writeScientific
  split
  . next hlong =>
    refine ⟨significant.take 1, some (significant.drop 1), some _, List.append_assoc _ _ _, fun negative => ⟨⟨?_, ?_, hmark⟩, ?_⟩⟩
    . exact .inr (hleading.take Nat.one_pos)
    . intro digits hdigits
      cases hdigits
      refine ⟨?_, all_drop hleading.digits 1⟩
      rw [ne_eq, List.drop_eq_nil_iff]
      omega
    . apply @value_of_shift _ _ _ _ 0 rfl
      . unfold Numeral.digits
        dsimp only
        rw [Option.getD_some, List.take_append_drop, Nat.pow_zero, Nat.one_mul]
      . unfold Numeral.power
        dsimp only
        rw [hvalue, Option.getD_some, List.length_drop]
        omega
  . next hshort =>
    refine ⟨significant.take 1, none, some _, List.append_assoc _ _ _, fun negative => ⟨⟨?_, ?_, hmark⟩, ?_⟩⟩
    . exact .inr (hleading.take Nat.one_pos)
    . intro digits hdigits
      cases hdigits
    . apply @value_of_shift _ _ _ _ 0 rfl
      . unfold Numeral.digits
        dsimp only
        rw [Option.getD_none, List.append_nil, List.take_of_length_le (by omega), Nat.pow_zero, Nat.one_mul]
      . unfold Numeral.power
        dsimp only
        rw [hvalue, Option.getD_none, List.length_nil]
        omega

theorem writeDecimal_writes (hleading : Leading significant)
    (hspells : Spells scientificNegative magnitude exponent)
    : Writes significant exponent (writeDecimal significant scientificNegative magnitude) := by
  have hpos := List.length_pos_iff.mpr hleading.ne_nil
  have hscientific := writeScientific_writes hleading hspells
  unfold writeDecimal
  split
  . next small hsmall =>
    have hsame : small = exponent := by
      unfold smallSignedDecimal at hsmall
      split at hsmall
      . cases hsmall
        exact hspells.value
      . cases hsmall
    subst hsame
    split
    . next hrange =>
      dsimp only
      split
      . next hwhole =>
        refine ⟨_, none, none, (List.append_nil _).symm, fun negative => ⟨⟨?_, ?_, ?_⟩, ?_⟩⟩
        . exact .inr (hleading.append (all_zeros _))
        . intro digits hdigits
          cases hdigits
        . intro mark hmark
          cases hmark
        . apply @value_of_shift _ _ _ _ (small.toNat + 1 - significant.length) rfl
          . unfold Numeral.digits
            dsimp only
            rw [Option.getD_none, List.append_nil, digitsValue_append, digitsValue_zeros, List.length_replicate,
              Nat.add_zero]
          . unfold Numeral.power exponentValue
            dsimp only
            rw [Option.getD_none, List.length_nil]
            omega
      . next hpoint =>
        refine ⟨significant.take (small.toNat + 1), some (significant.drop (small.toNat + 1)), none, ?_,
          fun negative => ⟨⟨?_, ?_, ?_⟩, ?_⟩⟩
        . unfold spell
          rw [Option.elim_none, List.append_nil]
          rfl
        . exact .inr (hleading.take (Nat.succ_pos _))
        . intro digits hdigits
          cases hdigits
          refine ⟨?_, all_drop hleading.digits _⟩
          rw [ne_eq, List.drop_eq_nil_iff]
          omega
        . intro mark hmark
          cases hmark
        . apply @value_of_shift _ _ _ _ 0 rfl
          . unfold Numeral.digits
            dsimp only
            rw [Option.getD_some, List.take_append_drop, Nat.pow_zero, Nat.one_mul]
          . unfold Numeral.power exponentValue
            dsimp only
            rw [Option.getD_some, List.length_drop]
            omega
    . split
      . next hrange =>
        refine ⟨['0'], some (List.replicate (-small - 1).toNat '0' ++ significant), none, ?_,
          fun negative => ⟨⟨?_, ?_, ?_⟩, ?_⟩⟩
        . unfold spell
          rw [Option.elim_none, List.append_nil]
          rfl
        . exact .inl rfl
        . intro digits hdigits
          cases hdigits
          refine ⟨List.append_ne_nil_of_right_ne_nil _ hleading.ne_nil, ?_⟩
          rw [List.all_append, Bool.and_eq_true]
          exact ⟨all_zeros _, hleading.digits⟩
        . intro mark hmark
          cases hmark
        . apply @value_of_shift _ _ _ _ 0 rfl
          . unfold Numeral.digits
            dsimp only
            rw [Option.getD_some, List.singleton_append, digitsValue_cons, digitsValue_append, digitsValue_zeros,
              Nat.pow_zero, Nat.one_mul]
            have hzero : digitOf '0' = 0 := rfl
            rw [hzero, Nat.mul_zero, Nat.mul_zero, Nat.zero_add, Nat.zero_add]
          . unfold Numeral.power exponentValue
            dsimp only
            rw [Option.getD_some, List.length_append, List.length_replicate]
            omega
      . exact hscientific
  . exact hscientific

def Renders (form : Scientific) (text : List Char) : Prop :=
  ∃ scientificNegative magnitude, Spells scientificNegative magnitude form.exponent
    ∧ text = sign form.negative ++ writeDecimal form.significant scientificNegative magnitude

theorem Renders.unique {form : Scientific} {text text' : List Char} (h : Renders form text) (h' : Renders form text')
    : text = text' := by
  obtain ⟨scientificNegative, magnitude, hspells, rfl⟩ := h
  obtain ⟨scientificNegative', magnitude', hspells', rfl⟩ := h'
  obtain ⟨rfl, rfl⟩ := hspells.unique hspells'
  rfl

theorem Renders.number {form : Scientific} {text : List Char} (hform : form.Normal) (h : Renders form text)
    : IsNumber text ∧ numberValue text = form.value := by
  obtain ⟨scientificNegative, magnitude, hspells, rfl⟩ := h
  obtain ⟨integer, fraction, mark, htext, hparts⟩ := writeDecimal_writes hform.leading hspells
  obtain ⟨hvalid, hvalue⟩ := hparts form.negative
  have hread := @read_spell form.negative integer fraction mark hvalid.integer.ne_nil hvalid.integer.digits
    (fun digits hdigits => (hvalid.fraction digits hdigits).2)
  unfold IsNumber numberValue
  rw [htext, hread]
  exact ⟨hvalid, hvalue⟩

end Output

end CanonicalNumber

open CanonicalNumber

def canonicalNumber (raw : List Char) : Except CanonicalJsonError (List Char) :=
  let negative := (splitSign raw).1
  let unsigned := (splitSign raw).2
  let mantissa := (splitOnce isExponentMark unsigned).1
  let explicitExponent := (splitOnce isExponentMark unsigned).2
  let integer := (splitOnce (· == '.') mantissa).1
  let fraction := (splitOnce (· == '.') mantissa).2.getD []
  if integer.isEmpty || !integer.all Char.isDigit || !fraction.all Char.isDigit then
    .error (.invalid "number has an invalid decimal significand")
  else
    let digits := integer ++ fraction
    if digits.all isZero then
      .ok ['0']
    else
      let trailingZeros := (digits.rtakeWhile isZero).length
      let significant := (digits.rdropWhile isZero).dropWhile isZero
      (parseDecimalExponent explicitExponent).bind fun exponent =>
        let adjustment : Int := -(fraction.length : Int) + trailingZeros + (significant.length - 1 : Nat)
        let scientific := addSignedDecimal exponent.1 exponent.2 adjustment
        .ok ((if negative then ['-'] else []) ++ writeDecimal significant scientific.1 scientific.2)

section Canonical

variable {raw raw' : List Char} {digits : List Char}

theorem digitsValue_of_zeros (h : digits.all isZero = true) : digitsValue digits = 0 := by
  have hzeros : digits = List.replicate digits.length '0' := by
    rw [List.eq_replicate_iff]
    rw [List.all_eq_true] at h
    exact ⟨rfl, fun c hc => beq_iff_eq.mp (h c hc)⟩
  rw [hzeros, digitsValue_zeros]

theorem trim_spec (hdigits : digits.all Char.isDigit = true) (h : digits.all isZero = false)
    : Leading ((digits.rdropWhile isZero).dropWhile isZero)
      ∧ ((digits.rdropWhile isZero).dropWhile isZero).getLast? ≠ some '0'
      ∧ digitsValue digits = 10 ^ (digits.rtakeWhile isZero).length
          * digitsValue ((digits.rdropWhile isZero).dropWhile isZero) := by
  have hsplit : digits.rdropWhile isZero ++ digits.rtakeWhile isZero = digits :=
    List.rdropWhile_append_rtakeWhile
  have hfront : (digits.rdropWhile isZero).all Char.isDigit = true := by
    rw [← hsplit, List.all_append, Bool.and_eq_true] at hdigits
    exact hdigits.1
  have hback : (digits.rtakeWhile isZero).all isZero = true := by
    rw [List.all_eq_true]
    exact fun c hc => List.mem_rtakeWhile_imp hc
  obtain ⟨hvalue, hleading⟩ := dropZeros_spec hfront
  have hne : (digits.rdropWhile isZero).dropWhile isZero ≠ [] := by
    intro hnil
    rw [List.dropWhile_eq_nil_iff] at hnil
    have hall : digits.all isZero = true := by
      rw [← hsplit, List.all_append, Bool.and_eq_true, List.all_eq_true]
      exact ⟨hnil, hback⟩
    rw [h] at hall
    cases hall
  have hne' : digits.rdropWhile isZero ≠ [] := fun hnil => hne (by rw [hnil]; rfl)
  refine ⟨hleading hne, ?_, ?_⟩
  . rw [List.getLast?_eq_getLast_of_ne_nil hne, (List.dropWhile_suffix isZero).getLast hne]
    intro hlast
    rw [Option.some.injEq] at hlast
    exact List.rdropWhile_last_not _ _ hne' (beq_iff_eq.mpr hlast)
  . rw [hvalue]
    calc digitsValue digits
        = digitsValue (digits.rdropWhile isZero ++ digits.rtakeWhile isZero) := by rw [hsplit]
      _ = _ := by rw [digitsValue_append, digitsValue_of_zeros hback, Nat.add_zero]

theorem canonicalNumber_spec (h : IsNumber raw)
    : (numberValue raw = 0 ∧ canonicalNumber raw = .ok ['0'])
      ∨ ∃ form text, form.Normal ∧ form.value = numberValue raw ∧ Renders form text
        ∧ canonicalNumber raw = .ok text := by
  have hread : canonicalNumber raw =
      let numeral := Numeral.read raw
      if numeral.integer.isEmpty || !numeral.integer.all Char.isDigit
          || !(numeral.fraction.getD []).all Char.isDigit then
        .error (.invalid "number has an invalid decimal significand")
      else if numeral.digits.all isZero then
        .ok ['0']
      else
        let trailingZeros := (numeral.digits.rtakeWhile isZero).length
        let significant := (numeral.digits.rdropWhile isZero).dropWhile isZero
        (parseDecimalExponent numeral.exponent).bind fun exponent =>
          let adjustment : Int :=
            -((numeral.fraction.getD []).length : Int) + trailingZeros + (significant.length - 1 : Nat)
          let scientific := addSignedDecimal exponent.1 exponent.2 adjustment
          .ok (sign numeral.negative ++ writeDecimal significant scientific.1 scientific.2) := rfl
  unfold IsNumber at h
  unfold numberValue
  rw [hread]
  generalize Numeral.read raw = numeral at h ⊢
  have hfraction : (numeral.fraction.getD []).all Char.isDigit = true := by
    cases hcase : numeral.fraction with
    | none => rfl
    | some digits => exact (h.fraction digits hcase).2
  have hdigits : numeral.digits.all Char.isDigit = true := by
    unfold Numeral.digits
    rw [List.all_append, h.integer.digits, hfraction]
    rfl
  dsimp only
  rw [List.isEmpty_eq_false_iff.mpr h.integer.ne_nil, h.integer.digits, hfraction, Bool.not_true,
    Bool.or_false, Bool.or_false, if_neg Bool.false_ne_true]
  cases hzero : numeral.digits.all isZero with
  | true =>
    left
    refine ⟨?_, if_pos rfl⟩
    unfold Numeral.value
    rw [digitsValue_of_zeros hzero]
    unfold signOf
    cases numeral.negative <;> simp
  | false =>
    right
    obtain ⟨hleading, hlast, hvalue⟩ := trim_spec hdigits hzero
    obtain ⟨negative, magnitude, hparsed, hspells⟩ := parseDecimalExponent_spec h.exponent
    generalize (numeral.digits.rdropWhile isZero).dropWhile isZero = significant at hleading hlast hvalue ⊢
    generalize hshift : (numeral.digits.rtakeWhile isZero).length = shift at hvalue ⊢
    have hadded := hspells.add (-((numeral.fraction.getD []).length : Int) + shift + (significant.length - 1 : Nat))
    refine ⟨⟨numeral.negative, significant, _⟩, _, ⟨hleading, hlast⟩, ?_, ⟨_, _, hadded, rfl⟩, ?_⟩
    . apply Eq.symm
      apply value_of_shift rfl hvalue
      unfold Numeral.power
      omega
    . rw [if_neg Bool.false_ne_true, hparsed]
      rfl

theorem canonicalNumber_ok (h : IsNumber raw)
    : ∃ text, canonicalNumber raw = .ok text ∧ IsNumber text ∧ numberValue text = numberValue raw := by
  cases canonicalNumber_spec h with
  | inl hzero =>
    refine ⟨['0'], hzero.2, ?_, ?_⟩
    . refine ⟨.inl rfl, ?_, ?_⟩
      . intro digits hdigits
        cases hdigits
      . intro exponent hexponent
        cases hexponent
    . rw [hzero.1]
      unfold numberValue Numeral.value
      exact zero_mul _
  | inr hform =>
    obtain ⟨form, text, hnormal, hvalue, hrenders, hok⟩ := hform
    obtain ⟨hnumber, hsame⟩ := hrenders.number hnormal
    exact ⟨text, hok, hnumber, hsame.trans hvalue⟩

theorem canonicalNumber_eq_of_value (h : IsNumber raw) (h' : IsNumber raw') (hvalue : numberValue raw = numberValue raw')
    : canonicalNumber raw = canonicalNumber raw' := by
  cases canonicalNumber_spec h with
  | inl hzero =>
    cases canonicalNumber_spec h' with
    | inl hzero' => rw [hzero.2, hzero'.2]
    | inr hform =>
      obtain ⟨form, text, hnormal, hform, -, -⟩ := hform
      rw [← hvalue, hzero.1] at hform
      exact absurd hform hnormal.value_ne_zero
  | inr hform =>
    obtain ⟨form, text, hnormal, hform, hrenders, hok⟩ := hform
    cases canonicalNumber_spec h' with
    | inl hzero' =>
      rw [hvalue, hzero'.1] at hform
      exact absurd hform hnormal.value_ne_zero
    | inr hform' =>
      obtain ⟨form', text', hnormal', hform', hrenders', hok'⟩ := hform'
      have hsame : form = form' := hnormal.eq_of_value hnormal' (by rw [hform, hform', hvalue])
      subst hsame
      rw [hok, hok', hrenders.unique hrenders']

end Canonical

end Pliego
