import Mathlib

/-!
Decimal numerals as texts: strings of digits and their values, the numerals of JSON, and the scientific
form that is unique for every value but zero.
-/

namespace Decimal

def digitsValue (digits : List Char) : Nat := Nat.ofDigitChars 10 digits 0

def digitOf (c : Char) : Nat := c.toNat - '0'.toNat

section Digits

variable {xs ys : List Char} {c : Char}

@[simp]
theorem digitsValue_nil : digitsValue [] = 0 := rfl

theorem digitsValue_append : digitsValue (xs ++ ys) = 10 ^ ys.length * digitsValue xs + digitsValue ys := by
  unfold digitsValue
  rw [Nat.ofDigitChars_append, Nat.ofDigitChars_eq_ofDigitChars_zero]

theorem digitsValue_singleton : digitsValue [c] = digitOf c := by
  unfold digitsValue
  rw [Nat.ofDigitChars_cons, Nat.ofDigitChars_nil, Nat.mul_zero, Nat.zero_add]
  rfl

theorem digitsValue_cons : digitsValue (c :: xs) = 10 ^ xs.length * digitOf c + digitsValue xs := by
  rw [← List.singleton_append, digitsValue_append, digitsValue_singleton]

theorem digitsValue_concat : digitsValue (xs ++ [c]) = 10 * digitsValue xs + digitOf c := by
  rw [digitsValue_append, digitsValue_singleton, List.length_singleton, Nat.pow_one]

theorem digitsValue_zeros (n : Nat) : digitsValue (List.replicate n '0') = 0 := by
  unfold digitsValue
  rw [Nat.ofDigitChars_replicate_zero, Nat.mul_zero]

theorem digitOf_le (h : c.isDigit = true) : digitOf c ≤ 9 := by
  unfold digitOf
  have hrange := Char.isDigit_iff_toNat.mp h
  have hzero : '0'.toNat = 48 := rfl
  have hnine : '9'.toNat = 57 := rfl
  omega

theorem digitOf_inj {d : Char} (hc : c.isDigit = true) (hd : d.isDigit = true) (h : digitOf c = digitOf d)
    : c = d := by
  unfold digitOf at h
  have hrange := Char.isDigit_iff_toNat.mp hc
  have hrange' := Char.isDigit_iff_toNat.mp hd
  have hzero : '0'.toNat = 48 := rfl
  apply Char.toNat_inj.mp
  omega

theorem digitOf_eq_zero (hc : c.isDigit = true) : digitOf c = 0 ↔ c = '0' := by
  constructor
  . exact fun h => digitOf_inj hc (by decide) h
  . intro h
    rw [h]
    rfl

theorem digitsValue_lt (h : xs.all Char.isDigit = true) : digitsValue xs < 10 ^ xs.length := by
  induction xs with
  | nil => decide
  | cons c xs ih =>
    rw [List.all_cons, Bool.and_eq_true] at h
    have hrest := ih h.2
    have hdigit := digitOf_le h.1
    have hhead : 10 ^ xs.length * digitOf c ≤ 10 ^ xs.length * 9 := Nat.mul_le_mul_left _ hdigit
    rw [digitsValue_cons, List.length_cons, Nat.pow_succ]
    omega

theorem digitsValue_inj_of_length (hx : xs.all Char.isDigit = true) (hy : ys.all Char.isDigit = true)
    (hlen : xs.length = ys.length) (h : digitsValue xs = digitsValue ys)
    : xs = ys := by
  induction xs generalizing ys with
  | nil => exact (List.length_eq_zero_iff.mp hlen.symm).symm
  | cons c xs ih =>
    cases ys with
    | nil => cases hlen
    | cons d ys =>
      rw [List.all_cons, Bool.and_eq_true] at hx hy
      rw [List.length_cons, List.length_cons, Nat.succ_inj] at hlen
      rw [digitsValue_cons, digitsValue_cons, hlen] at h
      have hlt := digitsValue_lt hx.2
      have hlt' := digitsValue_lt hy.2
      rw [hlen] at hlt
      have hdigit : digitOf c = digitOf d := by
        rw [Nat.mul_comm, Nat.mul_comm _ (digitOf d)] at h
        have hquot := congrArg (· / 10 ^ ys.length) h
        have hpos : 0 < 10 ^ ys.length := Nat.pow_pos (by decide)
        rw [Nat.mul_comm, Nat.mul_add_div hpos, Nat.mul_comm, Nat.mul_add_div hpos,
          Nat.div_eq_of_lt hlt, Nat.div_eq_of_lt hlt'] at hquot
        exact hquot
      rw [hdigit] at h
      have hrest := ih hx.2 hy.2 hlen (Nat.add_left_cancel h)
      rw [digitOf_inj hx.1 hy.1 hdigit, hrest]

-- Digits without a leading zero.
structure Leading (digits : List Char) : Prop where
  ne_nil : digits ≠ []
  head : digits.head? ≠ some '0'
  digits : digits.all Char.isDigit = true

theorem Leading.le_value (h : Leading xs) : 10 ^ (xs.length - 1) ≤ digitsValue xs := by
  cases xs with
  | nil => exact absurd rfl h.ne_nil
  | cons c xs =>
    have hdigits := h.digits
    rw [List.all_cons, Bool.and_eq_true] at hdigits
    have hne : digitOf c ≠ 0 := by
      intro hzero
      rw [digitOf_eq_zero hdigits.1] at hzero
      exact h.head (congrArg some hzero)
    rw [digitsValue_cons, List.length_cons, Nat.add_sub_cancel]
    have hhead : 10 ^ xs.length * 1 ≤ 10 ^ xs.length * digitOf c :=
      Nat.mul_le_mul_left _ (Nat.one_le_iff_ne_zero.mpr hne)
    omega

theorem Leading.value_pos (h : Leading xs) : 0 < digitsValue xs :=
  lt_of_lt_of_le (Nat.pow_pos (by decide)) h.le_value

theorem Leading.length_le (h : Leading xs) (hy : ys.all Char.isDigit = true)
    (hle : digitsValue xs ≤ digitsValue ys)
    : xs.length ≤ ys.length := by
  have hlow := h.le_value
  have hhigh := digitsValue_lt hy
  have hpow : 10 ^ (xs.length - 1) < 10 ^ ys.length := by omega
  rw [Nat.pow_lt_pow_iff_right (by decide)] at hpow
  omega

theorem Leading.inj (hx : Leading xs) (hy : Leading ys) (h : digitsValue xs = digitsValue ys)
    : xs = ys := by
  apply digitsValue_inj_of_length hx.digits hy.digits _ h
  exact le_antisymm (hx.length_le hy.digits (le_of_eq h)) (hy.length_le hx.digits (le_of_eq h.symm))

def Plain (digits : List Char) : Prop := digits = ['0'] ∨ Leading digits

theorem Plain.inj (hx : Plain xs) (hy : Plain ys) (h : digitsValue xs = digitsValue ys)
    : xs = ys := by
  have hzero : digitsValue ['0'] = 0 := rfl
  cases hx with
  | inl hx =>
    subst hx
    cases hy with
    | inl hy => exact hy.symm
    | inr hy =>
      have hpos := hy.value_pos
      omega
  | inr hx =>
    cases hy with
    | inl hy =>
      subst hy
      have hpos := hx.value_pos
      omega
    | inr hy => exact hx.inj hy h

theorem Plain.digits (h : Plain xs) : xs.all Char.isDigit = true := by
  cases h with
  | inl h =>
    rw [h]
    decide
  | inr h => exact h.digits

theorem Plain.ne_nil (h : Plain xs) : xs ≠ [] := by
  cases h with
  | inl h =>
    rw [h]
    exact List.cons_ne_nil _ _
  | inr h => exact h.ne_nil

theorem Leading.append (h : Leading xs) (hy : ys.all Char.isDigit = true) : Leading (xs ++ ys) := by
  constructor
  . exact List.append_ne_nil_of_left_ne_nil h.ne_nil _
  . rw [List.head?_append_of_ne_nil _ h.ne_nil]
    exact h.head
  . rw [List.all_append, Bool.and_eq_true]
    exact ⟨h.digits, hy⟩

theorem leading_toDigits {n : Nat} (hpos : 0 < n) : Leading (Nat.toDigits 10 n) := by
  induction n using Nat.strongRecOn with
  | ind n ih =>
    rw [Nat.toDigits_eq_if (by decide)]
    split
    . next hlt =>
      have hdigit : n.digitChar.isDigit = true := by
        rw [Nat.isDigit_digitChar, decide_eq_true_eq]
        exact hlt
      constructor
      . exact List.cons_ne_nil _ _
      . intro hhead
        have hvalue := Nat.toNat_digitChar_of_lt_ten hlt
        rw [List.head?_cons, Option.some.injEq] at hhead
        rw [hhead] at hvalue
        have hzero : '0'.toNat = 48 := rfl
        omega
      . rw [List.all_cons, hdigit]
        rfl
    . next hge =>
      rw [not_lt] at hge
      apply (ih (n / 10) (Nat.div_lt_self hpos (by decide)) (Nat.div_pos hge (by decide))).append
      rw [List.all_cons, List.all_nil, Bool.and_true, Nat.isDigit_digitChar, decide_eq_true_eq]
      exact Nat.mod_lt n (by decide)

theorem Leading.take (h : Leading xs) {n : Nat} (hn : 0 < n) : Leading (xs.take n) := by
  cases xs with
  | nil => exact absurd rfl h.ne_nil
  | cons c rest =>
    cases n with
    | zero => cases hn
    | succ n =>
      have hdigits := h.digits
      rw [List.all_cons, Bool.and_eq_true] at hdigits
      rw [List.take_succ_cons]
      refine ⟨List.cons_ne_nil _ _, h.head, ?_⟩
      rw [List.all_cons, Bool.and_eq_true]
      refine ⟨hdigits.1, ?_⟩
      rw [List.all_eq_true] at hdigits ⊢
      exact fun d hd => hdigits.2 d (List.mem_of_mem_take hd)

theorem all_drop {p : Char → Bool} {chars : List Char} (h : chars.all p = true) (n : Nat)
    : (chars.drop n).all p = true := by
  rw [List.all_eq_true] at h ⊢
  exact fun d hd => h d (List.mem_of_mem_drop hd)

theorem all_zeros (n : Nat) : (List.replicate n '0').all Char.isDigit = true := by
  rw [List.all_eq_true]
  intro c hc
  rw [(List.mem_replicate.mp hc).2]
  decide

theorem Plain.value_add (h : Plain xs) {n : Nat} (hn : 0 < n)
    : 10 ^ (xs.length - 1) ≤ digitsValue xs + n := by
  cases h with
  | inl h =>
    rw [h]
    exact Nat.le_add_left_of_le hn
  | inr h => exact h.le_value.trans (Nat.le_add_right _ _)

theorem plain_toDigits (n : Nat) : Plain (Nat.toDigits 10 n) := by
  cases Nat.eq_zero_or_pos n with
  | inl hzero =>
    rw [hzero]
    exact .inl (Nat.toDigits_zero 10)
  | inr hpos => exact .inr (leading_toDigits hpos)

theorem digitsValue_toDigits (n : Nat) : digitsValue (Nat.toDigits 10 n) = n :=
  Nat.ofDigitChars_ten_toDigits

end Digits

section Numerals

-- What is before the first character with the property, and what is after it where there is one.
def splitOnce (p : Char → Bool) (chars : List Char) : List Char × Option (List Char) :=
  match chars with
  | [] => ([], none)
  | c :: rest => if p c then ([], some rest) else (c :: (splitOnce p rest).1, (splitOnce p rest).2)

def splitSign (chars : List Char) : Bool × List Char :=
  match chars with
  | '-' :: rest => (true, rest)
  | _ => (false, chars)

def isExponentMark (c : Char) : Bool := c == 'e' || c == 'E'

variable {p : Char → Bool}

theorem splitOnce_append {xs ys : List Char} {c : Char} (h : xs.all (fun d => !p d) = true) (hc : p c = true)
    : splitOnce p (xs ++ c :: ys) = (xs, some ys) := by
  induction xs with
  | nil =>
    rw [List.nil_append, splitOnce, if_pos hc]
  | cons d xs ih =>
    rw [List.all_cons, Bool.and_eq_true, Bool.not_eq_true'] at h
    rw [List.cons_append, splitOnce, if_neg (by rw [h.1]; exact Bool.false_ne_true), ih h.2]

theorem splitOnce_of_all {xs : List Char} (h : xs.all (fun d => !p d) = true)
    : splitOnce p xs = (xs, none) := by
  induction xs with
  | nil => rfl
  | cons d xs ih =>
    rw [List.all_cons, Bool.and_eq_true, Bool.not_eq_true'] at h
    rw [splitOnce, if_neg (by rw [h.1]; exact Bool.false_ne_true), ih h.2]

theorem splitOnce_eq {chars : List Char}
    : chars = (splitOnce p chars).1
      ∨ ∃ c rest, p c = true ∧ (splitOnce p chars).2 = some rest ∧ chars = (splitOnce p chars).1 ++ c :: rest := by
  induction chars with
  | nil => exact .inl rfl
  | cons c rest ih =>
    unfold splitOnce
    split
    . next hc => exact .inr ⟨c, rest, hc, rfl, rfl⟩
    . cases ih with
      | inl ih => exact .inl (congrArg (c :: ·) ih)
      | inr ih =>
        obtain ⟨d, others, hd, hsome, heq⟩ := ih
        exact .inr ⟨d, others, hd, hsome, congrArg (c :: ·) heq⟩

theorem splitOnce_head {c : Char} {chars : List Char} (h : (splitOnce p (c :: chars)).1 ≠ [])
    : ∃ rest, (splitOnce p (c :: chars)).1 = c :: rest := by
  unfold splitOnce at h ⊢
  split
  . next hc =>
    rw [if_pos hc] at h
    exact absurd rfl h
  . exact ⟨_, rfl⟩

-- A numeral in its parts. The exponent is what follows its mark, with a sign or without.
structure Numeral where
  negative : Bool
  integer : List Char
  fraction : Option (List Char)
  exponent : Option (List Char)
  deriving DecidableEq

def Numeral.read (chars : List Char) : Numeral :=
  let unsigned := (splitSign chars).2
  let mantissa := (splitOnce isExponentMark unsigned).1
  {
    negative := (splitSign chars).1
    integer := (splitOnce (· == '.') mantissa).1
    fraction := (splitOnce (· == '.') mantissa).2
    exponent := (splitOnce isExponentMark unsigned).2
  }

def signed (exponent : List Char) : Bool × List Char :=
  match exponent with
  | '-' :: digits => (true, digits)
  | '+' :: digits => (false, digits)
  | digits => (false, digits)

-- The numbers of JSON.
structure Numeral.Valid (numeral : Numeral) : Prop where
  integer : Plain numeral.integer
  fraction : ∀ digits ∈ numeral.fraction, digits ≠ [] ∧ digits.all Char.isDigit = true
  exponent : ∀ exponent ∈ numeral.exponent, (signed exponent).2 ≠ [] ∧ (signed exponent).2.all Char.isDigit = true

def signOf (negative : Bool) (n : Nat) : Int := if negative then -(n : Int) else n

def exponentValue (exponent : Option (List Char)) : Int :=
  match exponent with
  | none => 0
  | some exponent => signOf (signed exponent).1 (digitsValue (signed exponent).2)

namespace Numeral

def digits (numeral : Numeral) : List Char := numeral.integer ++ numeral.fraction.getD []

def power (numeral : Numeral) : Int :=
  exponentValue numeral.exponent - (numeral.fraction.getD []).length

def value (numeral : Numeral) : ℚ :=
  (signOf numeral.negative (digitsValue numeral.digits) : ℚ) * (10 : ℚ) ^ numeral.power

end Numeral

def IsNumber (chars : List Char) : Prop := (Numeral.read chars).Valid

instance decidableLeading (digits : List Char) : Decidable (Leading digits) :=
  decidable_of_iff (digits ≠ [] ∧ digits.head? ≠ some '0' ∧ digits.all Char.isDigit = true)
    ⟨fun h => ⟨h.1, h.2.1, h.2.2⟩, fun h => ⟨h.ne_nil, h.head, h.digits⟩⟩

instance decidablePlain (digits : List Char) : Decidable (Plain digits) :=
  inferInstanceAs (Decidable (digits = ['0'] ∨ Leading digits))

instance decidableValid (numeral : Numeral) : Decidable numeral.Valid :=
  decidable_of_iff (Plain numeral.integer
      ∧ (∀ digits ∈ numeral.fraction, digits ≠ [] ∧ digits.all Char.isDigit = true)
      ∧ ∀ exponent ∈ numeral.exponent, (signed exponent).2 ≠ [] ∧ (signed exponent).2.all Char.isDigit = true)
    ⟨fun h => ⟨h.1, h.2.1, h.2.2⟩, fun h => ⟨h.integer, h.fraction, h.exponent⟩⟩

instance decidableIsNumber (chars : List Char) : Decidable (IsNumber chars) :=
  inferInstanceAs (Decidable (Numeral.read chars).Valid)

def numberValue (chars : List Char) : ℚ := (Numeral.read chars).value

def spell (integer : List Char) (fraction exponent : Option (List Char)) : List Char :=
  integer ++ ((fraction.elim [] ('.' :: ·)) ++ exponent.elim [] ('e' :: ·))

def sign (negative : Bool) : List Char := if negative then ['-'] else []

theorem splitSign_sign {negative : Bool} {chars : List Char} (h : chars.head? ≠ some '-')
    : splitSign (sign negative ++ chars) = (negative, chars) := by
  cases negative with
  | false =>
    cases chars with
    | nil => rfl
    | cons c rest =>
      unfold sign splitSign
      rw [if_neg Bool.false_ne_true, List.nil_append]
      split
      . next heq =>
        cases heq
        exact absurd rfl h
      . rfl
  | true => rfl

theorem not_mark_of_digits (hp : ∀ c : Char, c.isDigit = true → p c = false) {digits : List Char}
    (h : digits.all Char.isDigit = true)
    : digits.all (fun c => !p c) = true := by
  rw [List.all_eq_true] at h ⊢
  intro c hc
  rw [hp c (h c hc)]
  rfl

theorem isExponentMark_digit (c : Char) (h : c.isDigit = true) : isExponentMark c = false := by
  unfold isExponentMark
  rw [Bool.or_eq_false_iff, beq_eq_false_iff_ne, beq_eq_false_iff_ne]
  constructor
  . intro hc
    rw [hc] at h
    cases h
  . intro hc
    rw [hc] at h
    cases h

theorem point_digit (c : Char) (h : c.isDigit = true) : (c == '.') = false := by
  rw [beq_eq_false_iff_ne]
  intro hc
  rw [hc] at h
  cases h

theorem read_spell {negative : Bool} {integer : List Char} {fraction exponent : Option (List Char)}
    (hne : integer ≠ []) (hinteger : integer.all Char.isDigit = true)
    (hfraction : ∀ digits ∈ fraction, digits.all Char.isDigit = true)
    : Numeral.read (sign negative ++ spell integer fraction exponent) = ⟨negative, integer, fraction, exponent⟩ := by
  have hhead : (spell integer fraction exponent).head? ≠ some '-' := by
    cases integer with
    | nil => exact absurd rfl hne
    | cons c rest =>
      intro hc
      unfold spell at hc
      rw [List.cons_append, List.head?_cons, Option.some.injEq] at hc
      rw [hc, List.all_cons] at hinteger
      cases hinteger
  have hmantissa : (integer ++ fraction.elim [] ('.' :: ·)).all (fun c => !isExponentMark c) = true := by
    rw [List.all_append, Bool.and_eq_true]
    refine ⟨not_mark_of_digits isExponentMark_digit hinteger, ?_⟩
    cases fraction with
    | none => rfl
    | some digits =>
      rw [Option.elim_some, List.all_cons, Bool.and_eq_true]
      exact ⟨rfl, not_mark_of_digits isExponentMark_digit (hfraction digits rfl)⟩
  have hexponent : splitOnce isExponentMark (spell integer fraction exponent)
      = (integer ++ fraction.elim [] ('.' :: ·), exponent) := by
    unfold spell
    rw [← List.append_assoc]
    cases exponent with
    | none =>
      rw [Option.elim_none, List.append_nil]
      exact splitOnce_of_all hmantissa
    | some exponent => exact splitOnce_append hmantissa rfl
  have hpoint : splitOnce (· == '.') (integer ++ fraction.elim [] ('.' :: ·)) = (integer, fraction) := by
    have hdigits := not_mark_of_digits point_digit hinteger
    cases fraction with
    | none =>
      rw [Option.elim_none, List.append_nil]
      exact splitOnce_of_all hdigits
    | some digits => exact splitOnce_append hdigits rfl
  unfold Numeral.read
  dsimp only
  rw [splitSign_sign hhead, hexponent]
  dsimp only
  rw [hpoint]

end Numerals

section Scientific

-- A value but zero as its digits, without zeros on either side, and the power of ten of the first one.
structure Scientific where
  negative : Bool
  significant : List Char
  exponent : Int

structure Scientific.Normal (form : Scientific) : Prop where
  leading : Leading form.significant
  last : form.significant.getLast? ≠ some '0'

def Scientific.value (form : Scientific) : ℚ :=
  (signOf form.negative (digitsValue form.significant) : ℚ)
    * (10 : ℚ) ^ (form.exponent - (form.significant.length - 1 : Nat))

variable {form form' : Scientific}

theorem Scientific.Normal.not_dvd (h : form.Normal) : ¬ 10 ∣ digitsValue form.significant := by
  obtain ⟨⟨hne, -, hdigits⟩, hlast⟩ := h
  obtain ⟨xs, c, hxs⟩ : ∃ xs c, form.significant = xs ++ [c] :=
    ⟨_, _, (List.dropLast_append_getLast hne).symm⟩
  rw [hxs] at hdigits hlast ⊢
  rw [List.all_append, Bool.and_eq_true, List.all_cons, List.all_nil, Bool.and_true] at hdigits
  rw [List.getLast?_append, List.getLast?_singleton, Option.some_or] at hlast
  rw [digitsValue_concat]
  have hle := digitOf_le hdigits.2
  have hzero : digitOf c ≠ 0 := by
    intro hzero
    rw [digitOf_eq_zero hdigits.2] at hzero
    exact hlast (congrArg some hzero)
  omega

theorem power_le {a b : Nat} {m n : Int} (ha : ¬ 10 ∣ a) (h : (a : ℚ) * (10 : ℚ) ^ m = (b : ℚ) * (10 : ℚ) ^ n)
    : n ≤ m := by
  by_contra hlt
  rw [not_le] at hlt
  obtain ⟨k, hk⟩ := Int.eq_ofNat_of_zero_le (Int.sub_nonneg_of_le (le_of_lt hlt))
  have hpow : (10 : ℚ) ^ n = (10 : ℚ) ^ m * ((10 ^ k : Nat) : ℚ) := by
    rw [Nat.cast_pow, Nat.cast_ofNat, ← zpow_natCast, ← zpow_add₀ (by norm_num)]
    congr 1
    omega
  have hne : (10 : ℚ) ^ m ≠ 0 := zpow_ne_zero _ (by norm_num)
  have hnat : (a : ℚ) = ((b * 10 ^ k : Nat) : ℚ) := by
    apply mul_right_cancel₀ hne
    rw [h, hpow, Nat.cast_mul]
    ring
  rw [Nat.cast_inj] at hnat
  apply ha
  rw [hnat]
  apply Dvd.dvd.mul_left
  exact dvd_pow_self 10 (by omega)

theorem factor_unique {a b : Nat} {m n : Int} (ha : ¬ 10 ∣ a) (hb : ¬ 10 ∣ b)
    (h : (a : ℚ) * (10 : ℚ) ^ m = (b : ℚ) * (10 : ℚ) ^ n)
    : a = b ∧ m = n := by
  have hsame : m = n := le_antisymm (power_le hb h.symm) (power_le ha h)
  subst hsame
  have hne : (10 : ℚ) ^ m ≠ 0 := zpow_ne_zero _ (by norm_num)
  exact ⟨Nat.cast_injective (mul_right_cancel₀ hne h), rfl⟩

theorem abs_signOf (negative : Bool) (n : Nat) : |(signOf negative n : ℚ)| = n := by
  unfold signOf
  cases negative <;> simp

theorem signOf_inj {negative negative' : Bool} {n : Nat} (hpos : 0 < n)
    (h : signOf negative n = signOf negative' n)
    : negative = negative' := by
  unfold signOf at h
  cases negative with
  | false =>
    cases negative' with
    | false => rfl
    | true =>
      rw [if_neg Bool.false_ne_true, if_pos rfl] at h
      omega
  | true =>
    cases negative' with
    | false =>
      rw [if_neg Bool.false_ne_true, if_pos rfl] at h
      omega
    | true => rfl

theorem Scientific.abs_value
    : |form.value| = (digitsValue form.significant : ℚ)
        * (10 : ℚ) ^ (form.exponent - (form.significant.length - 1 : Nat)) := by
  unfold Scientific.value
  rw [abs_mul, abs_signOf, abs_of_pos (zpow_pos (by norm_num) _)]

theorem Scientific.Normal.value_ne_zero (h : form.Normal) : form.value ≠ 0 := by
  rw [← abs_ne_zero, Scientific.abs_value]
  apply mul_ne_zero
  . rw [Nat.cast_ne_zero]
    exact Nat.pos_iff_ne_zero.mp h.leading.value_pos
  . exact zpow_ne_zero _ (by norm_num)

theorem Scientific.Normal.eq_of_value (h : form.Normal) (h' : form'.Normal) (hvalue : form.value = form'.value)
    : form = form' := by
  have habs := congrArg abs hvalue
  rw [Scientific.abs_value, Scientific.abs_value] at habs
  obtain ⟨hdigits, hpower⟩ := factor_unique h.not_dvd h'.not_dvd habs
  have hsignificant := h.leading.inj h'.leading hdigits
  have hexponent : form.exponent = form'.exponent := by
    rw [hsignificant] at hpower
    omega
  have hnegative : form.negative = form'.negative := by
    have hne : (10 : ℚ) ^ (form'.exponent - (form'.significant.length - 1 : Nat)) ≠ 0 :=
      zpow_ne_zero _ (by norm_num)
    unfold Scientific.value at hvalue
    rw [hsignificant, hexponent] at hvalue
    have hsign := mul_right_cancel₀ hne hvalue
    have hpos := h'.leading.value_pos
    rw [Int.cast_inj] at hsign
    exact signOf_inj hpos hsign
  cases form
  cases form'
  dsimp only at hsignificant hexponent hnegative
  rw [hsignificant, hexponent, hnegative]

end Scientific

end Decimal
