import Pliego.Lib.Decimal
import Pliego.Lib.JsonText
import Pliego.Lib.Text

/-!
The grammar of JSON: the tokens of a text, the tokens of a value, and the values themselves, in which an
object is a finite map and a number is a rational.
-/

namespace JsonText

open Bytes Decimal

section Literals

def hexValue (c : Char) : Option Nat :=
  if c.isDigit then
    some (c.toNat - 48)
  else if 'a' ≤ c ∧ c ≤ 'f' then
    some (c.toNat - 87)
  else if 'A' ≤ c ∧ c ≤ 'F' then
    some (c.toNat - 55)
  else
    none

def hexUnit (a b c d : Char) : Option Nat :=
  (hexValue a).bind fun a => (hexValue b).bind fun b => (hexValue c).bind fun c => (hexValue d).map fun d =>
    ((a * 16 + b) * 16 + c) * 16 + d

def isHighSurrogate (unit : Nat) : Bool := 0xD800 ≤ unit && unit ≤ 0xDBFF

def isLowSurrogate (unit : Nat) : Bool := 0xDC00 ≤ unit && unit ≤ 0xDFFF

def shortEscape (mark : Char) : Option Char :=
  match mark with
  | '"' => some '"'
  | '\\' => some '\\'
  | '/' => some '/'
  | 'b' => some (Char.ofNat 8)
  | 'f' => some (Char.ofNat 12)
  | 'n' => some '\n'
  | 'r' => some '\r'
  | 't' => some '\t'
  | _ => none

-- The spellings of one character of a string.
inductive Spelling : List Char → Char → Prop where
  | plain {c : Char} (quote : c ≠ '"') (escape : c ≠ '\\') (control : 32 ≤ c.toNat) : Spelling [c] c
  | short {mark c : Char} (h : shortEscape mark = some c) : Spelling ['\\', mark] c
  | unit {a b c d : Char} {n : Nat} (h : hexUnit a b c d = some n) (high : isHighSurrogate n = false)
    (low : isLowSurrogate n = false) : Spelling ['\\', 'u', a, b, c, d] (Char.ofNat n)
  | pair {a b c d a' b' c' d' : Char} {n n' : Nat} (h : hexUnit a b c d = some n)
    (h' : hexUnit a' b' c' d' = some n') (high : isHighSurrogate n = true) (low : isLowSurrogate n' = true)
    : Spelling ['\\', 'u', a, b, c, d, '\\', 'u', a', b', c', d']
        (Char.ofNat (0x10000 + (n - 0xD800) * 0x400 + (n' - 0xDC00)))

-- What stands between the quotes of a string, and the string.
inductive Literal : List Char → List Char → Prop where
  | nil : Literal [] []
  | cons {text rest : List Char} {c : Char} {chars : List Char} (first : Spelling text c)
    (others : Literal rest chars) : Literal (text ++ rest) (c :: chars)

variable {xs ys r r' : List Char} {c d : Char}

theorem Spelling.unique (h : Spelling xs c) (h' : Spelling ys d) (hsame : xs ++ r = ys ++ r')
    : c = d ∧ xs = ys ∧ r = r' := by
  cases h with
  | plain hquote hescape hcontrol =>
    cases h' with
    | plain hquote' hescape' hcontrol' =>
      cases hsame
      exact ⟨rfl, rfl, rfl⟩
    | short _ =>
      cases hsame
      exact absurd rfl hescape
    | unit _ _ _ =>
      cases hsame
      exact absurd rfl hescape
    | pair _ _ _ _ =>
      cases hsame
      exact absurd rfl hescape
  | short hmark =>
    cases h' with
    | plain hquote' hescape' hcontrol' =>
      cases hsame
      exact absurd rfl hescape'
    | short hmark' =>
      cases hsame
      rw [hmark] at hmark'
      cases hmark'
      exact ⟨rfl, rfl, rfl⟩
    | unit _ _ _ =>
      cases hsame
      cases hmark
    | pair _ _ _ _ =>
      cases hsame
      cases hmark
  | unit hunit hhigh hlow =>
    cases h' with
    | plain hquote' hescape' hcontrol' =>
      cases hsame
      exact absurd rfl hescape'
    | short hmark =>
      cases hsame
      cases hmark
    | unit hunit' _ _ =>
      cases hsame
      rw [hunit] at hunit'
      cases hunit'
      exact ⟨rfl, rfl, rfl⟩
    | pair hunit' _ hhigh' _ =>
      cases hsame
      rw [hunit] at hunit'
      cases hunit'
      rw [hhigh] at hhigh'
      cases hhigh'
  | pair hunit hunit₂ hhigh hlow =>
    cases h' with
    | plain hquote' hescape' hcontrol' =>
      cases hsame
      exact absurd rfl hescape'
    | short hmark =>
      cases hsame
      cases hmark
    | unit hunit' hhigh' _ =>
      cases hsame
      rw [hunit] at hunit'
      cases hunit'
      rw [hhigh] at hhigh'
      cases hhigh'
    | pair hunit' hunit₂' _ _ =>
      cases hsame
      rw [hunit] at hunit'
      cases hunit'
      rw [hunit₂] at hunit₂'
      cases hunit₂'
      exact ⟨rfl, rfl, rfl⟩

theorem Spelling.head_ne_quote (h : Spelling xs c) (hsame : xs ++ r = '"' :: r') : False := by
  cases h with
  | plain hquote _ _ =>
    cases hsame
    exact hquote rfl
  | _ => cases hsame

theorem Literal.unique {cs ds : List Char} (h : Literal xs cs) (h' : Literal ys ds)
    (hsame : xs ++ '"' :: r = ys ++ '"' :: r')
    : cs = ds ∧ xs = ys ∧ r = r' := by
  induction h generalizing ys ds with
  | nil =>
    cases h' with
    | nil =>
      cases hsame
      exact ⟨rfl, rfl, rfl⟩
    | cons first others =>
      rw [List.append_assoc] at hsame
      exact (first.head_ne_quote hsame.symm).elim
  | cons first others ih =>
    cases h' with
    | nil =>
      rw [List.append_assoc] at hsame
      exact (first.head_ne_quote hsame).elim
    | cons first' others' =>
      rw [List.append_assoc, List.append_assoc] at hsame
      obtain ⟨hchar, htext, hrest⟩ := first.unique first' hsame
      obtain ⟨hchars, htexts, hend⟩ := ih others' hrest
      exact ⟨by rw [hchar, hchars], by rw [htext, htexts], hend⟩

end Literals

section Tokens

inductive Token where
  | mark (c : Char)
  | null
  | bool (value : Bool)
  | number (lexeme : String)
  | text (value : String)

def isMark (c : Char) : Bool := c == '[' || c == ']' || c == '{' || c == '}' || c == ',' || c == ':'

def isBlank (c : Char) : Bool := c == ' ' || c == '\t' || c == '\n' || c == '\r'

-- The characters a number is made of, so that it ends where none of them follows.
def isNumberChar (c : Char) : Bool := c.isDigit || c == '-' || c == '+' || c == '.' || isExponentMark c

inductive Spells : List Char → Token → Prop where
  | mark {c : Char} (h : isMark c = true) : Spells [c] (.mark c)
  | nullWord : Spells ['n', 'u', 'l', 'l'] .null
  | trueWord : Spells ['t', 'r', 'u', 'e'] (.bool true)
  | falseWord : Spells ['f', 'a', 'l', 's', 'e'] (.bool false)
  | number {lexeme : List Char} (h : IsNumber lexeme) : Spells lexeme (.number (String.ofList lexeme))
  | text {body chars : List Char} (h : Literal body chars)
    : Spells ('"' :: (body ++ ['"'])) (.text (String.ofList chars))

def Ends (token : Token) (rest : List Char) : Prop :=
  match token with
  | .number _ => ∀ c, rest.head? = some c → isNumberChar c = false
  | _ => True

-- The tokens of a text, with blanks between them.
inductive Lexed : List Char → List Token → Prop where
  | nil : Lexed [] []
  | blank {c : Char} {rest : List Char} {tokens : List Token} (h : isBlank c = true) (others : Lexed rest tokens)
    : Lexed (c :: rest) tokens
  | token {text rest : List Char} {token : Token} {tokens : List Token} (first : Spells text token)
    (ends : Ends token rest) (others : Lexed rest tokens) : Lexed (text ++ rest) (token :: tokens)

-- The sort of token that a character starts.
def startOf (c : Char) : Nat :=
  if isMark c then 0
  else if c == 'n' then 1
  else if c == 't' then 2
  else if c == 'f' then 3
  else if c == '"' then 4
  else if c.isDigit || c == '-' then 5
  else 6

def Token.start (token : Token) : Nat :=
  match token with
  | .mark _ => 0
  | .null => 1
  | .bool true => 2
  | .bool false => 3
  | .text _ => 4
  | .number _ => 5

variable {c : Char} {xs ys r r' : List Char} {token token' : Token} {tokens tokens' : List Token}

theorem isNumberChar_digits {digits : List Char} (h : digits.all Char.isDigit = true)
    : digits.all isNumberChar = true := by
  rw [List.all_eq_true] at h ⊢
  intro c hc
  unfold isNumberChar
  rw [h c hc]
  rfl

theorem isNumberChar_exponent {exponent : List Char} (h : (signed exponent).2.all Char.isDigit = true)
    : exponent.all isNumberChar = true := by
  unfold signed at h
  split at h
  . rw [List.all_cons, isNumberChar_digits h]
    rfl
  . rw [List.all_cons, isNumberChar_digits h]
    rfl
  . exact isNumberChar_digits h

theorem number_chars (h : IsNumber xs) : xs.all isNumberChar = true := by
  obtain ⟨hinteger, hfraction, hexponent⟩ := h
  unfold Numeral.read at hinteger hfraction hexponent
  dsimp only at hinteger hfraction hexponent
  have hmantissa : (splitOnce isExponentMark (splitSign xs).2).1.all isNumberChar = true := by
    generalize (splitOnce isExponentMark (splitSign xs).2).1 = mantissa at hinteger hfraction
    have hdigits := isNumberChar_digits hinteger.digits
    cases @splitOnce_eq (· == '.') mantissa with
    | inl heq =>
      rw [heq]
      exact hdigits
    | inr heq =>
      obtain ⟨c, rest, hc, hsome, heq⟩ := heq
      have hrest := isNumberChar_digits (hfraction rest hsome).2
      rw [heq, List.all_append, List.all_cons, hdigits, hrest, beq_iff_eq.mp hc]
      rfl
  have hunsigned : (splitSign xs).2.all isNumberChar = true := by
    generalize (splitSign xs).2 = unsigned at hmantissa hexponent
    cases @splitOnce_eq isExponentMark unsigned with
    | inl heq =>
      rw [heq]
      exact hmantissa
    | inr heq =>
      obtain ⟨c, rest, hc, hsome, heq⟩ := heq
      have hrest := isNumberChar_exponent (hexponent rest hsome).2
      have hmark : isNumberChar c = true := by
        unfold isNumberChar
        rw [hc, Bool.or_true]
      rw [heq, List.all_append, List.all_cons, hmantissa, hmark, hrest]
      rfl
  unfold splitSign at hunsigned
  split at hunsigned
  . rw [List.all_cons, hunsigned]
    rfl
  . exact hunsigned

theorem number_start (h : IsNumber xs) : ∃ c rest, xs = c :: rest ∧ (c.isDigit = true ∨ c = '-') := by
  obtain ⟨hinteger, -, -⟩ := h
  unfold Numeral.read at hinteger
  dsimp only at hinteger
  cases xs with
  | nil => exact absurd rfl hinteger.ne_nil
  | cons c rest =>
    refine ⟨c, rest, rfl, ?_⟩
    by_cases hsign : c = '-'
    . exact .inr hsign
    . left
      have hsplit : splitSign (c :: rest) = (false, c :: rest) := by
        unfold splitSign
        split
        . next heq =>
          cases heq
          exact absurd rfl hsign
        . rfl
      rw [hsplit] at hinteger
      have hdigits := hinteger.digits
      have hne := hinteger.ne_nil
      dsimp only at hdigits hne
      have hmantissa : (splitOnce isExponentMark (c :: rest)).1 ≠ [] := by
        intro hnil
        rw [hnil] at hne
        exact hne rfl
      obtain ⟨others, hothers⟩ := splitOnce_head hmantissa
      rw [hothers] at hne hdigits
      obtain ⟨last, hlast⟩ := splitOnce_head hne
      rw [hlast, List.all_cons, Bool.and_eq_true] at hdigits
      exact hdigits.1

theorem startOf_number (h : c.isDigit = true ∨ c = '-') : startOf c = 5 ∧ isBlank c = false := by
  cases h with
  | inl h =>
    have hne : ∀ d : Char, d.isDigit = false → (c == d) = false := by
      intro d hd
      rw [beq_eq_false_iff_ne]
      intro hcd
      rw [hcd, hd] at h
      cases h
    unfold startOf isMark isBlank
    rw [hne '[' rfl, hne ']' rfl, hne '{' rfl, hne '}' rfl, hne ',' rfl, hne ':' rfl, hne 'n' rfl, hne 't' rfl,
      hne 'f' rfl, hne '"' rfl, h, hne ' ' rfl, hne '\t' rfl, hne '\n' rfl, hne '\r' rfl]
    exact ⟨rfl, rfl⟩
  | inr h =>
    rw [h]
    exact ⟨rfl, rfl⟩

theorem Spells.start (h : Spells xs token)
    : ∃ c rest, xs = c :: rest ∧ startOf c = token.start ∧ isBlank c = false := by
  cases h with
  | @mark c h =>
    refine ⟨c, [], rfl, ?_, ?_⟩
    . unfold startOf
      rw [if_pos h]
      rfl
    . unfold isMark at h
      simp only [Bool.or_eq_true, beq_iff_eq] at h
      rcases h with ((((rfl | rfl) | rfl) | rfl) | rfl) | rfl <;> rfl
  | nullWord => exact ⟨'n', _, rfl, rfl, rfl⟩
  | trueWord => exact ⟨'t', _, rfl, rfl, rfl⟩
  | falseWord => exact ⟨'f', _, rfl, rfl, rfl⟩
  | number h =>
    obtain ⟨c, rest, hxs, hc⟩ := number_start h
    obtain ⟨hstart, hblank⟩ := startOf_number hc
    exact ⟨c, rest, hxs, hstart, hblank⟩
  | text h => exact ⟨'"', _, rfl, rfl, rfl⟩

theorem run_unique {p : Char → Bool} (hx : xs.all p = true) (hy : ys.all p = true)
    (hr : ∀ c, r.head? = some c → p c = false) (hr' : ∀ c, r'.head? = some c → p c = false)
    (hsame : xs ++ r = ys ++ r')
    : xs = ys ∧ r = r' := by
  have htake : ∀ {zs s : List Char}, zs.all p = true → (∀ c, s.head? = some c → p c = false) →
      (zs ++ s).takeWhile p = zs := by
    intro zs s hz hs
    rw [List.takeWhile_append_of_pos (List.all_eq_true.mp hz)]
    cases s with
    | nil => rw [List.takeWhile_nil, List.append_nil]
    | cons c rest =>
      rw [List.takeWhile_cons, hs c rfl, if_neg Bool.false_ne_true, List.append_nil]
  have hxs : xs = ys := by rw [← htake hx hr, hsame, htake hy hr']
  subst hxs
  exact ⟨rfl, List.append_cancel_left hsame⟩

theorem Spells.unique (h : Spells xs token) (h' : Spells ys token') (hends : Ends token r) (hends' : Ends token' r')
    (hsame : xs ++ r = ys ++ r')
    : token = token' ∧ r = r' := by
  have hstart : token.start = token'.start := by
    obtain ⟨c, rest, hxs, hc, -⟩ := h.start
    obtain ⟨d, rest', hys, hd, -⟩ := h'.start
    rw [hxs, hys, List.cons_append, List.cons_append, List.cons.injEq] at hsame
    rw [← hc, ← hd, hsame.1]
  cases h with
  | mark =>
    cases h' with
    | mark =>
      cases hsame
      exact ⟨rfl, rfl⟩
    | _ => cases hstart
  | nullWord =>
    cases h' with
    | nullWord =>
      cases hsame
      exact ⟨rfl, rfl⟩
    | _ => cases hstart
  | trueWord =>
    cases h' with
    | trueWord =>
      cases hsame
      exact ⟨rfl, rfl⟩
    | _ => cases hstart
  | falseWord =>
    cases h' with
    | falseWord =>
      cases hsame
      exact ⟨rfl, rfl⟩
    | _ => cases hstart
  | number h =>
    cases h' with
    | number h' =>
      obtain ⟨rfl, hrest⟩ := run_unique (number_chars h) (number_chars h') hends hends' hsame
      exact ⟨rfl, hrest⟩
    | _ => cases hstart
  | text h =>
    cases h' with
    | text h' =>
      rw [List.cons_append, List.cons_append, List.cons.injEq, List.append_assoc, List.append_assoc] at hsame
      obtain ⟨hchars, -, hrest⟩ := h.unique h' hsame.2
      exact ⟨by rw [hchars], hrest⟩
    | _ => cases hstart

theorem Lexed.unique (h : Lexed xs tokens) (h' : Lexed xs tokens') : tokens = tokens' := by
  induction h generalizing tokens' with
  | nil =>
    generalize hnil : ([] : List Char) = text at h'
    cases h' with
    | nil => rfl
    | blank _ _ => cases hnil
    | token first _ _ =>
      obtain ⟨c, rest, hxs, -, -⟩ := first.start
      rw [hxs] at hnil
      cases hnil
  | @blank c rest tokens hc _ ih =>
    generalize htext : c :: rest = text at h'
    cases h' with
    | nil => cases htext
    | blank _ others =>
      cases htext
      exact ih others
    | token first _ _ =>
      obtain ⟨d, rest', hxs, -, hd⟩ := first.start
      rw [hxs] at htext
      cases htext
      rw [hc] at hd
      cases hd
  | @token text rest token tokens first hends _ ih =>
    generalize htext : text ++ rest = whole at h'
    cases h' with
    | nil =>
      obtain ⟨c, others, hxs, -, -⟩ := first.start
      rw [hxs] at htext
      cases htext
    | blank hd _ =>
      obtain ⟨c, others, hxs, -, hc⟩ := first.start
      rw [hxs] at htext
      cases htext
      rw [hc] at hd
      cases hd
    | token first' hends' others' =>
      obtain ⟨hsame, hrest⟩ := first.unique first' hends hends' htext
      subst hrest
      rw [hsame, ih others']

end Tokens

end JsonText
