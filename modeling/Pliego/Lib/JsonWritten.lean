import Pliego.Lib.JsonValue

/-!
JSON texts whose strings are left as they are spelled.
-/

namespace JsonText

open Bytes Decimal

-- One character of a string, or one escape.
inductive Written : List Char → Prop where
  | plain {c : Char} (quote : c ≠ '"') (escape : c ≠ '\\') (control : 32 ≤ c.toNat) : Written [c]
  | short {mark c : Char} (h : shortEscape mark = some c) : Written ['\\', mark]
  | unit {a b c d : Char} {n : Nat} (h : hexUnit a b c d = some n) : Written ['\\', 'u', a, b, c, d]

inductive Body : List Char → Prop where
  | nil : Body []
  | cons {text rest : List Char} (first : Written text) (others : Body rest) : Body (text ++ rest)

-- A string stands for what is between its quotes.
inductive Spelled : List Char → Token → Prop where
  | other {text : List Char} {token : Token} (h : Spells text token) (plain : ∀ value, token ≠ .text value)
    : Spelled text token
  | text {body : List Char} (h : Body body) : Spelled ('"' :: (body ++ ['"'])) (.text (String.ofList body))

inductive WrittenAs : List Char → List Token → Prop where
  | nil : WrittenAs [] []
  | blank {c : Char} {rest : List Char} {tokens : List Token} (h : isBlank c = true) (others : WrittenAs rest tokens)
    : WrittenAs (c :: rest) tokens
  | token {text rest : List Char} {token : Token} {tokens : List Token} (first : Spelled text token)
    (ends : Ends token rest) (others : WrittenAs rest tokens) : WrittenAs (text ++ rest) (token :: tokens)

def Writes (raw : List UInt8) (value : Value) : Prop :=
  ∃ chars, raw = utf8 (String.ofList chars) ∧ WrittenAs chars value.tokens

def Decodes (body name : String) : Prop := Literal body.toList name.toList

variable {chars xs ys cs : List Char} {token : Token} {tokens : List Token}

theorem Body.append (h : Body xs) (h' : Body ys) : Body (xs ++ ys) := by
  induction h with
  | nil => exact h'
  | cons first _ ih =>
    rw [List.append_assoc]
    exact .cons first ih

theorem Written.body (h : Written xs) : Body xs := by
  have hbody := Body.cons h .nil
  rw [List.append_nil] at hbody
  exact hbody

theorem Spelling.body {c : Char} (h : Spelling xs c) : Body xs := by
  cases h with
  | plain hquote hescape hcontrol => exact (Written.plain hquote hescape hcontrol).body
  | short hmark => exact (Written.short hmark).body
  | unit hunit _ _ => exact (Written.unit hunit).body
  | pair hunit hunit' _ _ => exact .cons (.unit hunit) (Written.unit hunit').body

theorem Literal.body (h : Literal xs cs) : Body xs := by
  induction h with
  | nil => exact .nil
  | cons first _ ih => exact first.body.append ih

theorem Spelled.start (h : Spelled xs token) : ∃ c rest, xs = c :: rest ∧ startOf c = token.start := by
  cases h with
  | other hspells _ =>
    obtain ⟨c, rest, hxs, hstart, -⟩ := hspells.start
    exact ⟨c, rest, hxs, hstart⟩
  | text _ => exact ⟨'"', _, rfl, rfl⟩

-- The same token, but for a string that is decoded.
inductive Token.Decoded : Token → Token → Prop where
  | same {token : Token} (plain : ∀ value, token ≠ .text value) : Token.Decoded token token
  | text {body name : String} (h : Decodes body name) : Token.Decoded (.text body) (.text name)

theorem Lexed.writtenAs (h : Lexed chars tokens)
    : ∃ spelled, WrittenAs chars spelled ∧ List.Forall₂ Token.Decoded spelled tokens := by
  induction h with
  | nil => exact ⟨[], .nil, .nil⟩
  | blank hblank _ ih =>
    obtain ⟨spelled, hwritten, hdecoded⟩ := ih
    exact ⟨spelled, .blank hblank hwritten, hdecoded⟩
  | @token text rest token tokens first ends _ ih =>
    obtain ⟨spelled, hwritten, hdecoded⟩ := ih
    have hplain : (∀ value, token ≠ .text value) →
        ∃ spelled, WrittenAs (text ++ rest) spelled ∧ List.Forall₂ Token.Decoded spelled (token :: tokens) :=
      fun hplain => ⟨token :: spelled, .token (.other first hplain) ends hwritten, .cons (.same hplain) hdecoded⟩
    cases first with
    | @text body cs hliteral =>
      refine ⟨.text (String.ofList body) :: spelled, .token (.text hliteral.body) trivial hwritten, ?_⟩
      refine .cons (.text ?_) hdecoded
      unfold Decodes
      rw [String.toList_ofList, String.toList_ofList]
      exact hliteral
    | _ => exact hplain nofun

end JsonText
