import Pliego.Lib.Text
import Mathlib.Data.List.DropRight

/-!
What a URL parser makes of its input before it reads it, and the scheme it finds there.
-/

namespace Url

def isC0ControlOrSpace (c : Char) : Bool :=
  c.toNat ≤ 32

def isTabOrNewline (c : Char) : Bool :=
  c = '\t' || c = '\n' || c = '\r'

def isSchemeChar (c : Char) : Bool :=
  c.isAlphanum || c = '+' || c = '-' || c = '.'

-- The parser drops controls and spaces at both ends and every tab and newline.
def clean (input : List Char) : List Char :=
  ((input.dropWhile isC0ControlOrSpace).rdropWhile isC0ControlOrSpace).filter (!isTabOrNewline ·)

def splitScheme (text : List Char) : Option (List Char × List Char) :=
  match text with
  | [] => none
  | first :: rest =>
    if first.isAlpha then
      match rest.dropWhile isSchemeChar with
      | ':' :: after => some ((first :: rest.takeWhile isSchemeChar).map Char.toLower, after)
      | _ => none
    else
      none

def scheme (input : List Char) : Option (List Char) :=
  (splitScheme (clean input)).map Prod.fst

variable {c : Char} {text input before after name : List Char}

theorem isTabOrNewline_iff : isTabOrNewline c = true ↔ c.toNat = 9 ∨ c.toNat = 10 ∨ c.toNat = 13 := by
  unfold isTabOrNewline
  simp only [Bool.or_eq_true, decide_eq_true_eq, Char.ext_iff, UInt32.ext_iff, Char.toNat, or_assoc]
  exact Iff.rfl

theorem isC0ControlOrSpace_of_tab (h : isTabOrNewline c = true) : isC0ControlOrSpace c = true := by
  rw [isTabOrNewline_iff] at h
  unfold isC0ControlOrSpace
  rw [decide_eq_true_eq]
  omega

theorem alpha_range (h : c.isAlpha = true) : (65 ≤ c.toNat ∧ c.toNat ≤ 90) ∨ (97 ≤ c.toNat ∧ c.toNat ≤ 122) := by
  unfold Char.isAlpha Char.isUpper Char.isLower at h
  simp only [Bool.or_eq_true, Bool.and_eq_true, decide_eq_true_eq, ge_iff_le, UInt32.le_iff_toNat_le] at h
  exact h

theorem schemeChar_range (h : isSchemeChar c = true)
    : (65 ≤ c.toNat ∧ c.toNat ≤ 90) ∨ (97 ≤ c.toNat ∧ c.toNat ≤ 122) ∨ (48 ≤ c.toNat ∧ c.toNat ≤ 57) ∨ c.toNat = 43
      ∨ c.toNat = 45 ∨ c.toNat = 46 := by
  unfold isSchemeChar Char.isAlphanum Char.isDigit at h
  simp only [Bool.or_eq_true, Bool.and_eq_true, decide_eq_true_eq, ge_iff_le, UInt32.le_iff_toNat_le] at h
  obtain (((halpha | hdigit) | hplus) | hminus) | hdot := h
  . have := alpha_range halpha
    omega
  . change 48 ≤ c.toNat ∧ c.toNat ≤ 57 at hdigit
    omega
  . subst hplus
    decide
  . subst hminus
    decide
  . subst hdot
    decide

theorem whitespace_of_alpha (h : c.isAlpha = true) : Text.isWhitespace c = false := by
  have := alpha_range h
  unfold Text.isWhitespace
  simp only [Bool.or_eq_false_iff, Bool.and_eq_false_iff, decide_eq_false_iff_not]
  omega

theorem isSchemeChar_of_alpha (h : c.isAlpha = true) : isSchemeChar c = true := by
  unfold isSchemeChar Char.isAlphanum
  rw [h]
  rfl

theorem splitScheme_eq_some (h : splitScheme text = some (name, after))
    : ∃ first rest, text = first :: rest ++ ':' :: after ∧ first.isAlpha = true
      ∧ (∀ c ∈ rest, isSchemeChar c = true) ∧ name = (first :: rest).map Char.toLower := by
  unfold splitScheme at h
  split at h
  . cases h
  . next first rest =>
    split at h
    . next hfirst =>
      split at h
      . next later hdrop =>
        cases h
        refine ⟨first, rest.takeWhile isSchemeChar, ?_, hfirst, fun c hc => List.mem_takeWhile_imp hc, rfl⟩
        rw [List.cons_append, ← hdrop, List.takeWhile_append_dropWhile]
      . cases h
    . cases h

theorem dropWhile_append_neg {p : Char → Bool} (hc : p c = false) (rest : List Char)
    : (before ++ c :: rest).dropWhile p = before.dropWhile p ++ c :: rest := by
  rw [List.dropWhile_append]
  split
  . next hnil =>
    rw [List.isEmpty_iff] at hnil
    rw [hnil, List.dropWhile_cons, hc]
    rfl
  . rfl

theorem rdropWhile_append_neg {p : Char → Bool} (hc : p c = false) (rest : List Char)
    : (before ++ c :: rest).rdropWhile p = before ++ c :: rest.rdropWhile p := by
  unfold List.rdropWhile
  rw [List.reverse_append, List.reverse_cons, List.append_assoc, List.singleton_append, dropWhile_append_neg hc,
    List.reverse_append, List.reverse_cons, List.reverse_reverse, List.append_assoc, List.singleton_append]

theorem scheme_eq_some (h : scheme input = some name)
    : ∃ lead first rest after, input = lead ++ first :: (rest ++ ':' :: after)
      ∧ (∀ c ∈ lead, isC0ControlOrSpace c = true) ∧ first.isAlpha = true
      ∧ (∀ c ∈ rest, isSchemeChar c = true ∨ isTabOrNewline c = true)
      ∧ name = (first :: rest.filter (!isTabOrNewline ·)).map Char.toLower := by
  unfold scheme at h
  obtain ⟨⟨name', behind⟩, hsplit, hname⟩ := Option.map_eq_some_iff.mp h
  cases hname
  obtain ⟨first, rest, htext, hfirst, hrest, hname⟩ := splitScheme_eq_some hsplit
  obtain ⟨trail, htrail⟩ := List.rdropWhile_prefix isC0ControlOrSpace (input.dropWhile isC0ControlOrSpace)
  unfold clean at htext
  rw [List.filter_eq_append_iff] at htext
  obtain ⟨front, back, hfront, hhead, hback⟩ := htext
  rw [List.filter_eq_cons_iff] at hback
  obtain ⟨tabs, later, hlater, htabs, _, _⟩ := hback
  rw [List.filter_eq_cons_iff] at hhead
  obtain ⟨skipped, body, hbody, hskipped, hkept, hrestEq⟩ := hhead
  have hinput : input.dropWhile isC0ControlOrSpace = skipped ++ first :: (body ++ (tabs ++ ':' :: (later ++ trail))) := by
    rw [← htrail, hfront, hlater, hbody]
    simp only [List.append_assoc, List.cons_append]
  -- the first character left is no control, so no tab stands before the scheme
  have hnone : skipped = [] := by
    cases hcase : skipped with
    | nil => rfl
    | cons c others =>
      have htab : isTabOrNewline c = true := by
        have hnot := hskipped c (by rw [hcase]; exact List.mem_cons_self)
        rw [Bool.not_eq_true, Bool.not_eq_false'] at hnot
        exact hnot
      have hhead := List.head?_dropWhile_not isC0ControlOrSpace input
      rw [hinput, hcase, List.cons_append, List.head?_cons] at hhead
      dsimp only at hhead
      rw [isC0ControlOrSpace_of_tab htab] at hhead
      cases hhead
  subst hnone
  refine ⟨input.takeWhile isC0ControlOrSpace, first, body ++ tabs, later ++ trail, ?_, ?_, hfirst, ?_, ?_⟩
  . rw [List.append_assoc, ← List.nil_append (first :: _), ← hinput, List.takeWhile_append_dropWhile]
  . exact fun c hc => List.mem_takeWhile_imp hc
  . intro c hc
    rw [List.mem_append] at hc
    cases hc with
    | inl hbody =>
      cases htab : isTabOrNewline c with
      | true => exact .inr rfl
      | false =>
        left
        apply hrest
        rw [← hrestEq]
        exact List.mem_filter.mpr ⟨hbody, by rw [htab]; rfl⟩
    | inr htab =>
      have hnot := htabs c htab
      rw [Bool.not_eq_true, Bool.not_eq_false'] at hnot
      exact .inr hnot
  . have htabsNil : tabs.filter (!isTabOrNewline ·) = [] := List.filter_eq_nil_iff.mpr htabs
    rw [hname, List.filter_append, htabsNil, List.append_nil, hrestEq]

end Url
