import Pliego.Lib.HtmlReads
import Pliego.Ssg.Head

/-!
The texts of a head as the tokenizer reads them: what the four escapes make of a text, and of the line breaks in it.
-/

namespace Pliego

open Html JsonText

namespace Ssg

variable {c : Char} {text xs ys : List Char} {m : List Char → Bool}

def guarded (m : List Char → Bool) (text : List Char) : List Char :=
  match text with
  | [] => []
  | c :: rest => if c = '<' && m rest then '<' :: '\\' :: guarded m rest else c :: guarded m rest

-- The author's script, with backslashes put behind some of its less-than signs.
inductive Guarded : List Char → List Char → Prop where
  | nil : Guarded [] []
  | same {c : Char} {script emitted : List Char} (others : Guarded script emitted) : Guarded (c :: script) (c :: emitted)
  | backslash {script emitted : List Char} (others : Guarded script emitted)
    : Guarded ('<' :: script) ('<' :: '\\' :: emitted)

theorem guarded_cons_of_ne (h : c ≠ '<') : guarded m (c :: text) = c :: guarded m text := by
  rw [guarded, decide_eq_false h]
  rfl

theorem guarded_pick (h : m text = true) : guarded m ('<' :: text) = '<' :: '\\' :: guarded m text := by
  rw [guarded, h]
  rfl

theorem guarded_pass (h : ¬(c = '<' ∧ m text = true)) : guarded m (c :: text) = c :: guarded m text := by
  rw [guarded]
  apply if_neg
  rw [Bool.and_eq_true, decide_eq_true_eq]
  exact h

theorem guarded_append (h : '<' ∉ xs) : guarded m (xs ++ ys) = xs ++ guarded m ys := by
  induction xs with
  | nil => rfl
  | cons c xs ih =>
    rw [List.mem_cons, not_or] at h
    rw [List.cons_append, guarded_cons_of_ne (Ne.symm h.1), ih h.2]
    rfl

theorem guarded_guarded (text : List Char) : Guarded text (guarded m text) := by
  induction text with
  | nil => exact .nil
  | cons c text ih =>
    unfold guarded
    split
    . next hpicked =>
      rw [Bool.and_eq_true, decide_eq_true_eq] at hpicked
      rw [hpicked.1]
      exact .backslash ih
    . exact .same ih

theorem take_guarded {count : Nat} (h : '<' ∉ (guarded m text).take count) : (guarded m text).take count = text.take count := by
  induction count generalizing text with
  | zero => rfl
  | succ count ih =>
    cases text with
    | nil => rfl
    | cons c text =>
      unfold guarded at h ⊢
      split at h
      . exact absurd List.mem_cons_self h
      . next hpicked =>
        rw [if_neg hpicked, List.take_succ_cons, List.take_succ_cons]
        rw [List.take_succ_cons, List.mem_cons, not_or] at h
        rw [ih h.2]

theorem take_of_plain {count : Nat} (h : '<' ∉ text.take count) : (guarded m text).take count = text.take count := by
  induction count generalizing text with
  | zero => rfl
  | succ count ih =>
    cases text with
    | nil => rfl
    | cons c text =>
      rw [List.take_succ_cons, List.mem_cons, not_or] at h
      rw [guarded_cons_of_ne (Ne.symm h.1), List.take_succ_cons, List.take_succ_cons, ih h.2]

theorem eq_of_toLower {d : Char} (h : c.toLower = d) (hd : d.isLower = false) : c = d := by
  rw [← h]
  unfold Char.toLower at h ⊢
  split
  . next hupper =>
    rw [dif_pos hupper] at h
    exfalso
    have hlow : 65 ≤ c.val.toNat := hupper.1
    have hhigh : c.val.toNat ≤ 90 := hupper.2
    have hval : d.val.toNat = c.val.toNat + 32 := by
      rw [← h]
      change (c.val + 32).toNat = _
      rw [UInt32.toNat_add]
      change (c.val.toNat + 32) % 2 ^ 32 = _
      omega
    unfold Char.isLower at hd
    rw [Bool.and_eq_false_iff, decide_eq_false_iff_not, decide_eq_false_iff_not] at hd
    have hlow' : ('a'.val ≤ d.val) := by
      change 97 ≤ d.val.toNat
      omega
    have hhigh' : (d.val ≤ 'z'.val) := by
      change d.val.toNat ≤ 122
      omega
    cases hd with
    | inl hd => exact hd hlow'
    | inr hd => exact hd hhigh'
  . rfl

theorem opensComment_iff : opensComment text = true ↔ text.take 3 = ['!', '-', '-'] := by
  unfold opensComment
  rw [List.isPrefixOf_iff_prefix, List.prefix_iff_eq_take]
  exact eq_comm

theorem opensComment_guarded : opensComment (guarded m text) = opensComment text := by
  rw [Bool.eq_iff_iff, opensComment_iff, opensComment_iff]
  constructor
  . intro h
    rw [← take_guarded (m := m) (by rw [h]; decide)]
    exact h
  . intro h
    rw [take_of_plain (by rw [h]; decide)]
    exact h

theorem not_mem_of_closesScript (h : (text.take 7).map Char.toLower = '/' :: scriptName) : '<' ∉ text.take 7 := by
  intro hmem
  have hlower := List.mem_map_of_mem (f := Char.toLower) hmem
  rw [h] at hlower
  exact absurd hlower (by decide)

theorem closesScript_guarded (h : closesScript (guarded m text) = true) : closesScript text = true := by
  unfold closesScript at h ⊢
  rw [decide_eq_true_eq] at h ⊢
  rw [← take_guarded (m := m) (not_mem_of_closesScript h)]
  exact h

theorem quiet_guarded (h : ∀ rest, closesScript rest = true ∨ opensComment rest = true → m rest = true)
    : Quiet (guarded m text) := by
  induction text with
  | nil =>
    intro front back hsplit
    cases front <;> cases hsplit
  | cons c text ih =>
    intro front back hsplit
    unfold guarded at hsplit
    split at hsplit
    . cases front with
      | nil =>
        cases hsplit
        exact ⟨rfl, rfl⟩
      | cons d front =>
        have hrest := (List.cons.inj hsplit).2
        cases front with
        | nil => cases (List.cons.inj hrest).1
        | cons e front => exact ih front back (List.cons.inj hrest).2
    . next hpicked =>
      cases front with
      | nil =>
        obtain ⟨hc, hback⟩ := List.cons.inj hsplit
        rw [hc, decide_eq_true rfl, Bool.true_and, Bool.not_eq_true] at hpicked
        rw [← hback, opensComment_guarded]
        constructor
        . cases hcloses : closesScript (guarded m text) with
          | false => rfl
          | true =>
            rw [h text (.inl (closesScript_guarded hcloses))] at hpicked
            cases hpicked
        . cases hopens : opensComment text with
          | false => rfl
          | true =>
            rw [h text (.inr hopens)] at hpicked
            cases hpicked
      | cons d front => exact ih front back (List.cons.inj hsplit).2

theorem escapeScriptEnds_eq (text : List Char) : escapeScriptEnds text = guarded closesScript text := by
  fun_induction escapeScriptEnds text with
  | case1 => rfl
  | case2 character rest hmatch ih =>
    have hlower : (character :: rest.take 7).map Char.toLower = '<' :: '/' :: scriptName := hmatch
    obtain ⟨hc, hname⟩ := List.cons.inj hlower
    have hc : character = '<' := eq_of_toLower hc rfl
    have hname : (rest.take 7).map Char.toLower = '/' :: scriptName := hname
    have hcloses : closesScript rest = true := decide_eq_true hname
    have hslash : rest.take 7 = '/' :: (rest.take 7).drop 1 := by
      cases htake : rest.take 7 with
      | nil =>
        rw [htake] at hname
        cases hname
      | cons d others =>
        rw [htake, List.map_cons] at hname
        rw [eq_of_toLower (List.cons.inj hname).1 rfl]
        rfl
    have hrest : guarded closesScript rest = rest.take 7 ++ guarded closesScript (rest.drop 7) := by
      rw [← guarded_append (not_mem_of_closesScript hname), List.take_append_drop]
    rw [if_pos hmatch, ih, hc, guarded_pick hcloses, hrest, List.take_succ_cons, List.drop_succ_cons]
    conv =>
      rhs
      rw [hslash]
    rfl
  | case3 c rest hmatch ih =>
    rw [if_neg hmatch, ih, guarded_pass]
    rintro ⟨hc, hcloses⟩
    apply hmatch
    rw [List.take_succ_cons, List.map_cons, hc, of_decide_eq_true hcloses]
    rfl

theorem replaceText_eq (text : List Char)
    : replaceText "<!--".toList "<\\!--".toList text = guarded opensComment text := by
  fun_induction replaceText "<!--".toList "<\\!--".toList text with
  | case1 => rfl
  | case2 c rest hmatch ih =>
    obtain ⟨later, hlater⟩ := List.isPrefixOf_iff_prefix.mp hmatch
    obtain ⟨hc, hrest⟩ := List.cons.inj hlater
    rw [ih, ← hc, ← hrest]
    rfl
  | case3 c rest hmatch ih =>
    rw [ih, guarded_pass]
    rintro ⟨hc, hopens⟩
    apply hmatch
    obtain ⟨later, hlater⟩ := List.isPrefixOf_iff_prefix.mp hopens
    apply List.isPrefixOf_iff_prefix.mpr
    exact ⟨later, by rw [hc, ← hlater]; rfl⟩

theorem escapeInlineScript_eq (text : List Char)
    : escapeInlineScript text = guarded (fun rest => closesScript rest || opensComment rest) text := by
  unfold escapeInlineScript
  rw [escapeScriptEnds_eq, replaceText_eq]
  induction text with
  | nil => rfl
  | cons c text ih =>
    by_cases hc : c = '<'
    . subst hc
      cases hcloses : closesScript text with
      | true =>
        rw [guarded_pick hcloses, guarded_pass (by rw [opensComment]; exact fun hboth => nomatch hboth.2),
          guarded_cons_of_ne (by decide), ih, guarded_pick]
        rw [hcloses, Bool.true_or]
      | false =>
        rw [@guarded_pass _ _ closesScript (by rw [hcloses]; exact fun hboth => nomatch hboth.2)]
        cases hopens : opensComment text with
        | true =>
          rw [guarded_pick (by rw [opensComment_guarded]; exact hopens), ih, guarded_pick]
          rw [hopens, Bool.or_true]
        | false =>
          rw [guarded_pass (by rw [opensComment_guarded, hopens]; exact fun hboth => nomatch hboth.2), ih, guarded_pass]
          rw [hcloses, hopens]
          exact fun hboth => nomatch hboth.2
    . rw [guarded_cons_of_ne hc, guarded_cons_of_ne hc, guarded_cons_of_ne hc, ih]

theorem quiet_escapeInlineScript (text : List Char) : Quiet (escapeInlineScript text) := by
  rw [escapeInlineScript_eq]
  apply quiet_guarded
  intro rest hrest
  exact Bool.or_eq_true_iff.mpr hrest

theorem guarded_escapeInlineScript (text : List Char) : Guarded text (escapeInlineScript text) := by
  rw [escapeInlineScript_eq]
  exact guarded_guarded text

def textEscape (c : Char) : List Char :=
  if c = '&' then "&amp;".toList
  else if c = '<' then "&lt;".toList
  else if c = '>' then "&gt;".toList
  else [c]

def attributeEscape (c : Char) : List Char :=
  if c = '"' then "&quot;".toList else textEscape c

theorem escapeText_eq (text : List Char) : escapeText text = text.flatMap textEscape := by
  unfold escapeText replaceChar
  rw [List.flatMap_assoc, List.flatMap_assoc]
  congr 1
  funext c
  unfold textEscape
  by_cases hamp : c = '&'
  . rw [hamp]
    rfl
  . rw [if_neg hamp, if_neg hamp, List.flatMap_singleton]
    by_cases hlt : c = '<'
    . rw [hlt]
      rfl
    . rw [if_neg hlt, if_neg hlt, List.flatMap_singleton]

theorem escapeAttribute_eq (text : List Char) : escapeAttribute text = text.flatMap attributeEscape := by
  unfold escapeAttribute replaceChar
  rw [escapeText_eq, List.flatMap_assoc]
  congr 1
  funext c
  unfold attributeEscape
  by_cases hquote : c = '"'
  . rw [hquote]
    rfl
  . rw [if_neg hquote]
    unfold textEscape
    split
    . rfl
    . split
      . rfl
      . split
        . rfl
        . rw [List.flatMap_singleton, if_neg hquote]

theorem written_textEscape {stops : Char} (hstops : c = stops → textEscape c ≠ [c]) {value : List Char}
    (h : Written stops text value)
    : Written stops (textEscape c ++ text) (c :: value) := by
  unfold textEscape at hstops ⊢
  split
  . next hc =>
    rw [hc]
    exact .amp h
  . next hamp =>
    split
    . next hc =>
      rw [hc]
      exact .lt h
    . split
      . next hc =>
        rw [hc]
        exact .gt h
      . next hlt hgt =>
        refine .plain hamp ?_ h
        intro hsame
        rw [if_neg hamp, if_neg hlt, if_neg hgt] at hstops
        exact hstops hsame rfl

theorem written_escapeText (text : List Char) : Written '<' (escapeText text) text := by
  rw [escapeText_eq]
  induction text with
  | nil => exact .nil
  | cons c text ih =>
    rw [List.flatMap_cons]
    refine written_textEscape ?_ ih
    rintro rfl
    decide

theorem written_escapeAttribute (text : List Char) : Written '"' (escapeAttribute text) text := by
  rw [escapeAttribute_eq]
  induction text with
  | nil => exact .nil
  | cons c text ih =>
    rw [List.flatMap_cons]
    unfold attributeEscape
    split
    . next hc =>
      rw [hc]
      exact .quot ih
    . next hc => exact written_textEscape (fun hsame => absurd hsame hc) ih

theorem unbroken_of_all {chars : List Char} (h : chars.all (fun d => d ≠ '\r' && d ≠ '\n') = true)
    : ∀ d ∈ chars, d ≠ '\r' ∧ d ≠ '\n' := by
  intro d hd
  have hboth := List.all_eq_true.mp h d hd
  rw [Bool.and_eq_true, decide_eq_true_eq, decide_eq_true_eq] at hboth
  exact hboth

theorem newlines_textEscape (c : Char) (hreturn : c ≠ '\r') (hnewline : c ≠ '\n')
    : textEscape c ≠ [] ∧ ∀ d ∈ textEscape c, d ≠ '\r' ∧ d ≠ '\n' := by
  unfold textEscape
  split
  . exact ⟨List.cons_ne_nil _ _, unbroken_of_all rfl⟩
  . split
    . exact ⟨List.cons_ne_nil _ _, unbroken_of_all rfl⟩
    . split
      . exact ⟨List.cons_ne_nil _ _, unbroken_of_all rfl⟩
      . refine ⟨List.cons_ne_nil _ _, ?_⟩
        intro d hd
        rw [List.mem_singleton.mp hd]
        exact ⟨hreturn, hnewline⟩

theorem normalizeNewlines_escapeText (text : List Char)
    : normalizeNewlines (escapeText text) = escapeText (normalizeNewlines text) := by
  rw [escapeText_eq, escapeText_eq]
  exact normalizeNewlines_flatMap rfl rfl newlines_textEscape

theorem normalizeNewlines_escapeAttribute (text : List Char)
    : normalizeNewlines (escapeAttribute text) = escapeAttribute (normalizeNewlines text) := by
  rw [escapeAttribute_eq, escapeAttribute_eq]
  apply normalizeNewlines_flatMap
  . rfl
  . rfl
  . intro c hreturn hnewline
    unfold attributeEscape
    split
    . exact ⟨List.cons_ne_nil _ _, unbroken_of_all rfl⟩
    . exact newlines_textEscape c hreturn hnewline

def jsonEscape (c : Char) : List Char :=
  (CanonicalJson.escapeChar c).flatMap fun c => if c = '<' then "\\u003c".toList else [c]

theorem jsonLdText_eq (item : JsonLd) : jsonLdText item = compact jsonEscape item.value := by
  apply flatMap_compact _ item.proper
  intro c hc
  apply if_neg
  rintro rfl
  cases hc

def isVisible (c : Char) : Bool :=
  c ≠ '<' && 32 ≤ c.toNat

theorem isVisible_digitChar {n : Nat} (h : n < 16) : isVisible (Nat.digitChar n) = true := by
  revert n
  decide

theorem escapeChar_cases (c : Char)
    : CanonicalJson.escapeChar c = [c] ∧ 32 ≤ c.toNat ∨ (CanonicalJson.escapeChar c).all isVisible = true := by
  unfold CanonicalJson.escapeChar
  split
  . exact .inr rfl
  . split
    . exact .inr rfl
    . split
      . exact .inr rfl
      . split
        . exact .inr rfl
        . split
          . exact .inr rfl
          . split
            . exact .inr rfl
            . split
              . exact .inr rfl
              . split
                . next hcontrol =>
                  right
                  rw [List.all_cons, List.all_cons, List.all_cons, List.all_cons, List.all_cons, List.all_cons,
                    isVisible_digitChar (by omega), isVisible_digitChar (by omega)]
                  rfl
                . next hcontrol => exact .inl ⟨rfl, Nat.not_lt.mp hcontrol⟩

theorem jsonEscape_visible (c : Char) : ∀ d ∈ jsonEscape c, isVisible d = true := by
  intro d hd
  obtain ⟨e, he, hd⟩ := List.mem_flatMap.mp hd
  split at hd
  . have hall : "\\u003c".toList.all isVisible = true := rfl
    exact List.all_eq_true.mp hall d hd
  . next hne =>
    rw [List.mem_singleton.mp hd]
    cases escapeChar_cases c with
    | inl hplain =>
      rw [hplain.1, List.mem_singleton] at he
      unfold isVisible
      rw [decide_eq_true hne, he, decide_eq_true hplain.2]
      rfl
    | inr hall => exact List.all_eq_true.mp hall e he

theorem spelling_jsonEscape (c : Char) : Spelling (jsonEscape c) c := by
  have hspelling := CanonicalJson.spelling_escapeChar c
  unfold jsonEscape
  by_cases hc : c = '<'
  . rw [hc]
    exact Spelling.unit (rfl : hexUnit '0' '0' '3' 'c' = some 60) rfl rfl
  . rw [flatMap_fixed]
    . exact hspelling
    . intro d hd
      apply if_neg
      cases escapeChar_cases c with
      | inl hplain =>
        rw [hplain.1] at hd
        rw [List.mem_singleton.mp hd]
        exact hc
      | inr hall =>
        rintro rfl
        cases List.all_eq_true.mp hall _ hd

theorem isFixed_control : ∀ n < 32, isFixed (Char.ofNat n) = false := by
  decide

theorem isVisible_of_isFixed (h : isFixed c = true) : isVisible c = true := by
  unfold isVisible
  rw [Bool.and_eq_true, decide_eq_true_eq, decide_eq_true_eq]
  constructor
  . rintro rfl
    cases h
  . by_contra hcontrol
    have hfixed := isFixed_control c.toNat (Nat.not_le.mp hcontrol)
    rw [Char.ofNat_toNat, h] at hfixed
    cases hfixed

theorem jsonLdText_visible (item : JsonLd) : ∀ c ∈ jsonLdText item, isVisible c = true := by
  rw [jsonLdText_eq]
  exact compact_forall jsonEscape_visible (fun _ => isVisible_of_isFixed) item.proper

theorem reads_jsonLdText (item : JsonLd) : JsonText.Reads (Bytes.utf8 (String.ofList (jsonLdText item))) item.value := by
  rw [jsonLdText_eq]
  exact reads_compact spelling_jsonEscape item.proper

end Ssg

end Pliego
