import Pliego.Lib.Url

/-!
How a browser separates the candidates of a `srcset` attribute.
-/

namespace Srcset

def isAsciiWhitespace (c : Char) : Bool :=
  c.toNat = 9 || c.toNat = 10 || c.toNat = 12 || c.toNat = 13 || c.toNat = 32

structure Candidate where
  url : List Char
  descriptors : List Char
deriving DecidableEq

-- The text of the descriptors, and what is behind the comma that ends them.
def descriptors (parens : Bool) (text : List Char) : List Char × List Char :=
  match text with
  | [] => ([], [])
  | c :: rest =>
    if !parens && c == ',' then
      ([], rest)
    else
      let later := descriptors (if parens then c != ')' else c == '(') rest
      (c :: later.1, later.2)

theorem descriptors_length (parens : Bool) (text : List Char) : (descriptors parens text).2.length ≤ text.length := by
  induction text generalizing parens with
  | nil => exact Nat.le_refl 0
  | cons c rest ih =>
    unfold descriptors
    split
    . exact Nat.le_succ _
    . exact (ih _).trans (Nat.le_succ _)

def isSkipped (c : Char) : Bool :=
  isAsciiWhitespace c || c == ','

def candidates (text : List Char) : List Candidate :=
  match _h : text.dropWhile isSkipped with
  | [] => []
  | c :: rest =>
    let url := c :: rest.takeWhile (!isAsciiWhitespace ·)
    let behind := rest.dropWhile (!isAsciiWhitespace ·)
    if url.getLast? = some ',' then
      ⟨url.rdropWhile (· == ','), []⟩ :: candidates behind
    else
      ⟨url, (descriptors false behind).1⟩ :: candidates (descriptors false behind).2
termination_by text.length
decreasing_by
  . have hskip := (List.dropWhile_suffix isSkipped (l := text)).length_le
    have hbehind := (List.dropWhile_suffix (!isAsciiWhitespace ·) (l := rest)).length_le
    rw [_h, List.length_cons] at hskip
    omega
  . have hskip := (List.dropWhile_suffix isSkipped (l := text)).length_le
    have hbehind := (List.dropWhile_suffix (!isAsciiWhitespace ·) (l := rest)).length_le
    have hdescriptors := descriptors_length false (rest.dropWhile (!isAsciiWhitespace ·))
    rw [_h, List.length_cons] at hskip
    omega

theorem mem_candidates {c : Char} {text rest : List Char} (hskip : text.dropWhile isSkipped = c :: rest)
    (hlast : (c :: rest.takeWhile (!isAsciiWhitespace ·)).getLast? ≠ some ',')
    : ⟨c :: rest.takeWhile (!isAsciiWhitespace ·), (descriptors false (rest.dropWhile (!isAsciiWhitespace ·))).1⟩
      ∈ candidates text := by
  rw [candidates]
  split
  . next hnil =>
    rw [hskip] at hnil
    cases hnil
  . next c' rest' hcons =>
    rw [hskip] at hcons
    cases hcons
    dsimp only
    rw [if_neg hlast]
    exact List.mem_cons_self

-- A place where a candidate begins: behind nothing or a comma, and white space.
structure StandsIn (url text : List Char) (front blank back : List Char) : Prop where
  text : text = front ++ (blank ++ (url ++ back))
  front : front = [] ∨ ∃ before, front = before ++ [',']
  blank : ∀ c ∈ blank, isAsciiWhitespace c = true
  url : ∀ c ∈ url, isAsciiWhitespace c = false

variable {text url front blank back : List Char} {c : Char} {parens : Bool}

theorem descriptors_behind (parens : Bool) (text : List Char)
    : (descriptors parens text).2 = [] ∨ ∃ before, text = before ++ ',' :: (descriptors parens text).2 := by
  induction text generalizing parens with
  | nil => exact .inl rfl
  | cons c rest ih =>
    unfold descriptors
    split
    . next hcomma =>
      rw [Bool.and_eq_true, beq_iff_eq] at hcomma
      exact .inr ⟨[], by rw [hcomma.2]; rfl⟩
    . dsimp only
      cases ih (if parens then c != ')' else c == '(') with
      | inl hnil => exact .inl hnil
      | inr hbefore =>
        obtain ⟨before, hbefore⟩ := hbefore
        exact .inr ⟨c :: before, by rw [List.cons_append, ← hbefore]⟩

theorem skipped_split {skipped : List Char} (h : ∀ c ∈ skipped, isSkipped c = true)
    : ∃ front blank, skipped = front ++ blank ∧ (front = [] ∨ ∃ before, front = before ++ [','])
      ∧ ∀ c ∈ blank, isAsciiWhitespace c = true := by
  refine ⟨skipped.rdropWhile isAsciiWhitespace, skipped.rtakeWhile isAsciiWhitespace, ?_, ?_, ?_⟩
  . exact List.rdropWhile_append_rtakeWhile.symm
  . rcases List.eq_nil_or_concat' (skipped.rdropWhile isAsciiWhitespace) with hnil | ⟨before, last, hlast⟩
    . exact .inl hnil
    . refine .inr ⟨before, ?_⟩
      have hmem : last ∈ skipped := by
        apply (List.rdropWhile_prefix isAsciiWhitespace skipped).subset
        rw [hlast]
        exact List.mem_append_right _ (List.mem_singleton_self last)
      have hblank : isAsciiWhitespace last = false := by
        have hne : skipped.rdropWhile isAsciiWhitespace ≠ [] := by
          rw [hlast]
          exact List.concat_ne_nil last before
        have hnot := List.rdropWhile_last_not isAsciiWhitespace skipped hne
        simp only [hlast, List.getLast_append_singleton] at hnot
        exact Bool.eq_false_iff.mpr hnot
      have hcomma := h last hmem
      unfold isSkipped at hcomma
      rw [hblank, Bool.false_or, beq_iff_eq] at hcomma
      rw [hlast, hcomma]
  . exact fun c hc => List.mem_rtakeWhile_imp hc

theorem StandsIn.behind {before text : List Char} (h : StandsIn url text front blank back)
    : StandsIn url (before ++ ',' :: text) (before ++ ',' :: front) blank back := by
  refine ⟨by rw [h.text, List.append_assoc, List.cons_append], .inr ?_, h.blank, h.url⟩
  cases h.front with
  | inl hnil => exact ⟨before, by rw [hnil]⟩
  | inr hcomma =>
    obtain ⟨inner, hinner⟩ := hcomma
    exact ⟨before ++ ',' :: inner, by rw [hinner, List.append_assoc, List.cons_append]⟩

theorem run_stands {rest : List Char} (hskip : text.dropWhile isSkipped = c :: rest)
    : ∃ front blank, StandsIn (c :: rest.takeWhile (!isAsciiWhitespace ·)) text front blank
      (rest.dropWhile (!isAsciiWhitespace ·)) := by
  obtain ⟨front, blank, hsplit, hfront, hblank⟩ :=
    @skipped_split (text.takeWhile isSkipped) (fun c hc => List.mem_takeWhile_imp hc)
  have hfirst : isAsciiWhitespace c = false := by
    have hnot := List.head?_dropWhile_not isSkipped text
    rw [hskip, List.head?_cons] at hnot
    dsimp only at hnot
    unfold isSkipped at hnot
    rw [Bool.or_eq_false_iff] at hnot
    exact hnot.1
  refine ⟨front, blank, ?_, hfront, hblank, ?_⟩
  . rw [List.cons_append, List.takeWhile_append_dropWhile, ← List.append_assoc, ← hsplit, ← hskip,
      List.takeWhile_append_dropWhile]
  . intro d hd
    cases List.mem_cons.mp hd with
    | inl hsame => rw [hsame, hfirst]
    | inr hmem => simpa only [Bool.not_eq_true'] using List.mem_takeWhile_imp hmem

theorem candidates_stand {candidate : Candidate} (h : candidate ∈ candidates text)
    : ∃ front blank back, StandsIn candidate.url text front blank back := by
  fun_induction candidates text with
  | case1 text hskip => cases h
  | case2 text c rest hskip url behind hlast ih =>
    obtain ⟨front, blank, hstands⟩ := run_stands hskip
    cases List.mem_cons.mp h with
    | inl hsame =>
      obtain ⟨commas, hcommas⟩ := List.rdropWhile_prefix (· == ',') url
      refine ⟨front, blank, commas ++ behind, ?_, hstands.front, hstands.blank, fun d hd => ?_⟩
      . rw [hsame, ← List.append_assoc _ commas, hcommas]
        exact hstands.text
      . rw [hsame] at hd
        exact hstands.url d ((List.rdropWhile_prefix (· == ',') url).subset hd)
    | inr hmem =>
      obtain ⟨front', blank', back', hlater⟩ := ih hmem
      obtain ⟨before, hbefore⟩ := List.getLast?_eq_some_iff.mp hlast
      have htext : text = (front ++ (blank ++ before)) ++ ',' :: behind := by
        have htext := hstands.text
        change text = front ++ (blank ++ (url ++ behind)) at htext
        rw [htext, hbefore]
        simp only [List.append_assoc, List.singleton_append]
      rw [htext]
      exact ⟨_, blank', back', hlater.behind⟩
  | case3 text c rest hskip url behind hlast ih =>
    obtain ⟨front, blank, hstands⟩ := run_stands hskip
    cases List.mem_cons.mp h with
    | inl hsame =>
      rw [hsame]
      exact ⟨front, blank, behind, hstands⟩
    | inr hmem =>
      obtain ⟨front', blank', back', hlater⟩ := ih hmem
      cases descriptors_behind false behind with
      | inl hnil =>
        rw [hnil] at hmem
        unfold candidates at hmem
        cases hmem
      | inr hbefore =>
        obtain ⟨before, hbefore⟩ := hbefore
        have htext : text = (front ++ (blank ++ (url ++ before))) ++ ',' :: (descriptors false behind).2 := by
          have htext := hstands.text
          change text = front ++ (blank ++ (url ++ behind)) at htext
          rw [htext]
          conv_lhs => rw [hbefore]
          simp only [List.append_assoc]
        rw [htext]
        exact ⟨_, blank', back', hlater.behind⟩

end Srcset
