import Pliego.Dom.Errors
import Pliego.Lib.Srcset

/-!
The check that `pliego-dom` makes of an attribute value, and what a browser makes of a value that passes it.
-/

namespace Pliego

namespace Dom

def eqIgnoreAsciiCase (a b : List Char) : Bool :=
  a.map Char.toLower == b.map Char.toLower

def isAsciiControl (c : Char) : Bool :=
  c.toNat < 32 || c.toNat = 127

def isSrcset (name : String) : Bool :=
  eqIgnoreAsciiCase name.toList "srcset".toList

def isUrlAttribute (name : String) : Bool :=
  ["href", "src", "action", "formaction", "poster", "cite", "background", "xlink:href"].any
    fun candidate => eqIgnoreAsciiCase name.toList candidate.toList

def normalizedCharacter (index : Nat) (chars : List Char) : Option (Nat × Char) :=
  match chars with
  | [] => none
  | c :: rest => if c.toNat = 0 ∨ c = '\r' then some (index, c) else normalizedCharacter (index + c.utf8Size) rest

def explicitUrlScheme (scheme chars : List Char) : Option (List Char) :=
  match chars with
  | [] => none
  | c :: rest =>
    if c = ' ' || isAsciiControl c then
      explicitUrlScheme scheme rest
    else if c = ':' then
      if scheme.isEmpty then none else some scheme
    else if c = '/' || c = '?' || c = '#' then
      none
    else
      let valid := if scheme.isEmpty then c.isAlpha else c.isAlphanum || (c = '+' || c = '-' || c = '.')
      if !valid then
        none
      else
        explicitUrlScheme (if scheme.length < 32 then scheme ++ [c.toLower] else scheme) rest

def allowedUrlSchemes : List (List Char) :=
  ["http".toList, "https".toList, "mailto".toList, "tel".toList]

def validateUrlScheme (name : String) (value : List Char) : Except DomError Unit :=
  match explicitUrlScheme [] value with
  | none => .ok ()
  | some scheme =>
    if allowedUrlSchemes.any fun allowed => eqIgnoreAsciiCase scheme allowed then
      .ok ()
    else
      .error (.invalidAttributeValue name (.disallowedUrlScheme (String.ofList scheme)))

def firstWord (candidate : List Char) : Option (List Char) :=
  let word := (candidate.dropWhile Text.isWhitespace).takeWhile (!Text.isWhitespace ·)
  if word.isEmpty then none else some word

def validateSrcset (name : String) (candidates : List (List Char)) : Except DomError Unit :=
  match candidates with
  | [] => .ok ()
  | candidate :: rest =>
    match firstWord candidate with
    | none => validateSrcset name rest
    | some url =>
      match validateUrlScheme name url with
      | .error error => .error error
      | .ok _ => validateSrcset name rest

def validateAttributeValue (name value : String) : Except DomError Unit :=
  match normalizedCharacter 0 value.toList with
  | some (index, character) => .error (.invalidAttributeValue name (.parserNormalizedCharacter index character))
  | none =>
    if isSrcset name then
      validateSrcset name (value.toList.splitOn ',')
    else if isUrlAttribute name then
      validateUrlScheme name value.toList
    else
      .ok ()

/-
Schemes
-/

-- A browser finds no scheme, or one of the four.
def AllowedScheme (url : List Char) : Prop :=
  ∀ scheme, Url.scheme url = some scheme → scheme ∈ allowedUrlSchemes

section Schemes

variable {name : String} {scheme lead rest after url found : List Char} {first c : Char}

theorem isAsciiControl_of_control (h : Url.isC0ControlOrSpace c = true) : (decide (c = ' ') || isAsciiControl c) = true := by
  unfold Url.isC0ControlOrSpace at h
  rw [decide_eq_true_eq] at h
  unfold isAsciiControl
  by_cases hspace : c.toNat = 32
  . have hc : c = ' ' := Char.ext (UInt32.toNat.inj hspace)
    rw [hc]
    rfl
  . have hsmall : c.toNat < 32 := by omega
    simp [hsmall]

theorem explicitUrlScheme_control (h : Url.isC0ControlOrSpace c = true)
    : explicitUrlScheme scheme (c :: rest) = explicitUrlScheme scheme rest := by
  rw [explicitUrlScheme, if_pos (isAsciiControl_of_control h)]

theorem explicitUrlScheme_lead (h : ∀ c ∈ lead, Url.isC0ControlOrSpace c = true)
    : explicitUrlScheme scheme (lead ++ rest) = explicitUrlScheme scheme rest := by
  induction lead with
  | nil => rfl
  | cons c lead ih =>
    rw [List.cons_append, explicitUrlScheme_control (h c List.mem_cons_self)]
    exact ih fun d hd => h d (List.mem_cons_of_mem c hd)

theorem explicitUrlScheme_schemeChar (hc : Url.isSchemeChar c = true) (hfirst : scheme = [] → c.isAlpha = true)
    : explicitUrlScheme scheme (c :: rest)
      = explicitUrlScheme (if scheme.length < 32 then scheme ++ [c.toLower] else scheme) rest := by
  have hrange := Url.schemeChar_range hc
  have hcontrol : (decide (c = ' ') || isAsciiControl c) = false := by
    unfold isAsciiControl
    simp only [Bool.or_eq_false_iff, decide_eq_false_iff_not]
    refine ⟨?_, by omega, by omega⟩
    rintro rfl
    revert hrange
    decide
  have hcolon : c ≠ ':' := by
    rintro rfl
    revert hrange
    decide
  have hboundary : (decide (c = '/') || decide (c = '?') || decide (c = '#')) = false := by
    simp only [Bool.or_eq_false_iff, decide_eq_false_iff_not]
    refine ⟨⟨?_, ?_⟩, ?_⟩ <;> rintro rfl <;> revert hrange <;> decide
  have hvalid : (if scheme.isEmpty = true then c.isAlpha
      else c.isAlphanum || (decide (c = '+') || decide (c = '-') || decide (c = '.'))) = true := by
    cases scheme with
    | nil => exact hfirst rfl
    | cons d scheme =>
      unfold Url.isSchemeChar at hc
      simpa only [List.isEmpty_cons, Bool.false_eq_true, if_false, Bool.or_assoc] using hc
  rw [explicitUrlScheme, if_neg (Bool.eq_false_iff.mp hcontrol), if_neg hcolon, if_neg (Bool.eq_false_iff.mp hboundary)]
  dsimp only
  rw [hvalid]
  rfl

theorem explicitUrlScheme_rest (hne : scheme ≠ []) (hlength : scheme.length ≤ 32)
    (hrest : ∀ c ∈ rest, Url.isSchemeChar c = true ∨ Url.isTabOrNewline c = true)
    : explicitUrlScheme scheme (rest ++ ':' :: after)
      = some ((scheme ++ (rest.filter (!Url.isTabOrNewline ·)).map Char.toLower).take 32) := by
  induction rest generalizing scheme with
  | nil =>
    rw [List.filter_nil, List.map_nil, List.append_nil, List.take_of_length_le hlength, List.nil_append, explicitUrlScheme,
      if_neg (by decide), if_pos rfl, if_neg (by simpa using hne)]
  | cons c rest ih =>
    have hlater : ∀ d ∈ rest, Url.isSchemeChar d = true ∨ Url.isTabOrNewline d = true :=
      fun d hd => hrest d (List.mem_cons_of_mem c hd)
    cases htab : Url.isTabOrNewline c with
    | true =>
      rw [List.cons_append, explicitUrlScheme_control (Url.isC0ControlOrSpace_of_tab htab), ih hne hlength hlater,
        List.filter_cons_of_neg (by simp [htab])]
    | false =>
      have hc : Url.isSchemeChar c = true := by
        cases hrest c List.mem_cons_self with
        | inl hc => exact hc
        | inr hother =>
          rw [htab] at hother
          cases hother
      rw [List.cons_append, explicitUrlScheme_schemeChar hc (fun hnil => absurd hnil hne),
        List.filter_cons_of_pos (by simp [htab]), List.map_cons]
      by_cases hshort : scheme.length < 32
      . rw [if_pos hshort, ih (List.concat_ne_nil _ _) (by rw [List.length_append]; exact hshort) hlater, List.append_assoc,
          List.singleton_append]
      . rw [if_neg hshort, ih hne hlength hlater, List.take_append_of_le_length (by omega),
          List.take_append_of_le_length (by omega)]

theorem explicitUrlScheme_eq (hlead : ∀ c ∈ lead, Url.isC0ControlOrSpace c = true) (hfirst : first.isAlpha = true)
    (hrest : ∀ c ∈ rest, Url.isSchemeChar c = true ∨ Url.isTabOrNewline c = true)
    : explicitUrlScheme [] (lead ++ first :: (rest ++ ':' :: after))
      = some (((first :: rest.filter (!Url.isTabOrNewline ·)).map Char.toLower).take 32) := by
  rw [explicitUrlScheme_lead hlead, explicitUrlScheme_schemeChar (Url.isSchemeChar_of_alpha hfirst) (fun _ => hfirst)]
  exact explicitUrlScheme_rest (List.concat_ne_nil _ _) (Nat.le_of_ble_eq_true rfl) hrest

theorem toLower_toLower (c : Char) : c.toLower.toLower = c.toLower := by
  have hnot : ¬ (c.toLower.val ≥ 'A'.val ∧ c.toLower.val ≤ 'Z'.val) := by
    unfold Char.toLower
    split
    . next hupper =>
      have hlow : 65 ≤ c.val.toNat := hupper.1
      have hhigh : c.val.toNat ≤ 90 := hupper.2
      have hval : (c.val + 32).toNat = c.val.toNat + 32 := by
        rw [UInt32.toNat_add]
        exact Nat.mod_eq_of_lt (by omega : c.val.toNat + 32 < 2 ^ 32)
      intro h
      have hlate : (c.val + 32).toNat ≤ 90 := h.2
      omega
    . next hlower => exact hlower
  rw [Char.toLower, dif_neg hnot]

theorem mem_allowedUrlSchemes (h : validateUrlScheme name url = .ok ())
    (hfound : explicitUrlScheme [] url = some ((found.map Char.toLower).take 32))
    : found.map Char.toLower ∈ allowedUrlSchemes := by
  unfold validateUrlScheme at h
  rw [hfound] at h
  dsimp only at h
  split at h
  . next hany =>
    obtain ⟨allowed, hmem, heq⟩ := List.any_eq_true.mp hany
    unfold eqIgnoreAsciiCase at heq
    have hlower : Char.toLower ∘ Char.toLower = Char.toLower := funext toLower_toLower
    have hallowed : ∀ allowed ∈ allowedUrlSchemes, allowed.map Char.toLower = allowed ∧ allowed.length < 32 := by
      decide
    obtain ⟨hsame, hshort⟩ := hallowed allowed hmem
    rw [beq_iff_eq, hsame, ← List.map_take, List.map_map, hlower] at heq
    have hlength := congrArg List.length heq
    rw [List.length_map, List.length_take] at hlength
    rw [List.take_of_length_le (by omega)] at heq
    rw [heq]
    exact hmem
  . cases h

theorem allowed_of_validateUrlScheme (h : validateUrlScheme name url = .ok ()) : AllowedScheme url := by
  intro scheme hscheme
  obtain ⟨lead, first, rest, after, rfl, hlead, hfirst, hrest, rfl⟩ := Url.scheme_eq_some hscheme
  exact mem_allowedUrlSchemes h (explicitUrlScheme_eq hlead hfirst hrest)

end Schemes

/-
Candidates
-/

section Candidates

variable {name value : String} {chars front tail blank lead rest after url found : List Char} {first c : Char}

theorem head_splitOn (tail : List Char) : (tail.splitOn ',').head? = some (tail.takeWhile (· != ',')) := by
  induction tail with
  | nil => rfl
  | cons c tail ih =>
    rw [List.splitOn_cons_eq_if_modifyHead, List.takeWhile_cons]
    cases hcomma : c == ',' with
    | true =>
      rw [bne, hcomma]
      rfl
    | false =>
      rw [bne, hcomma, if_neg (by decide), List.head?_modifyHead, ih]
      rfl

theorem mem_splitOn (h : front = [] ∨ ∃ before, front = before ++ [','])
    : tail.takeWhile (· != ',') ∈ (front ++ tail).splitOn ',' := by
  have htail : tail.takeWhile (· != ',') ∈ tail.splitOn ',' := List.mem_of_head? (head_splitOn tail)
  cases h with
  | inl hnil =>
    rw [hnil]
    exact htail
  | inr hbefore =>
    obtain ⟨before, rfl⟩ := hbefore
    rw [List.append_assoc, List.singleton_append, List.splitOn_append_cons_self]
    exact List.mem_append_right _ htail

theorem validateSrcset_ok {candidates : List (List Char)} (h : validateSrcset name candidates = .ok ())
    : ∀ candidate ∈ candidates, ∀ word, firstWord candidate = some word → validateUrlScheme name word = .ok () := by
  induction candidates with
  | nil => nofun
  | cons candidate rest ih =>
    unfold validateSrcset at h
    cases hfirst : firstWord candidate with
    | none =>
      rw [hfirst] at h
      intro other hmem word hword
      cases List.mem_cons.mp hmem with
      | inl hsame =>
        rw [hsame, hfirst] at hword
        cases hword
      | inr hmem => exact ih h other hmem word hword
    | some url =>
      rw [hfirst] at h
      dsimp only at h
      cases hurl : validateUrlScheme name url with
      | error error =>
        rw [hurl] at h
        cases h
      | ok result =>
        rw [hurl] at h
        intro other hmem word hword
        cases List.mem_cons.mp hmem with
        | inl hsame =>
          rw [hsame, hfirst] at hword
          cases hword
          exact hurl
        | inr hmem => exact ih h other hmem word hword

-- A URL whose leading controls hold a vertical tab behind another control: the check takes the tab for white space and
-- reads no further, a browser drops it with the others.
def HidesWord (url : List Char) : Prop :=
  '\x0b' ∈ (url.dropWhile (· == '\x0b')).takeWhile Url.isC0ControlOrSpace

theorem verticalTab_of_whitespace (h : Text.isWhitespace c = true) (hascii : Srcset.isAsciiWhitespace c = false)
    (hcontrol : Url.isC0ControlOrSpace c = true)
    : c = '\x0b' := by
  unfold Text.isWhitespace at h
  unfold Srcset.isAsciiWhitespace at hascii
  unfold Url.isC0ControlOrSpace at hcontrol
  simp only [Bool.or_eq_true, Bool.and_eq_true, decide_eq_true_eq] at h hcontrol
  simp only [Bool.or_eq_false_iff, decide_eq_false_iff_not] at hascii
  have hcode : c.toNat = 11 := by omega
  exact Char.ext (UInt32.toNat.inj hcode)

theorem whitespace_of_ascii (h : Srcset.isAsciiWhitespace c = true) : Text.isWhitespace c = true := by
  unfold Srcset.isAsciiWhitespace at h
  unfold Text.isWhitespace
  simp only [Bool.or_eq_true, Bool.and_eq_true, decide_eq_true_eq] at h ⊢
  omega

theorem whitespace_of_schemeChar (h : Url.isSchemeChar c = true) : Text.isWhitespace c = false := by
  have hrange := Url.schemeChar_range h
  unfold Text.isWhitespace
  simp only [Bool.or_eq_false_iff, Bool.and_eq_false_iff, decide_eq_false_iff_not]
  omega

theorem dropWhile_lead (hlead : ∀ c ∈ lead, Url.isC0ControlOrSpace c = true)
    (hascii : ∀ c ∈ lead, Srcset.isAsciiWhitespace c = false)
    : lead.dropWhile Text.isWhitespace = lead.dropWhile (· == '\x0b') := by
  induction lead with
  | nil => rfl
  | cons c lead ih =>
    have hsame : Text.isWhitespace c = (c == '\x0b') := by
      rw [Bool.eq_iff_iff, beq_iff_eq]
      constructor
      . exact fun h => verticalTab_of_whitespace h (hascii c List.mem_cons_self) (hlead c List.mem_cons_self)
      . rintro rfl
        decide
    rw [List.dropWhile_cons, List.dropWhile_cons, hsame,
      ih (fun d hd => hlead d (List.mem_cons_of_mem c hd)) (fun d hd => hascii d (List.mem_cons_of_mem c hd))]

theorem schemeChar_of_url (hascii : Srcset.isAsciiWhitespace c = false)
    (h : Url.isSchemeChar c = true ∨ Url.isTabOrNewline c = true) : Url.isSchemeChar c = true := by
  cases h with
  | inl h => exact h
  | inr h =>
    rw [Url.isTabOrNewline_iff] at h
    unfold Srcset.isAsciiWhitespace at hascii
    simp only [Bool.or_eq_false_iff, decide_eq_false_iff_not] at hascii
    omega

theorem firstWord_of_scheme (hblank : ∀ c ∈ blank, Srcset.isAsciiWhitespace c = true)
    (hlead : ∀ c ∈ lead, Url.isC0ControlOrSpace c = true) (hfirst : first.isAlpha = true)
    (hrest : ∀ c ∈ rest, Url.isSchemeChar c = true ∨ Url.isTabOrNewline c = true)
    (hascii : ∀ c ∈ lead ++ first :: rest, Srcset.isAsciiWhitespace c = false)
    (hplain : '\x0b' ∉ lead.dropWhile (· == '\x0b'))
    : ∃ later, firstWord (blank ++ (lead ++ first :: (rest ++ ':' :: after)))
      = some (lead.dropWhile (· == '\x0b') ++ first :: (rest ++ ':' :: later)) := by
  refine ⟨after.takeWhile (!Text.isWhitespace ·), ?_⟩
  have hletter := Url.whitespace_of_alpha hfirst
  have hdrop : (blank ++ (lead ++ first :: (rest ++ ':' :: after))).dropWhile Text.isWhitespace
      = lead.dropWhile (· == '\x0b') ++ first :: (rest ++ ':' :: after) := by
    rw [List.dropWhile_append_of_pos (fun c hc => whitespace_of_ascii (hblank c hc)), Url.dropWhile_append_neg hletter,
      dropWhile_lead hlead (fun c hc => hascii c (List.mem_append_left _ hc))]
  have hword : ∀ c ∈ lead.dropWhile (· == '\x0b') ++ first :: rest, (!Text.isWhitespace c) = true := by
    intro c hc
    rw [Bool.not_eq_true']
    rw [List.mem_append, List.mem_cons] at hc
    obtain hc | rfl | hc := hc
    . have hmem := (List.dropWhile_suffix _).subset hc
      rw [Bool.eq_false_iff]
      intro hspace
      rw [verticalTab_of_whitespace hspace (hascii c (List.mem_append_left _ hmem)) (hlead c hmem)] at hc
      exact hplain hc
    . exact hletter
    . have hc' := hascii c (List.mem_append_right _ (List.mem_cons_of_mem first hc))
      exact whitespace_of_schemeChar (schemeChar_of_url hc' (hrest c hc))
  have htake : (lead.dropWhile (· == '\x0b') ++ first :: (rest ++ ':' :: after)).takeWhile (!Text.isWhitespace ·)
      = lead.dropWhile (· == '\x0b') ++ first :: (rest ++ ':' :: after.takeWhile (!Text.isWhitespace ·)) := by
    have hsplit : ∀ more : List Char, lead.dropWhile (· == '\x0b') ++ first :: (rest ++ ':' :: more)
        = (lead.dropWhile (· == '\x0b') ++ first :: rest) ++ ':' :: more := by
      intro more
      rw [List.append_assoc, List.cons_append]
    rw [hsplit, hsplit, List.takeWhile_append_of_pos hword, List.takeWhile_cons, if_pos (by decide)]
  unfold firstWord
  dsimp only
  rw [hdrop, htake, if_neg]
  simp

theorem control_of_alpha (h : first.isAlpha = true) : Url.isC0ControlOrSpace first = false := by
  have hrange := Url.alpha_range h
  unfold Url.isC0ControlOrSpace
  rw [decide_eq_false_iff_not]
  omega

theorem hidesWord_iff (hlead : ∀ c ∈ lead, Url.isC0ControlOrSpace c = true) (hfirst : first.isAlpha = true)
    : HidesWord (lead ++ first :: after) ↔ '\x0b' ∈ lead.dropWhile (· == '\x0b') := by
  have hletter : (first == '\x0b') = false := by
    rw [beq_eq_false_iff_ne]
    rintro rfl
    exact absurd hfirst (by decide)
  have hcontrols : ∀ c ∈ lead.dropWhile (· == '\x0b'), Url.isC0ControlOrSpace c = true :=
    fun c hc => hlead c ((List.dropWhile_suffix _).subset hc)
  unfold HidesWord
  rw [Url.dropWhile_append_neg (p := (· == '\x0b')) hletter, List.takeWhile_append_of_pos hcontrols, List.takeWhile_cons,
    if_neg (Bool.eq_false_iff.mp (control_of_alpha hfirst)), List.append_nil]

theorem takeWhile_scheme (hblank : ∀ c ∈ blank, Srcset.isAsciiWhitespace c = true)
    (hlead : ∀ c ∈ lead, Url.isC0ControlOrSpace c = true) (hfirst : first.isAlpha = true)
    (hrest : ∀ c ∈ rest, Url.isSchemeChar c = true ∨ Url.isTabOrNewline c = true)
    : (blank ++ (lead ++ first :: (rest ++ ':' :: after))).takeWhile (· != ',')
      = blank ++ (lead ++ first :: (rest ++ ':' :: after.takeWhile (· != ','))) := by
  have hcode : ∀ c : Char, c.toNat ≠ 44 → (c != ',') = true := by
    intro c hc
    rw [bne_iff_ne]
    rintro rfl
    exact hc rfl
  have hall : ∀ c ∈ blank ++ (lead ++ first :: rest), (c != ',') = true := by
    intro c hc
    apply hcode
    rw [List.mem_append, List.mem_append, List.mem_cons] at hc
    obtain hc | hc | rfl | hc := hc
    . have hspace := hblank c hc
      unfold Srcset.isAsciiWhitespace at hspace
      simp only [Bool.or_eq_true, decide_eq_true_eq] at hspace
      omega
    . have hcontrol := hlead c hc
      unfold Url.isC0ControlOrSpace at hcontrol
      rw [decide_eq_true_eq] at hcontrol
      omega
    . have hrange := Url.alpha_range hfirst
      omega
    . cases hrest c hc with
      | inl hscheme =>
        have hrange := Url.schemeChar_range hscheme
        omega
      | inr htab =>
        rw [Url.isTabOrNewline_iff] at htab
        omega
  have hsplit : ∀ more : List Char, blank ++ (lead ++ first :: (rest ++ ':' :: more))
      = (blank ++ (lead ++ first :: rest)) ++ ':' :: more := by
    intro more
    simp only [List.append_assoc, List.cons_append]
  rw [hsplit, hsplit, List.takeWhile_append_of_pos hall, List.takeWhile_cons, if_pos (by decide)]

theorem allowed_of_validateSrcset {text : List Char} {candidate : Srcset.Candidate}
    (h : validateSrcset name (text.splitOn ',') = .ok ()) (hmem : candidate ∈ Srcset.candidates text)
    (hplain : ¬ HidesWord candidate.url)
    : AllowedScheme candidate.url := by
  intro scheme hscheme
  obtain ⟨front, blank, back, hstands⟩ := Srcset.candidates_stand hmem
  obtain ⟨lead, first, rest, after, hurl, hlead, hfirst, hrest, rfl⟩ := Url.scheme_eq_some hscheme
  have htext : text = front ++ (blank ++ (lead ++ first :: (rest ++ ':' :: (after ++ back)))) := by
    rw [hstands.text, hurl]
    simp only [List.append_assoc, List.cons_append]
  have hascii : ∀ c ∈ lead ++ first :: rest, Srcset.isAsciiWhitespace c = false := by
    intro c hc
    apply hstands.url
    rw [hurl, ← List.cons_append, ← List.append_assoc]
    exact List.mem_append_left _ hc
  rw [hurl, hidesWord_iff hlead hfirst] at hplain
  have hpiece := @mem_splitOn front (blank ++ (lead ++ first :: (rest ++ ':' :: (after ++ back)))) hstands.front
  rw [← htext, takeWhile_scheme hstands.blank hlead hfirst hrest] at hpiece
  obtain ⟨later, hword⟩ := firstWord_of_scheme hstands.blank hlead hfirst hrest hascii hplain
  apply mem_allowedUrlSchemes (validateSrcset_ok h _ hpiece _ hword)
  exact explicitUrlScheme_eq (fun c hc => hlead c ((List.dropWhile_suffix _).subset hc)) hfirst hrest

end Candidates

/-
Accepted values
-/

-- What a browser selects of the value of a URL attribute carries an allowed scheme. Which descriptors it accepts is open.
def CarriesAllowed (accepts : List Char → Bool) (name value : String) : Prop :=
  (isUrlAttribute name = true → AllowedScheme value.toList)
    ∧ (isSrcset name = true → ∀ candidate ∈ Srcset.candidates value.toList, accepts candidate.descriptors = true →
        AllowedScheme candidate.url)

section Accepted

variable {accepts : List Char → Bool} {name value : String}

theorem isSrcset_of_isUrlAttribute (h : isUrlAttribute name = true) : isSrcset name = false := by
  obtain ⟨candidate, hmem, heq⟩ := List.any_eq_true.mp h
  rw [Bool.eq_false_iff]
  intro hsrcset
  unfold isSrcset at hsrcset
  unfold eqIgnoreAsciiCase at heq hsrcset
  rw [beq_iff_eq] at heq hsrcset
  rw [hsrcset] at heq
  revert candidate
  decide

-- An accepted value carries an allowed scheme, unless a candidate of a `srcset` hides another behind a vertical tab.
theorem accepted_carries_allowed (h : validateAttributeValue name value = .ok ())
    : CarriesAllowed accepts name value
      ↔ (isSrcset name = true → ∀ candidate ∈ Srcset.candidates value.toList, accepts candidate.descriptors = true →
          HidesWord candidate.url → AllowedScheme candidate.url) := by
  unfold validateAttributeValue at h
  split at h
  . cases h
  . constructor
    . exact fun hcarries hsrcset candidate hmem haccepts _ => hcarries.2 hsrcset candidate hmem haccepts
    . intro hhidden
      constructor
      . intro hname
        rw [isSrcset_of_isUrlAttribute hname, if_neg (by decide), if_pos hname] at h
        exact allowed_of_validateUrlScheme h
      . intro hsrcset candidate hmem haccepts
        rw [if_pos hsrcset] at h
        by_cases hhides : HidesWord candidate.url
        . exact hhidden hsrcset candidate hmem haccepts hhides
        . exact allowed_of_validateSrcset h hmem hhides

theorem hidden_word_is_accepted
    : validateAttributeValue "srcset" "\x01\x0bjavascript:alert(1)" = .ok ()
      ∧ ¬ CarriesAllowed (fun _ => true) "srcset" "\x01\x0bjavascript:alert(1)" := by
  refine ⟨by decide, fun hcarries => ?_⟩
  have hmem : ⟨"\x01\x0bjavascript:alert(1)".toList, []⟩ ∈ Srcset.candidates "\x01\x0bjavascript:alert(1)".toList :=
    @Srcset.mem_candidates '\x01' "\x01\x0bjavascript:alert(1)".toList "\x0bjavascript:alert(1)".toList rfl (by decide)
  have hscript := hcarries.2 (by decide) _ hmem rfl "javascript".toList (by decide)
  revert hscript
  decide

theorem accepted_carries_allowed_sample
    : CarriesAllowed (fun _ => true) "SRCSET" "small.png 1x, https://example.test/large.png 2x" := by
  apply (accepted_carries_allowed (by decide)).mpr
  intro _ candidate hmem _ hhides
  obtain ⟨front, blank, back, hstands⟩ := Srcset.candidates_stand hmem
  have htab : '\x0b' ∈ candidate.url := (List.dropWhile_suffix _).subset ((List.takeWhile_prefix _).subset hhides)
  have hvalue : '\x0b' ∈ "small.png 1x, https://example.test/large.png 2x".toList := by
    rw [hstands.text]
    exact List.mem_append_right _ (List.mem_append_right _ (List.mem_append_left _ htab))
  exact absurd hvalue (by decide)

end Accepted

end Dom

end Pliego
