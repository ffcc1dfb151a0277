import Pliego.Lib.Html
import Mathlib.Data.List.TakeWhile

/-!
What the tokenizer reads of tags, attribute values, titles and scripts that are written with care, and of the line
breaks in them.
-/

namespace Html

variable {references : References} {state middle final : State} {input text value rest left : List Char}
  {tokens more : List Token} {c : Char} {name : List Char} {tag : Tag}

theorem Reads.trans (h : Reads references state input tokens middle rest)
    (h' : Reads references middle rest more final left)
    : Reads references state input (tokens ++ more) final left := by
  induction h with
  | refl => exact h'
  | cons hfirst _ ih =>
    rw [List.append_assoc]
    exact .cons hfirst (ih h')

theorem Reads.one (h : step references state input = some (tokens, middle, rest))
    : Reads references state input tokens middle rest := by
  have hreads := Reads.cons h .refl
  rw [List.append_nil] at hreads
  exact hreads

-- The states in which an ampersand starts a reference.
def refers (state : State) : Bool :=
  match state with
  | .data | .within (.rcdata _) | .attributeValue _ _ _ _ | .unquotedValue _ _ _ => true
  | _ => false

theorem step_eq_move (hamp : c = '&' → refers state = false) (hmarkup : state ≠ .markup)
    : step references state (c :: rest)
      = (move state c).map fun next => (next.tokens, next.state, if next.consumes then rest else c :: rest) := by
  unfold step
  split
  . exact absurd rfl hmarkup
  . next hnil => cases hnil
  . next heq =>
    cases heq
    cases hamp rfl
  . next heq =>
    cases heq
    cases hamp rfl
  . next heq =>
    cases heq
    cases hamp rfl
  . next heq =>
    cases heq
    cases hamp rfl
  . next heq =>
    cases heq
    rfl

theorem Reads.goes (hmove : move state c = some ⟨tokens, middle, true⟩) (hamp : c = '&' → refers state = false)
    (hmarkup : state ≠ .markup)
    : Reads references state (c :: rest) tokens middle rest := by
  apply Reads.one
  rw [step_eq_move hamp hmarkup, hmove]
  rfl

theorem Reads.stays (hmove : move state c = some ⟨tokens, middle, false⟩) (hamp : c = '&' → refers state = false)
    (hmarkup : state ≠ .markup)
    : Reads references state (c :: rest) tokens middle (c :: rest) := by
  apply Reads.one
  rw [step_eq_move hamp hmarkup, hmove]
  rfl

theorem Reads.go (hmove : move state c = some ⟨tokens, middle, true⟩) (hamp : c ≠ '&') (hmarkup : state ≠ .markup)
    : Reads references state (c :: rest) tokens middle rest :=
  .goes hmove (fun hsame => absurd hsame hamp) hmarkup

theorem Reads.again (hmove : move state c = some ⟨tokens, middle, false⟩) (hamp : c ≠ '&')
    (hmarkup : state ≠ .markup)
    : Reads references state (c :: rest) tokens middle (c :: rest) :=
  .stays hmove (fun hsame => absurd hsame hamp) hmarkup

/-!
Character references that end in a semicolon.
-/

theorem longest_of_mem (hmem : (name ++ [';'], value) ∈ references.names)
    : longest references (name ++ ';' :: rest) = some (name ++ [';'], value) := by
  unfold longest
  have hlisted : (name ++ [';'], value) ∈ references.names.filter (·.1.isPrefixOf (name ++ ';' :: rest)) := by
    apply List.mem_filter.mpr
    refine ⟨hmem, ?_⟩
    rw [List.isPrefixOf_iff_prefix]
    exact ⟨rest, by rw [List.append_assoc]; rfl⟩
  cases hmax : List.argmax (fun entry : List Char × List Char => entry.1.length)
      (references.names.filter (·.1.isPrefixOf (name ++ ';' :: rest))) with
  | none =>
    rw [List.argmax_eq_none] at hmax
    rw [hmax] at hlisted
    cases hlisted
  | some found =>
    have hfound := List.mem_filter.mp (List.argmax_mem hmax)
    have hle : (name ++ [';']).length ≤ found.1.length :=
      @List.le_of_mem_argmax _ _ _ (fun entry : List Char × List Char => entry.1.length) _ _ _ hlisted hmax
    obtain ⟨later, hlater⟩ := List.isPrefixOf_iff_prefix.mp hfound.2
    have hsame : found.1 = name ++ [';'] := by
      have hfront : name ++ [';'] <+: found.1 := by
        apply List.prefix_of_prefix_length_le _ ⟨later, hlater⟩ hle
        exact ⟨rest, by rw [List.append_assoc]; rfl⟩
      obtain ⟨extra, hextra⟩ := hfront
      cases hcase : extra with
      | nil => rw [← hextra, hcase, List.append_nil]
      | cons first others =>
        -- a longer name would have a semicolon before its end
        exfalso
        apply references.ended found hfound.1
        rw [← hextra, hcase, List.dropLast_append_cons, List.append_assoc]
        apply List.mem_append_right
        exact List.mem_append_left _ List.mem_cons_self
    rw [references.unique found hfound.1 _ hmem hsame]

variable {inAttribute : Bool} {tail : List Char}

theorem reference_of_mem (hmem : (c :: name ++ [';'], value) ∈ references.names)
    (hfirst : c.isAlphanum = true) (hhash : c ≠ '#')
    : reference references inAttribute (c :: (name ++ ';' :: rest)) = some (value, rest) := by
  have hlongest : longest references (c :: (name ++ ';' :: rest)) = some (c :: name ++ [';'], value) :=
    longest_of_mem hmem
  unfold reference
  dsimp only
  rw [if_neg hhash, hfirst, hlongest]
  have hlast : (c :: name ++ [';']).getLast? = some ';' := List.getLast?_concat
  have hdrop : (c :: (name ++ ';' :: rest)).drop (c :: name ++ [';']).length = rest := by
    have hsplit : c :: (name ++ ';' :: rest) = (c :: name ++ [';']) ++ rest := by
      rw [List.append_assoc]
      rfl
    rw [hsplit, List.drop_left]
  dsimp only
  rw [hlast, hdrop]
  cases inAttribute <;> rfl

-- A text that stands for a value: references for some characters, the others as they are, without the one that stops.
inductive Written (stops : Char) : List Char → List Char → Prop where
  | nil : Written stops [] []
  | plain {c : Char} {text value : List Char} (hamp : c ≠ '&') (hstops : c ≠ stops)
      (others : Written stops text value)
    : Written stops (c :: text) (c :: value)
  | amp {text value : List Char} (others : Written stops text value)
    : Written stops ('&' :: 'a' :: 'm' :: 'p' :: ';' :: text) ('&' :: value)
  | lt {text value : List Char} (others : Written stops text value)
    : Written stops ('&' :: 'l' :: 't' :: ';' :: text) ('<' :: value)
  | gt {text value : List Char} (others : Written stops text value)
    : Written stops ('&' :: 'g' :: 't' :: ';' :: text) ('>' :: value)
  | quot {text value : List Char} (others : Written stops text value)
    : Written stops ('&' :: 'q' :: 'u' :: 'o' :: 't' :: ';' :: text) ('"' :: value)

theorem referred_amp
    : reference references inAttribute ('a' :: 'm' :: 'p' :: ';' :: rest) = some (['&'], rest) :=
  @reference_of_mem _ _ _ 'a' ['m', 'p'] _ references.amp rfl (by decide)

theorem referred_lt
    : reference references inAttribute ('l' :: 't' :: ';' :: rest) = some (['<'], rest) :=
  @reference_of_mem _ _ _ 'l' ['t'] _ references.lt rfl (by decide)

theorem referred_gt
    : reference references inAttribute ('g' :: 't' :: ';' :: rest) = some (['>'], rest) :=
  @reference_of_mem _ _ _ 'g' ['t'] _ references.gt rfl (by decide)

theorem referred_quot
    : reference references inAttribute ('q' :: 'u' :: 'o' :: 't' :: ';' :: rest) = some (['"'], rest) :=
  @reference_of_mem _ _ _ 'q' ['u', 'o', 't'] _ references.quot rfl (by decide)

theorem Written.reads_value {read : List Char} (h : Written '"' text value)
    : Reads references (.attributeValue tag name '"' read) (text ++ rest) []
        (.attributeValue tag name '"' (read ++ value.map replaceNul)) rest := by
  induction h generalizing read with
  | nil =>
    rw [List.map_nil, List.append_nil]
    exact .refl
  | @plain c text value hamp hstops _ ih =>
    have hmove : move (.attributeValue tag name '"' read) c
        = some ⟨[], .attributeValue tag name '"' (read ++ [replaceNul c]), true⟩ := if_neg hstops
    have hreads := (Reads.go hmove hamp nofun).trans (@ih (read ++ [replaceNul c]))
    rw [List.append_assoc] at hreads
    exact hreads
  | @amp text value _ ih =>
    have hreads := @ih (read ++ ['&'])
    rw [List.append_assoc] at hreads
    have hfirst : step references (.attributeValue tag name '"' read) ('&' :: 'a' :: 'm' :: 'p' :: ';' :: (text ++ rest))
        = some ([], .attributeValue tag name '"' (read ++ ['&']), text ++ rest) := by
      change (reference references true ('a' :: 'm' :: 'p' :: ';' :: (text ++ rest))).map _ = _
      rw [referred_amp]
      rfl
    exact .cons hfirst hreads
  | @lt text value _ ih =>
    have hreads := @ih (read ++ ['<'])
    rw [List.append_assoc] at hreads
    have hfirst : step references (.attributeValue tag name '"' read) ('&' :: 'l' :: 't' :: ';' :: (text ++ rest))
        = some ([], .attributeValue tag name '"' (read ++ ['<']), text ++ rest) := by
      change (reference references true ('l' :: 't' :: ';' :: (text ++ rest))).map _ = _
      rw [referred_lt]
      rfl
    exact .cons hfirst hreads
  | @gt text value _ ih =>
    have hreads := @ih (read ++ ['>'])
    rw [List.append_assoc] at hreads
    have hfirst : step references (.attributeValue tag name '"' read) ('&' :: 'g' :: 't' :: ';' :: (text ++ rest))
        = some ([], .attributeValue tag name '"' (read ++ ['>']), text ++ rest) := by
      change (reference references true ('g' :: 't' :: ';' :: (text ++ rest))).map _ = _
      rw [referred_gt]
      rfl
    exact .cons hfirst hreads
  | @quot text value _ ih =>
    have hreads := @ih (read ++ ['"'])
    rw [List.append_assoc] at hreads
    have hfirst : step references (.attributeValue tag name '"' read) ('&' :: 'q' :: 'u' :: 'o' :: 't' :: ';' :: (text ++ rest))
        = some ([], .attributeValue tag name '"' (read ++ ['"']), text ++ rest) := by
      change (reference references true ('q' :: 'u' :: 'o' :: 't' :: ';' :: (text ++ rest))).map _ = _
      rw [referred_quot]
      rfl
    exact .cons hfirst hreads

def characters (text : List Char) : List Token :=
  text.map fun c => .char (replaceNul c)

theorem Written.reads_rcdata (h : Written '<' text value)
    : Reads references (.within (.rcdata name)) (text ++ rest) (characters value) (.within (.rcdata name)) rest := by
  have hreferred : ∀ {c : Char} {text after value : List Char}, replaceNul c = c →
      reference references false (text ++ rest) = some ([c], after) →
      Reads references (.within (.rcdata name)) after (characters value) (.within (.rcdata name)) rest →
      Reads references (.within (.rcdata name)) ('&' :: (text ++ rest)) (characters (c :: value))
        (.within (.rcdata name)) rest := by
    intro c text after value hsame hreference hothers
    have hfirst : step references (.within (.rcdata name)) ('&' :: (text ++ rest))
        = some ([.char (replaceNul c)], .within (.rcdata name), after) := by
      change (reference references false (text ++ rest)).map _ = _
      rw [hreference, hsame]
      rfl
    exact .cons hfirst hothers
  induction h with
  | nil => exact .refl
  | @plain c text value hamp hstops _ ih =>
    have hmove : move (.within (.rcdata name)) c = some ⟨[.char (replaceNul c)], .within (.rcdata name), true⟩ :=
      if_neg hstops
    exact (Reads.go hmove hamp nofun).trans ih
  | @amp text value _ ih => exact @hreferred _ ('a' :: 'm' :: 'p' :: ';' :: text) _ _ rfl referred_amp ih
  | @lt text value _ ih => exact @hreferred _ ('l' :: 't' :: ';' :: text) _ _ rfl referred_lt ih
  | @gt text value _ ih => exact @hreferred _ ('g' :: 't' :: ';' :: text) _ _ rfl referred_gt ih
  | @quot text value _ ih =>
    exact @hreferred _ ('q' :: 'u' :: 'o' :: 't' :: ';' :: text) _ _ rfl referred_quot ih

/-!
Tags with plain names and quoted attribute values.
-/

def isPlain (c : Char) : Bool :=
  c.isLower || c.isDigit || c = '-'

theorem ne_of_isPlain {d : Char} (h : isPlain c = true) (hd : isPlain d = false) : c ≠ d := by
  rintro rfl
  rw [h] at hd
  cases hd

theorem isWhitespace_of_isPlain (h : isPlain c = true) : isWhitespace c = false := by
  unfold isWhitespace
  rw [decide_eq_false (ne_of_isPlain h rfl), decide_eq_false (ne_of_isPlain h rfl),
    decide_eq_false (ne_of_isPlain h rfl), decide_eq_false (ne_of_isPlain h rfl)]
  rfl

theorem toLower_of_isPlain (h : isPlain c = true) : replaceNul c.toLower = c := by
  have hlower : c.toLower = c := by
    unfold Char.toLower
    apply dif_neg
    rintro ⟨hle, hge⟩
    have hle : 65 ≤ c.val.toNat := hle
    have hge : c.val.toNat ≤ 90 := hge
    unfold isPlain Char.isLower Char.isDigit at h
    simp only [Bool.or_eq_true, Bool.and_eq_true, decide_eq_true_eq] at h
    rcases h with (⟨hlow, -⟩ | ⟨-, hdigit⟩) | hdash
    . have hlow : 97 ≤ c.val.toNat := hlow
      omega
    . have hdigit : c.val.toNat ≤ 57 := hdigit
      omega
    . rw [hdash] at hle
      exact absurd hle (by decide)
  rw [hlower]
  exact if_neg (ne_of_isPlain h rfl)

theorem reads_tagName (hname : ∀ c ∈ name, isPlain c = true)
    : Reads references (.tagName tag) (name ++ rest) [] (.tagName { tag with name := tag.name ++ name }) rest := by
  induction name generalizing tag with
  | nil =>
    rw [List.append_nil]
    exact .refl
  | cons c name ih =>
    obtain ⟨hc, hothers⟩ := List.forall_mem_cons.mp hname
    have hmove : move (.tagName tag) c = some ⟨[], .tagName { tag with name := tag.name ++ [c] }, true⟩ := by
      change (if isWhitespace c then _ else _) = _
      rw [isWhitespace_of_isPlain hc, if_neg Bool.false_ne_true, if_neg (ne_of_isPlain hc rfl),
        if_neg (ne_of_isPlain hc rfl), toLower_of_isPlain hc]
      rfl
    have hreads := (Reads.go hmove (ne_of_isPlain hc rfl) nofun).trans (@ih { tag with name := tag.name ++ [c] } hothers)
    dsimp only at hreads
    rw [List.append_assoc] at hreads
    exact hreads

theorem reads_attributeName {key read : List Char} (hkey : ∀ c ∈ key, isPlain c = true)
    : Reads references (.attributeName tag read) (key ++ rest) [] (.attributeName tag (read ++ key)) rest := by
  induction key generalizing read with
  | nil =>
    rw [List.append_nil]
    exact .refl
  | cons c key ih =>
    obtain ⟨hc, hothers⟩ := List.forall_mem_cons.mp hkey
    have hmove : move (.attributeName tag read) c = some ⟨[], .attributeName tag (read ++ [c]), true⟩ := by
      change (if isWhitespace c || c = '/' || c = '>' then _ else _) = _
      rw [isWhitespace_of_isPlain hc, decide_eq_false (ne_of_isPlain hc rfl), decide_eq_false (ne_of_isPlain hc rfl),
        if_neg (by decide), if_neg (ne_of_isPlain hc rfl), toLower_of_isPlain hc]
      rfl
    have hreads := (Reads.go hmove (ne_of_isPlain hc rfl) nofun).trans (@ih (read ++ [c]) hothers)
    rw [List.append_assoc] at hreads
    exact hreads

-- An attribute as it is written: its name, the text of its value and what that stands for.
structure Attribute where
  name : List Char
  text : List Char
  value : List Char

def Attribute.write (attr : Attribute) : List Char :=
  ' ' :: (attr.name ++ '=' :: '"' :: (attr.text ++ ['"']))

def Attribute.read (attr : Attribute) : List Char × List Char :=
  (attr.name, attr.value.map replaceNul)

structure Attribute.Proper (attr : Attribute) : Prop where
  ne : attr.name ≠ []
  plain : ∀ c ∈ attr.name, isPlain c = true
  written : Written '"' attr.text attr.value

def writeTag (name : List Char) (attributes : List Attribute) : List Char :=
  '<' :: (name ++ (attributes.flatMap Attribute.write ++ ['>']))

-- Where the next attribute starts, or the tag ends.
def Between (state : State) (tag : Tag) : Prop :=
  state = .tagName tag ∨ state = .afterAttributeValue tag

theorem Between.reads_attribute {attr : Attribute} (h : Between state tag) (hproper : attr.Proper)
    : Reads references state (attr.write ++ rest) []
        (.afterAttributeValue (tag.add attr.name (attr.value.map replaceNul))) rest := by
  have hblank : move state ' ' = some ⟨[], .beforeAttributeName tag, true⟩ := by
    cases h with
    | inl h =>
      rw [h]
      rfl
    | inr h =>
      rw [h]
      rfl
  have hmarkup : state ≠ .markup := by
    rintro rfl
    cases h with
    | inl h => cases h
    | inr h => cases h
  obtain ⟨key, text, value⟩ := attr
  cases key with
  | nil => exact absurd rfl hproper.ne
  | cons c key =>
    have hc : isPlain c = true := hproper.plain c List.mem_cons_self
    have hfirst : move (.beforeAttributeName tag) c = some ⟨[], .attributeName tag [], false⟩ := by
      change (if isWhitespace c then _ else _) = _
      rw [isWhitespace_of_isPlain hc, if_neg Bool.false_ne_true, if_neg (ne_of_isPlain hc rfl),
        if_neg (ne_of_isPlain hc rfl), if_neg (ne_of_isPlain hc rfl)]
      rfl
    unfold Attribute.write
    dsimp only
    simp only [List.cons_append, List.append_assoc, List.nil_append]
    apply (Reads.go hblank (by decide) hmarkup).trans
    apply (Reads.again hfirst (ne_of_isPlain hc rfl) nofun).trans
    apply (@reads_attributeName _ _ _ (c :: key) [] hproper.plain).trans
    apply (@Reads.go _ _ _ _ _ _ (rfl : move (.attributeName tag ([] ++ c :: key)) '=' = _) (by decide) nofun).trans
    apply (@Reads.go _ _ _ _ _ _ (rfl : move (.beforeAttributeValue tag ([] ++ c :: key)) '"' = _) (by decide)
      nofun).trans
    apply (@Written.reads_value _ _ _ _ _ _ [] hproper.written).trans
    exact Reads.go rfl (by decide) nofun

theorem add_fresh (h : name ∉ tag.attributes.map Prod.fst)
    : tag.add name value = { tag with attributes := tag.attributes ++ [(name, value)] } := by
  unfold Tag.add
  apply if_neg
  intro hany
  obtain ⟨known, hmem, hsame⟩ := List.any_eq_true.mp hany
  exact h (List.mem_map.mpr ⟨known, hmem, of_decide_eq_true hsame⟩)

theorem Between.reads_attributes {attributes : List Attribute} (h : Between state tag)
    (hproper : ∀ attr ∈ attributes, attr.Proper)
    (hnodup : (tag.attributes.map Prod.fst ++ attributes.map Attribute.name).Nodup)
    : ∃ next, Between next { tag with attributes := tag.attributes ++ attributes.map Attribute.read }
      ∧ Reads references state (attributes.flatMap Attribute.write ++ rest) [] next rest := by
  induction attributes generalizing state tag with
  | nil =>
    refine ⟨state, ?_, .refl⟩
    rw [List.map_nil, List.append_nil]
    exact h
  | cons attr others ih =>
    obtain ⟨hattr, hothers⟩ := List.forall_mem_cons.mp hproper
    rw [List.map_cons] at hnodup
    have hfresh : attr.name ∉ tag.attributes.map Prod.fst := by
      intro hmem
      exact (List.nodup_append.mp hnodup).2.2 _ hmem _ List.mem_cons_self rfl
    have hadd : tag.add attr.name (attr.value.map replaceNul)
        = { tag with attributes := tag.attributes ++ [(attr.name, attr.value.map replaceNul)] } := add_fresh hfresh
    obtain ⟨next, hnext, hreads⟩ := @ih (.afterAttributeValue (tag.add attr.name (attr.value.map replaceNul)))
      (tag.add attr.name (attr.value.map replaceNul)) (.inr rfl) hothers (by
        rw [hadd, List.map_append, List.append_assoc]
        exact hnodup)
    refine ⟨next, ?_, ?_⟩
    . rw [hadd, List.append_assoc] at hnext
      exact hnext
    . rw [List.flatMap_cons, List.append_assoc]
      exact (h.reads_attribute hattr).trans hreads

theorem Between.finish {final : State} (h : Between state tag) (hafter : after tag = some final)
    : Reads references state ('>' :: rest) [.tag tag] final rest := by
  have hmove : move state '>' = some ⟨[.tag tag], final, true⟩ := by
    have hfinish : Html.finish tag = some ⟨[.tag tag], final, true⟩ := by
      unfold Html.finish
      rw [hafter]
      rfl
    cases h with
    | inl h =>
      rw [h]
      exact hfinish
    | inr h =>
      rw [h]
      exact hfinish
  have hmarkup : state ≠ .markup := by
    rintro rfl
    cases h with
    | inl h => cases h
    | inr h => cases h
  exact Reads.go hmove (by decide) hmarkup

theorem reads_open (hc : c.isAlpha = true) (hne : c ≠ '&')
    : Reads references .data ('<' :: c :: rest) [] (.tagName ⟨false, [], [], false⟩) (c :: rest) := by
  have hmove : move .tagOpen c = some ⟨[], .tagName ⟨false, [], [], false⟩, false⟩ := by
    have hnot : ∀ d : Char, d.isAlpha = false → c ≠ d := by
      rintro d hd rfl
      rw [hc] at hd
      cases hd
    change (if c = '!' then _ else _) = _
    rw [if_neg (hnot _ rfl), if_neg (hnot _ rfl), if_pos hc]
    rfl
  apply (@Reads.go _ _ _ _ _ _ (rfl : move .data '<' = _) (by decide) nofun).trans
  exact Reads.again hmove hne nofun

theorem reads_tag {attributes : List Attribute} {others : List Char} (hname : name = c :: others)
    (hc : c.isAlpha = true) (hplain : ∀ c ∈ name, isPlain c = true) (hproper : ∀ attr ∈ attributes, attr.Proper)
    (hnodup : (attributes.map Attribute.name).Nodup)
    (hafter : after ⟨false, name, attributes.map Attribute.read, false⟩ = some final)
    : Reads references .data (writeTag name attributes ++ rest)
        [.tag ⟨false, name, attributes.map Attribute.read, false⟩] final rest := by
  have hbetween : Between (.tagName ⟨false, name, [], false⟩) ⟨false, name, [], false⟩ := .inl rfl
  obtain ⟨next, hnext, hreads⟩ := @Between.reads_attributes references _ ('>' :: rest) _ attributes hbetween hproper
    (by
      rw [List.map_nil, List.nil_append]
      exact hnodup)
  have hamp : c ≠ '&' := ne_of_isPlain (hplain c (by rw [hname]; exact List.mem_cons_self)) rfl
  have hopen : Reads references .data ('<' :: (name ++ (attributes.flatMap Attribute.write ++ '>' :: rest))) []
      (.tagName ⟨false, [], [], false⟩) (name ++ (attributes.flatMap Attribute.write ++ '>' :: rest)) := by
    rw [hname]
    exact reads_open hc hamp
  have hall := ((hopen.trans (reads_tagName hplain)).trans hreads).trans (hnext.finish hafter)
  unfold writeTag
  simp only [List.cons_append, List.append_assoc, List.nil_append]
  exact hall

theorem reads_endTag {others : List Char} (hname : name = c :: others) (hc : c.isAlpha = true)
    (hplain : ∀ c ∈ name, isPlain c = true)
    : Reads references .data ('<' :: '/' :: (name ++ '>' :: rest)) [.tag ⟨true, name, [], false⟩] .data rest := by
  have hamp : c ≠ '&' := ne_of_isPlain (hplain c (by rw [hname]; exact List.mem_cons_self)) rfl
  have hopen : Reads references .endTagOpen (name ++ '>' :: rest) [] (.tagName ⟨true, [], [], false⟩)
      (name ++ '>' :: rest) := by
    have hmove : move .endTagOpen c = some ⟨[], .tagName ⟨true, [], [], false⟩, false⟩ := if_pos hc
    rw [hname]
    exact Reads.again hmove hamp nofun
  apply (@Reads.go _ _ _ _ _ _ (rfl : move .data '<' = _) (by decide) nofun).trans
  apply (@Reads.go _ _ _ _ _ _ (rfl : move .tagOpen '/' = _) (by decide) nofun).trans
  apply (hopen.trans (reads_tagName hplain)).trans
  exact Between.finish (.inl rfl) rfl

theorem ne_of_isAlpha {d : Char} (h : c.isAlpha = true) (hd : d.isAlpha = false) : c ≠ d := by
  rintro rfl
  rw [h] at hd
  cases hd

theorem reads_buffer {content : Content} {buffer letters : List Char} (hletters : ∀ c ∈ letters, c.isAlpha = true)
    : Reads references (.contentEndTagName content buffer) (letters ++ rest) []
        (.contentEndTagName content (buffer ++ letters)) rest := by
  induction letters generalizing buffer with
  | nil =>
    rw [List.append_nil]
    exact .refl
  | cons c letters ih =>
    obtain ⟨hc, hothers⟩ := List.forall_mem_cons.mp hletters
    have hmove : move (.contentEndTagName content buffer) c
        = some ⟨[], .contentEndTagName content (buffer ++ [c]), true⟩ := if_pos hc
    have hreads := (Reads.go hmove (ne_of_isAlpha hc rfl) nofun).trans (@ih (buffer ++ [c]) hothers)
    rw [List.append_assoc] at hreads
    exact hreads

theorem reads_contentEnd {content : Content} {others : List Char} (hname : content.name = c :: others)
    (hlower : ∀ c ∈ content.name, c.isAlpha = true ∧ c.toLower = c)
    : Reads references (.within content) ('<' :: '/' :: (content.name ++ '>' :: rest))
        [.tag ⟨true, content.name, [], false⟩] .data rest := by
  have hc : c.isAlpha = true := (hlower c (by rw [hname]; exact List.mem_cons_self)).1
  have hopen : Reads references (.contentEndTagOpen content) (content.name ++ '>' :: rest) []
      (.contentEndTagName content []) (content.name ++ '>' :: rest) := by
    have hmove : move (.contentEndTagOpen content) c = some ⟨[], .contentEndTagName content [], false⟩ := if_pos hc
    rw [hname]
    exact Reads.again hmove (ne_of_isAlpha hc rfl) nofun
  have hsame : content.name.map Char.toLower = content.name := by
    have hid : ∀ c ∈ content.name, c.toLower = id c := fun c hmem => (hlower c hmem).2
    rw [List.map_congr_left hid, List.map_id]
  have hstop : move (.contentEndTagName content ([] ++ content.name)) '>'
      = some ⟨[.tag ⟨true, content.name, [], false⟩], .data, true⟩ := by
    change (if content.name.map Char.toLower ≠ content.name then _ else _) = _
    rw [hsame, if_neg (not_not.mpr rfl)]
    rfl
  have hlessThan : move (.within content) '<' = some ⟨[], .lessThan content, true⟩ := by
    cases content <;> rfl
  have hslash : move (.lessThan content) '/' = some ⟨[], .contentEndTagOpen content, true⟩ := by
    cases content <;> rfl
  apply (Reads.go hlessThan (by decide) nofun).trans
  apply (Reads.go hslash (by decide) nofun).trans
  apply (hopen.trans (reads_buffer fun c hmem => (hlower c hmem).1)).trans
  exact Reads.go hstop (by decide) nofun

def scriptName : List Char := ['s', 'c', 'r', 'i', 'p', 't']

-- What closes a script, and what starts its escaped part, behind a less-than sign.
def closesScript (text : List Char) : Bool :=
  (text.take 7).map Char.toLower = '/' :: scriptName

def opensComment (text : List Char) : Bool :=
  ['!', '-', '-'].isPrefixOf text

def Quiet (text : List Char) : Prop :=
  ∀ front back, text = front ++ '<' :: back → closesScript back = false ∧ opensComment back = false

theorem replaceNul_of_ne (h : c ≠ Char.ofNat 0) : replaceNul c = c := if_neg h

theorem Quiet.suffix {front back : List Char} (h : Quiet (front ++ back)) : Quiet back := by
  intro start later hback
  apply h (front ++ start)
  rw [hback, List.append_assoc]

theorem reads_back (hmove : ∀ d ∈ (text ++ ['<']).head?, move state d = some ⟨tokens, .within .script, false⟩)
    (hrefers : refers state = false) (hmarkup : state ≠ .markup)
    : Reads references state (text ++ '<' :: tail) tokens (.within .script) (text ++ '<' :: tail) := by
  cases text with
  | nil => exact Reads.stays (hmove '<' rfl) (fun _ => hrefers) hmarkup
  | cons d text => exact Reads.stays (hmove d rfl) (fun _ => hrefers) hmarkup

-- The script is read in pieces, each of which leads back to it.
def Piece (references : References) (text tail : List Char) : Prop :=
  ∃ piece more, text = piece ++ more ∧ piece ≠ []
    ∧ Reads references (.within .script) (text ++ '<' :: tail) (characters piece) (.within .script) (more ++ '<' :: tail)

theorem piece_slash (h : Quiet ('<' :: '/' :: text)) : Piece references ('<' :: '/' :: text) tail := by
  have hopen : Reads references (.within .script) ('<' :: '/' :: (text ++ '<' :: tail)) [] (.contentEndTagOpen .script)
      (text ++ '<' :: tail) := by
    apply (@Reads.go _ _ _ _ _ _ (rfl : move (.within .script) '<' = _) (by decide) nofun).trans
    exact Reads.go (rfl : move (.lessThan .script) '/' = _) (by decide) nofun
  have hletters : ∀ c ∈ text.takeWhile Char.isAlpha, c.isAlpha = true := fun c hmem => List.mem_takeWhile_imp hmem
  have hsplit : text.takeWhile Char.isAlpha ++ text.dropWhile Char.isAlpha = text := List.takeWhile_append_dropWhile
  have hstops : ∀ d ∈ (text.dropWhile Char.isAlpha ++ ['<']).head?, d.isAlpha = false := by
    intro d hd
    have hhead := List.head?_dropWhile_not Char.isAlpha text
    cases hdrop : text.dropWhile Char.isAlpha with
    | nil =>
      rw [hdrop] at hd
      cases hd
      rfl
    | cons e rest =>
      rw [hdrop] at hd hhead
      cases hd
      exact hhead
  generalize text.takeWhile Char.isAlpha = letters at hletters hsplit
  generalize text.dropWhile Char.isAlpha = more at hstops hsplit
  subst hsplit
  cases letters with
  | nil =>
    refine ⟨['<', '/'], more, rfl, List.cons_ne_nil _ _, hopen.trans ?_⟩
    refine reads_back ?_ rfl nofun
    intro d hd
    exact if_neg (by rw [hstops d hd]; exact Bool.false_ne_true)
  | cons c letters =>
    have hc : c.isAlpha = true := hletters c List.mem_cons_self
    -- the letters are not the name of the script's own end tag
    have hother : (c :: letters).map Char.toLower ≠ scriptName := by
      intro hname
      have hlength : (c :: letters).length = 6 := by
        have := congrArg List.length hname
        rw [List.length_map] at this
        exact this
      have hcloses : closesScript ('/' :: (c :: letters ++ more)) = true := by
        unfold closesScript
        rw [List.take_succ_cons, List.take_append_of_le_length (by omega), List.take_of_length_le (by omega),
          List.map_cons, hname]
        rfl
      rw [(h [] _ rfl).1] at hcloses
      cases hcloses
    have hname : move (.contentEndTagOpen .script) c = some ⟨[], .contentEndTagName .script [], false⟩ := if_pos hc
    have hback : Reads references (.contentEndTagName .script ([] ++ c :: letters)) (more ++ '<' :: tail)
        (('<' :: '/' :: c :: letters).map .char) (.within .script) (more ++ '<' :: tail) := by
      refine reads_back ?_ rfl nofun
      intro d hd
      change (if d.isAlpha = true then _ else _) = _
      rw [hstops d hd, if_neg Bool.false_ne_true]
      exact if_pos hother
    have hchars : characters ('<' :: '/' :: c :: letters) = ('<' :: '/' :: c :: letters).map .char := by
      apply List.map_congr_left
      intro d hd
      rw [replaceNul_of_ne]
      rintro rfl
      cases hd with
      | tail _ hd =>
        cases hd with
        | tail _ hd => cases hletters _ hd
    rw [List.append_assoc] at hopen
    refine ⟨'<' :: '/' :: c :: letters, more, rfl, List.cons_ne_nil _ _, ?_⟩
    rw [List.cons_append, List.cons_append, List.append_assoc, hchars]
    exact ((hopen.trans (Reads.again hname (ne_of_isAlpha hc rfl) nofun)).trans (reads_buffer hletters)).trans hback

theorem piece_mark (h : Quiet ('<' :: '!' :: text)) : Piece references ('<' :: '!' :: text) tail := by
  have hopen : Reads references (.within .script) ('<' :: '!' :: (text ++ '<' :: tail)) (characters ['<', '!'])
      .escapeStart (text ++ '<' :: tail) := by
    apply (@Reads.go _ _ _ _ _ _ (rfl : move (.within .script) '<' = _) (by decide) nofun).trans
    exact Reads.go (rfl : move (.lessThan .script) '!' = _) (by decide) nofun
  by_cases hdash : text.head? = some '-'
  . cases text with
    | nil => cases hdash
    | cons d text =>
      cases hdash
      have hback : Reads references .escapeStartDash (text ++ '<' :: tail) [] (.within .script) (text ++ '<' :: tail) := by
        refine reads_back ?_ rfl nofun
        intro d hd
        apply if_neg
        rintro rfl
        have hquiet := (h [] _ rfl).2
        cases text with
        | nil => cases hd
        | cons e text =>
          cases hd
          cases hquiet
      refine ⟨['<', '!', '-'], text, rfl, List.cons_ne_nil _ _, ?_⟩
      exact (hopen.trans (Reads.go (rfl : move .escapeStart '-' = _) (by decide) nofun)).trans hback
  . refine ⟨['<', '!'], text, rfl, List.cons_ne_nil _ _, hopen.trans (reads_back ?_ rfl nofun)⟩
    intro d hd
    apply if_neg
    rintro rfl
    cases text with
    | nil => cases hd
    | cons e text => exact hdash hd

theorem piece_of_quiet (h : Quiet (c :: text)) : Piece references (c :: text) tail := by
  by_cases hless : c = '<'
  . subst hless
    by_cases hslash : text.head? = some '/'
    . cases text with
      | nil => cases hslash
      | cons d text =>
        cases hslash
        exact piece_slash h
    . by_cases hmark : text.head? = some '!'
      . cases text with
        | nil => cases hmark
        | cons d text =>
          cases hmark
          exact piece_mark h
      . refine ⟨['<'], text, rfl, List.cons_ne_nil _ _, ?_⟩
        apply (@Reads.go _ _ _ _ _ _ (rfl : move (.within .script) '<' = _) (by decide) nofun).trans
        refine reads_back ?_ rfl nofun
        intro d hd
        have hne : d ≠ '/' ∧ d ≠ '!' := by
          cases text with
          | nil =>
            cases hd
            decide
          | cons e text =>
            constructor
            . rintro rfl
              exact hslash hd
            . rintro rfl
              exact hmark hd
        change (if d = '/' then _ else _) = _
        rw [if_neg hne.1]
        exact if_neg hne.2
  . refine ⟨[c], text, rfl, List.cons_ne_nil _ _, ?_⟩
    have hmove : move (.within .script) c = some ⟨[.char (replaceNul c)], .within .script, true⟩ := if_neg hless
    exact Reads.goes hmove (fun _ => rfl) nofun

theorem reads_script (h : Quiet text)
    : Reads references (.within .script) (text ++ '<' :: '/' :: (scriptName ++ '>' :: rest))
        (characters text ++ [.tag ⟨true, scriptName, [], false⟩]) .data rest := by
  induction hlength : text.length using Nat.strong_induction_on generalizing text with
  | _ length ih =>
    cases text with
    | nil =>
      apply reads_contentEnd (rfl : Content.script.name = 's' :: ['c', 'r', 'i', 'p', 't'])
      intro c hc
      have hall : scriptName.all (fun c => c.isAlpha && c.toLower == c) = true := rfl
      have hlower := List.all_eq_true.mp hall c hc
      rw [Bool.and_eq_true, beq_iff_eq] at hlower
      exact hlower
    | cons c text =>
      obtain ⟨piece, more, hsplit, hne, hreads⟩ := @piece_of_quiet references _ _ ('/' :: (scriptName ++ '>' :: rest)) h
      have hshorter : more.length < length := by
        rw [← hlength, hsplit, List.length_append]
        have := List.length_pos_iff.mpr hne
        omega
      rw [hsplit] at h hreads ⊢
      have hothers := ih more.length hshorter h.suffix rfl
      unfold characters at hothers hreads ⊢
      simp only [List.map_append, List.append_assoc] at hreads hothers ⊢
      exact hreads.trans hothers

theorem normalizeNewlines_cons (h : c ≠ '\r') : normalizeNewlines (c :: text) = c :: normalizeNewlines text := by
  rw [normalizeNewlines]
  . exact fun _ hreturn _ => h hreturn
  . exact h

theorem normalizeNewlines_return (h : text.head? ≠ some '\n')
    : normalizeNewlines ('\r' :: text) = '\n' :: normalizeNewlines text := by
  rw [normalizeNewlines]
  intro later hlater
  rw [hlater] at h
  exact h rfl

theorem newlines_induction {P : List Char → Prop} (hnil : P [])
    (hbreak : ∀ rest, P rest → P ('\r' :: '\n' :: rest))
    (hreturn : ∀ rest, rest.head? ≠ some '\n' → P rest → P ('\r' :: rest))
    (hother : ∀ c rest, c ≠ '\r' → P rest → P (c :: rest)) (text : List Char)
    : P text := by
  fun_induction normalizeNewlines text with
  | case1 => exact hnil
  | case2 rest ih => exact hbreak rest ih
  | case3 rest hfirst ih =>
    refine hreturn rest ?_ ih
    intro hhead
    cases rest with
    | nil => cases hhead
    | cons c rest =>
      cases hhead
      exact hfirst rest rfl
  | case4 c rest hfirst hsecond ih => exact hother c rest hsecond ih

theorem normalizeNewlines_append (h : c ≠ '\n')
    : normalizeNewlines (text ++ c :: rest) = normalizeNewlines text ++ normalizeNewlines (c :: rest) := by
  induction text using newlines_induction with
  | hnil => rfl
  | hbreak text ih =>
    change '\n' :: normalizeNewlines (text ++ c :: rest) = '\n' :: (normalizeNewlines text ++ _)
    rw [ih]
  | hreturn text hhead ih =>
    have hnext : (text ++ c :: rest).head? ≠ some '\n' := by
      cases text with
      | nil =>
        intro hsame
        exact h (Option.some.inj hsame)
      | cons d text => exact hhead
    rw [List.cons_append, normalizeNewlines_return hnext, ih, normalizeNewlines_return hhead]
    rfl
  | hother d text hd ih =>
    rw [List.cons_append, normalizeNewlines_cons hd, ih, normalizeNewlines_cons hd]
    rfl

theorem normalizeNewlines_plain (h : ∀ c ∈ text, c ≠ '\r') : normalizeNewlines text = text := by
  induction text with
  | nil => rfl
  | cons c text ih =>
    obtain ⟨hc, hothers⟩ := List.forall_mem_cons.mp h
    rw [normalizeNewlines_cons hc, ih hothers]

theorem normalizeNewlines_plain_append (h : ∀ c ∈ text, c ≠ '\r')
    : normalizeNewlines (text ++ rest) = text ++ normalizeNewlines rest := by
  induction text with
  | nil => rfl
  | cons c text ih =>
    obtain ⟨hc, hothers⟩ := List.forall_mem_cons.mp h
    rw [List.cons_append, normalizeNewlines_cons hc, ih hothers]
    rfl

theorem normalizeNewlines_flatMap {f : Char → List Char} (hreturn : f '\r' = ['\r']) (hnewline : f '\n' = ['\n'])
    (hother : ∀ c, c ≠ '\r' → c ≠ '\n' → f c ≠ [] ∧ ∀ d ∈ f c, d ≠ '\r' ∧ d ≠ '\n')
    : normalizeNewlines (text.flatMap f) = (normalizeNewlines text).flatMap f := by
  induction text using newlines_induction with
  | hnil => rfl
  | hbreak text ih =>
    rw [List.flatMap_cons, List.flatMap_cons, hreturn, hnewline]
    change '\n' :: normalizeNewlines (text.flatMap f) = f '\n' ++ (normalizeNewlines text).flatMap f
    rw [ih, hnewline]
    rfl
  | hreturn text hhead ih =>
    have hnext : (text.flatMap f).head? ≠ some '\n' := by
      cases text with
      | nil => exact nofun
      | cons d text =>
        rw [List.flatMap_cons]
        by_cases hd : d = '\r'
        . rw [hd, hreturn]
          exact fun hsame => absurd (Option.some.inj hsame) (by decide)
        . have hproper := hother d hd (fun hsame => hhead (congrArg some hsame))
          cases hcase : f d with
          | nil => exact absurd hcase hproper.1
          | cons e others =>
            intro hsame
            exact (hproper.2 e (by rw [hcase]; exact List.mem_cons_self)).2 (Option.some.inj hsame)
    rw [List.flatMap_cons, hreturn, List.singleton_append, normalizeNewlines_return hnext, ih,
      normalizeNewlines_return hhead, List.flatMap_cons, hnewline]
    rfl
  | hother d text hd ih =>
    have hplain : ∀ c ∈ f d, c ≠ '\r' := by
      by_cases hnew : d = '\n'
      . rw [hnew, hnewline]
        intro c hc
        rw [List.mem_singleton.mp hc]
        decide
      . exact fun c hc => ((hother d hd hnew).2 c hc).1
    rw [List.flatMap_cons, normalizeNewlines_plain_append hplain, ih, normalizeNewlines_cons hd, List.flatMap_cons]

theorem eq_of_normalizeNewlines_cons (h : normalizeNewlines text = c :: rest) (hc : c ≠ '\n')
    : ∃ rest', text = c :: rest' ∧ normalizeNewlines rest' = rest := by
  cases text using newlines_induction with
  | hnil => cases h
  | hbreak text _ =>
    cases h
    exact absurd rfl hc
  | hreturn text hhead _ =>
    rw [normalizeNewlines_return hhead] at h
    cases h
    exact absurd rfl hc
  | hother d text hd _ =>
    rw [normalizeNewlines_cons hd] at h
    cases h
    exact ⟨text, rfl, rfl⟩

theorem eq_of_normalizeNewlines_append {front back : List Char} (h : normalizeNewlines text = front ++ '<' :: back)
    : ∃ front' back', text = front' ++ '<' :: back' ∧ normalizeNewlines back' = back := by
  induction text using newlines_induction generalizing front with
  | hnil => cases front <;> cases h
  | hbreak text ih =>
    change '\n' :: normalizeNewlines text = _ at h
    cases front with
    | nil => cases h
    | cons d front =>
      obtain ⟨front', back', hsplit, hback⟩ := ih (List.cons.inj h).2
      exact ⟨'\r' :: '\n' :: front', back', by rw [hsplit]; rfl, hback⟩
  | hreturn text hhead ih =>
    rw [normalizeNewlines_return hhead] at h
    cases front with
    | nil => cases h
    | cons d front =>
      obtain ⟨front', back', hsplit, hback⟩ := ih (List.cons.inj h).2
      exact ⟨'\r' :: front', back', by rw [hsplit]; rfl, hback⟩
  | hother d text hd ih =>
    rw [normalizeNewlines_cons hd] at h
    cases front with
    | nil =>
      cases h
      exact ⟨[], text, rfl, rfl⟩
    | cons e front =>
      obtain ⟨front', back', hsplit, hback⟩ := ih (List.cons.inj h).2
      exact ⟨d :: front', back', by rw [hsplit]; rfl, hback⟩

theorem take_of_normalizeNewlines {count : Nat} (h : ∀ c ∈ (normalizeNewlines text).take count, c ≠ '\n')
    : (normalizeNewlines text).take count = text.take count := by
  induction count generalizing text with
  | zero => rfl
  | succ count ih =>
    cases hnormal : normalizeNewlines text with
    | nil =>
      cases text using newlines_induction with
      | hnil => rfl
      | hbreak _ _ => cases hnormal
      | hreturn text hhead _ =>
        rw [normalizeNewlines_return hhead] at hnormal
        cases hnormal
      | hother d text hd _ =>
        rw [normalizeNewlines_cons hd] at hnormal
        cases hnormal
    | cons c rest =>
      rw [hnormal, List.take_succ_cons] at h
      obtain ⟨hc, hothers⟩ := List.forall_mem_cons.mp h
      obtain ⟨rest', htext, hrest⟩ := eq_of_normalizeNewlines_cons hnormal hc
      rw [← hrest] at hothers
      rw [htext, List.take_succ_cons, List.take_succ_cons, ← hrest, ih hothers]

theorem Quiet.normalizeNewlines (h : Quiet text) : Quiet (normalizeNewlines text) := by
  intro front back hsplit
  obtain ⟨front', back', htext, hback⟩ := eq_of_normalizeNewlines_append hsplit
  obtain ⟨hcloses, hopens⟩ := h front' back' htext
  subst hback
  constructor
  . cases hcase : closesScript (Html.normalizeNewlines back') with
    | false => rfl
    | true =>
      unfold closesScript at hcase hcloses
      rw [decide_eq_true_eq] at hcase
      have hplain : ∀ c ∈ (Html.normalizeNewlines back').take 7, c ≠ '\n' := by
        rintro c hc rfl
        have hlower := List.mem_map_of_mem (f := Char.toLower) hc
        rw [hcase] at hlower
        exact absurd hlower (by decide)
      rw [take_of_normalizeNewlines hplain] at hcase
      rw [hcase] at hcloses
      cases hcloses
  . cases hcase : opensComment (Html.normalizeNewlines back') with
    | false => rfl
    | true =>
      unfold opensComment at hcase hopens
      obtain ⟨later, hlater⟩ := List.isPrefixOf_iff_prefix.mp hcase
      have htake : (Html.normalizeNewlines back').take 3 = ['!', '-', '-'] := by
        rw [← hlater]
        rfl
      have hplain : ∀ c ∈ (Html.normalizeNewlines back').take 3, c ≠ '\n' := by
        rw [htake]
        rintro c hc rfl
        exact absurd hc (by decide)
      rw [take_of_normalizeNewlines hplain] at htake
      rw [← hopens]
      apply Eq.symm
      apply List.isPrefixOf_iff_prefix.mpr
      rw [← htake]
      exact List.take_prefix 3 back'

end Html
