import Pliego.Router.Match

/-!
The canonical spelling of a pattern parses back to the path segments of the pattern.
-/

namespace Pliego

open Bytes Text

namespace Router

variable {unicode : Unicode}

-- What composition to NFC is relied on for.
structure Unicode.Canonical (unicode : Unicode) : Prop where
  keepsSlashes : unicode.KeepsSlashes
  idempotent : ∀ text, unicode.nfc (unicode.nfc text) = unicode.nfc text
  special : ∀ text, ∀ c ∈ ['(', ')', '\\', '%', '#'], c ∈ (unicode.nfc text).toList → c ∈ text.toList
  whitespace : ∀ text, text.toList.any isWhitespace = false →
    (unicode.nfc text).toList.any isWhitespace = false

def RawLiteral (raw : String) : Prop :=
  contains raw '(' = false ∧ contains raw ')' = false ∧ raw.toList.any isWhitespace = false

variable {value : String} {c : Char}

theorem parseSegment_literal {raw : String} {index count : Nat}
    (h : parseSegment unicode raw index count = .ok (.literal value))
    : value = unicode.nfc raw ∧ RawLiteral raw := by
  unfold parseSegment at h
  split at h
  . cases h
  . split at h
    . split at h
      . obtain ⟨_, h⟩ := Except.bind_unit_eq_ok.mp h
        split at h <;> cases h
      . obtain ⟨_, h⟩ := Except.bind_unit_eq_ok.mp h
        cases h
    . split at h
      . obtain ⟨_, h⟩ := Except.bind_unit_eq_ok.mp h
        split at h <;> cases h
      . split at h
        . split at h
          . cases h
          . obtain ⟨_, h⟩ := Except.bind_unit_eq_ok.mp h
            cases h
        . split at h
          . cases h
          . next hplain =>
            obtain ⟨_, h⟩ := Except.bind_unit_eq_ok.mp h
            cases h
            simp only [Bool.or_eq_true, not_or, Bool.not_eq_true] at hplain
            obtain ⟨⟨⟨_, hopen⟩, hclose⟩, hblank⟩ := hplain
            refine ⟨rfl, hopen, hclose, ?_⟩
            rw [List.any_eq_false] at hblank ⊢
            intro c hc hspace
            exact hblank c hc (by rw [hspace, Bool.or_true])

theorem parseSegments_literal {count : Nat} {raws : List String} {index : Nat} {names : List String}
    {segments : List Segment} (h : parseSegments unicode count raws index names = .ok segments)
    (hvalue : .literal value ∈ segments)
    : ∃ raw ∈ raws, value = unicode.nfc raw ∧ RawLiteral raw := by
  induction raws generalizing index names segments with
  | nil =>
    cases h
    cases hvalue
  | cons raw raws ih =>
    unfold parseSegments at h
    obtain ⟨segment, hsegment, h⟩ := Except.bind_eq_ok.mp h
    obtain ⟨names', _, h⟩ := Except.bind_eq_ok.mp h
    obtain ⟨rest, hrest, h⟩ := Except.bind_eq_ok.mp h
    cases h
    cases List.mem_cons.mp hvalue with
    | inl hsame =>
      rw [← hsame] at hsegment
      exact ⟨raw, List.mem_cons_self, parseSegment_literal hsegment⟩
    | inr hmem =>
      obtain ⟨other, hother, hfacts⟩ := ih hrest hmem
      exact ⟨other, List.mem_cons_of_mem _ hother, hfacts⟩

theorem validatePatternEnvelope_ok {pattern : String} (h : validatePatternEnvelope pattern = .ok ())
    : (utf8 pattern).length ≤ maxPatternBytes
      ∧ ∀ c ∈ ['\\', '%', '#'], c ∉ pattern.toList := by
  unfold validatePatternEnvelope at h
  split at h
  . cases h
  . next hshape =>
    split at h
    . cases h
    . split at h
      . cases h
      . next hplain =>
        simp only [Bool.or_eq_true, not_or, Bool.not_eq_true, decide_eq_true_eq, not_lt,
          contains] at hshape hplain
        refine ⟨hshape.1.2, ?_⟩
        obtain ⟨⟨⟨⟨_, hbackslash⟩, hpercent⟩, hhash⟩, _⟩ := hplain
        simp only [List.contains_eq_mem, decide_eq_false_iff_not] at hbackslash hpercent hhash
        intro c hc
        simp only [List.mem_cons, List.not_mem_nil, or_false] at hc
        rcases hc with rfl | rfl | rfl <;> assumption

theorem mem_of_mem_rawSegments {path piece : String} (h : piece ∈ rawSegments path)
    (hc : c ∈ piece.toList) : c ∈ path.toList := by
  unfold rawSegments at h
  split at h
  . cases h
  . have hjoin := @join_split '/' (String.ofList path.toList.tail)
    apply List.mem_of_mem_tail
    rw [← String.toList_ofList (l := path.toList.tail), ← hjoin]
    unfold join
    rw [String.toList_ofList]
    exact mem_intercalate.mpr (.inr ⟨piece.toList, List.mem_map.mpr ⟨piece, h, rfl⟩, hc⟩)

theorem isNameByte_ascii {byte : UInt8} (h : isNameByte byte = true) : byte.toNat < 128 := by
  revert byte
  decide +kernel

theorem not_isNameByte_of_isControl (hascii : c.toNat < 128) (hc : isControl c = true)
    : ¬ isNameByte (UInt8.ofNat c.toNat) = true := by
  have hcodes : ∀ code : Fin 128, (code.val < 32 ∨ code.val = 127) →
      ¬ isNameByte (UInt8.ofNat code.val) = true := by
    decide
  apply hcodes ⟨c.toNat, hascii⟩
  unfold isControl at hc
  simp only [Bool.or_eq_true, Bool.and_eq_true, decide_eq_true_eq] at hc
  dsimp only
  omega

namespace RoutePattern

variable {pattern : RoutePattern}

theorem Parsed.envelope (h : pattern.Parsed unicode)
    : ∀ c ∈ ['\\', '%', '#'], c ∉ pattern.authored.toList := by
  have hparsed := h.parsed
  unfold parse at hparsed
  obtain ⟨henvelope, _⟩ := Except.bind_unit_eq_ok.mp hparsed
  exact (validatePatternEnvelope_ok henvelope).2

theorem Parsed.literal (h : pattern.Parsed unicode) {value : String} (hvalue : .literal value ∈ pattern.segments)
    : ∃ raw ∈ rawSegments pattern.authored, value = unicode.nfc raw ∧ RawLiteral raw := by
  have hparsed := h.parsed
  unfold parse at hparsed
  obtain ⟨_, hparsed⟩ := Except.bind_unit_eq_ok.mp hparsed
  dsimp only at hparsed
  split at hparsed
  . cases hparsed
  . obtain ⟨segments, hsegments, hparsed⟩ := Except.bind_eq_ok.mp hparsed
    rw [← Except.ok.inj hparsed] at hvalue
    exact parseSegments_literal hsegments hvalue

end RoutePattern

theorem isPortableLiteral_ok (h : isPortableLiteral unicode value = true)
    : value ≠ "" ∧ value ≠ "." ∧ value ≠ ".." ∧ ∀ c ∈ value.toList, isReservedCharacter c = false := by
  unfold isPortableLiteral at h
  simp only [Bool.and_eq_true, Bool.not_eq_true', decide_eq_true_eq] at h
  obtain ⟨⟨⟨⟨⟨hempty, _⟩, hdot⟩, _⟩, hreserved⟩, _⟩ := h
  refine ⟨hempty, ?_, ?_, ?_⟩
  . rintro rfl
    cases hdot
  . rintro rfl
    cases hdot
  . intro c hc
    simpa using List.any_eq_false.mp hreserved c hc

theorem validatePortableLiteral_ok (h : isPortableLiteral unicode value = true)
    : validatePortableLiteral unicode value = .ok () := by
  unfold validatePortableLiteral
  rw [if_pos h]

theorem not_startsWith {text : String} (h : c ∉ text.toList)
    : startsWith c text = false := by
  unfold startsWith
  rw [decide_eq_false_iff_not]
  exact fun hhead => h (List.mem_of_head? hhead)

theorem not_endsWith {text : String} (h : c ∉ text.toList) : endsWith c text = false := by
  unfold endsWith
  rw [decide_eq_false_iff_not]
  exact fun hlast => h (List.mem_of_getLast? hlast)

theorem not_contains {text : String} (h : c ∉ text.toList) : contains text c = false := by
  unfold contains
  rw [List.contains_eq_mem, decide_eq_false_iff_not]
  exact h

theorem parseSegment_of_literal (hportable : isPortableLiteral unicode value = true)
    (hnormal : unicode.nfc value = value) (hopen : '(' ∉ value.toList) (hclose : ')' ∉ value.toList)
    (hblank : value.toList.any isWhitespace = false) (index count : Nat)
    : parseSegment unicode value index count = .ok (.literal value) := by
  obtain ⟨hempty, hdot, hdots, hreserved⟩ := isPortableLiteral_ok hportable
  have hnot : ∀ c, isReservedCharacter c = true → c ∉ value.toList := by
    intro c hc hmem
    rw [hreserved c hmem] at hc
    cases hc
  have hfirst : ∀ c, isReservedCharacter c = true → stripPrefix c value = none :=
    fun c hc => stripPrefix_of_ne (fun hhead => hnot c hc (List.mem_of_head? hhead))
  have hplain : value.toList.any (fun c => isControl c || isWhitespace c) = false := by
    rw [List.any_eq_false] at hblank ⊢
    intro c hc
    rw [Bool.or_eq_true, not_or]
    refine ⟨?_, hblank c hc⟩
    intro hcontrol
    apply hnot c _ hc
    unfold isReservedCharacter
    rw [hcontrol, Bool.true_or]
  unfold parseSegment
  simp only [hempty, hdot, hdots, decide_false, Bool.or_self, Bool.false_eq_true, if_false]
  rw [hfirst ':' (by decide), hfirst '*' (by decide)]
  simp only [not_startsWith hopen, not_endsWith hclose, not_startsWith (hnot ':' (by decide)),
    not_startsWith (hnot '*' (by decide)), not_contains (hnot '?' (by decide)), not_contains hopen,
    not_contains hclose, hplain, Bool.or_self, Bool.false_eq_true, if_false]
  rw [hnormal, validatePortableLiteral_ok hportable]
  rfl

theorem parseSegment_render {segment : Segment} (hwell : segment.WellFormed unicode)
    (hpath : segment.consumesPath = true)
    (hliteral : ∀ value, segment = .literal value → unicode.nfc value = value
      ∧ '(' ∉ value.toList ∧ ')' ∉ value.toList ∧ value.toList.any isWhitespace = false)
    {index count : Nat} (hplace : segment.isTerminal = true → index + 1 = count)
    : parseSegment unicode segment.render index count = .ok segment := by
  have hword : ∀ {text : String}, 2 ≤ text.toList.length → text.toList.head? ≠ some '.' →
      ¬ ((decide (text = "") || decide (text = ".") || decide (text = "..")) = true) := by
    intro text hlength hhead hshort
    simp only [Bool.or_eq_true, decide_eq_true_eq] at hshort
    rcases hshort with (rfl | rfl) | rfl
    . exact absurd hlength (by decide)
    . exact hhead rfl
    . exact hhead rfl
  have hlength : ∀ {name : String}, validateParameter name = .ok () → 1 ≤ name.toList.length := by
    intro name hname
    have hne := (validateParameter_ok hname).1
    rw [Nat.one_le_iff_ne_zero, ne_eq, List.length_eq_zero_iff]
    exact fun hnil => hne (String.toList_inj.mp hnil)
  have hsuffix : ∀ {name : String}, validateParameter name = .ok () →
      stripSuffix '?' name = none := by
    intro name hname
    have hnot : '?' ∉ name.toList := not_mem_of_isNameByte (validateParameter_ok hname).2.2
      (by decide) (by decide)
    unfold stripSuffix
    rw [if_neg]
    exact fun hlast => hnot (List.mem_of_getLast? hlast)
  cases segment with
  | literal value =>
    obtain ⟨hnormal, hopen, hclose, hblank⟩ := hliteral value rfl
    exact parseSegment_of_literal hwell.1 hnormal hopen hclose hblank index count
  | parameter name =>
    have hname := hlength hwell
    unfold Segment.render parseSegment
    dsimp only
    rw [if_neg (hword (by simp; omega) (by simp)), stripPrefix_append (c := ':') ":" rfl]
    dsimp only
    rw [hsuffix hwell]
    dsimp only
    rw [show validateParameter name = .ok () from hwell]
    rfl
  | optionalParameter name =>
    have hname := hlength hwell
    have hstrip : stripSuffix '?' (name ++ "?") = some name := by
      unfold stripSuffix
      rw [String.toList_append, if_pos (by simp)]
      simp
    rw [show Segment.render (.optionalParameter name) = ":" ++ (name ++ "?") from
      String.append_assoc]
    unfold parseSegment
    rw [if_neg (hword (by simp) (by simp)), stripPrefix_append (c := ':') ":" rfl]
    dsimp only
    rw [hstrip]
    dsimp only
    rw [show validateParameter name = .ok () from hwell]
    exact if_neg (not_not.mpr (hplace rfl))
  | catchAll name =>
    have hname := hlength hwell
    have hcolon : stripPrefix ':' ("*" ++ name) = none := by
      apply stripPrefix_of_ne
      simp
    unfold Segment.render parseSegment
    dsimp only
    rw [if_neg (hword (by simp; omega) (by simp)), hcolon, stripPrefix_append (c := '*') "*" rfl]
    dsimp only
    rw [show validateParameter name = .ok () from hwell]
    exact if_neg (not_not.mpr (hplace rfl))
  | group name => cases hpath

theorem freshName_of_not_mem {segment : Segment} {names : List String}
    (h : ∀ name ∈ segment.parameterName, name ∉ names)
    : freshName segment names = .ok (segment.parameterName.toList ++ names) := by
  unfold freshName
  cases hname : segment.parameterName with
  | none => rfl
  | some name =>
    dsimp only
    rw [if_neg (h name hname)]
    rfl

theorem parseSegments_render {segments : List Segment}
    (hwell : ∀ segment ∈ segments, segment.WellFormed unicode ∧ segment.consumesPath = true)
    (hliteral : ∀ value, .literal value ∈ segments → unicode.nfc value = value
      ∧ '(' ∉ value.toList ∧ ')' ∉ value.toList ∧ value.toList.any isWhitespace = false)
    (hplaced : ∀ segment ∈ segments.dropLast, segment.isTerminal = false)
    (hnodup : (segments.filterMap Segment.parameterName).Nodup) {count index : Nat}
    (hcount : index + segments.length = count) {names : List String}
    (hfresh : ∀ name ∈ segments.filterMap Segment.parameterName, name ∉ names)
    : parseSegments unicode count (segments.map Segment.render) index names = .ok segments := by
  induction segments generalizing index names with
  | nil => rfl
  | cons segment segments ih =>
    obtain ⟨hfirst, hpath⟩ := hwell segment List.mem_cons_self
    have hplace : segment.isTerminal = true → index + 1 = count := by
      intro hterminal
      cases segments with
      | nil => exact hcount
      | cons second segments =>
        rw [List.dropLast_cons_cons] at hplaced
        rw [hplaced segment List.mem_cons_self] at hterminal
        cases hterminal
    have hrest : ∀ segment ∈ segments.dropLast, segment.isTerminal = false := by
      cases segments with
      | nil => simp
      | cons second segments =>
        rw [List.dropLast_cons_cons] at hplaced
        exact fun other hother => hplaced other (List.mem_cons_of_mem _ hother)
    have hnames : ∀ name ∈ segment.parameterName, name ∉ names
        ∧ name ∉ segments.filterMap Segment.parameterName := by
      intro name hname
      rw [List.filterMap_cons_some hname] at hnodup hfresh
      exact ⟨hfresh name List.mem_cons_self, (List.nodup_cons.mp hnodup).1⟩
    have hsub : ∀ name ∈ segments.filterMap Segment.parameterName,
        name ∈ (segment :: segments).filterMap Segment.parameterName := by
      intro name hname
      rw [List.mem_filterMap] at hname ⊢
      obtain ⟨other, hother, hsame⟩ := hname
      exact ⟨other, List.mem_cons_of_mem _ hother, hsame⟩
    rw [List.map_cons, parseSegments, parseSegment_render hfirst hpath
      (fun value hvalue => hliteral value (hvalue ▸ List.mem_cons_self)) hplace]
    change (freshName segment names >>= _) = _
    rw [freshName_of_not_mem (fun name hname => (hnames name hname).1)]
    change (parseSegments unicode count (segments.map Segment.render) (index + 1)
      (segment.parameterName.toList ++ names) >>= _) = _
    rw [ih (fun other hother => hwell other (List.mem_cons_of_mem _ hother))
      (fun value hvalue => hliteral value (List.mem_cons_of_mem _ hvalue)) hrest
      (hnodup.sublist ((List.sublist_cons_self _ _).filterMap _))
      (by rw [List.length_cons] at hcount; omega)]
    . rfl
    . intro name hname hmem
      cases List.mem_append.mp hmem with
      | inl hhead => exact (hnames name (by simpa using hhead)).2 hname
      | inr htail => exact hfresh name (hsub name hname) htail

namespace RoutePattern

variable {pattern : RoutePattern}

def withoutGroups (pattern : RoutePattern) : RoutePattern :=
  { authored := pattern.canonical
    canonical := pattern.canonical
    segments := pattern.pathSegments }

theorem pathSegments_withoutGroups : pattern.withoutGroups.pathSegments = pattern.pathSegments := by
  unfold withoutGroups pathSegments pathSegmentsOf
  rw [List.filter_filter]
  simp

theorem Parsed.literal_normal (hunicode : unicode.Canonical) (h : pattern.Parsed unicode)
    {value : String} (hvalue : .literal value ∈ pattern.pathSegments)
    : unicode.nfc value = value ∧ '(' ∉ value.toList ∧ ')' ∉ value.toList
      ∧ value.toList.any isWhitespace = false := by
  obtain ⟨raw, _, rfl, hopen, hclose, hblank⟩ := h.literal (pathSegments_sublist.subset hvalue)
  unfold contains at hopen hclose
  rw [List.contains_eq_mem, decide_eq_false_iff_not] at hopen hclose
  exact ⟨hunicode.idempotent raw, fun hmem => hopen (hunicode.special raw '(' (by simp) hmem),
    fun hmem => hclose (hunicode.special raw ')' (by simp) hmem), hunicode.whitespace raw hblank⟩

theorem mem_canonical (h : pattern.Parsed unicode) {c : Char}
    : c ∈ pattern.canonical.toList
      ↔ c = '/' ∨ ∃ segment ∈ pattern.pathSegments, c ∈ segment.render.toList := by
  rw [h.canonical]
  by_cases hnil : pattern.pathSegments.map Segment.render = []
  . rw [hnil, List.map_eq_nil_iff.mp hnil]
    simp [joinPath]
  . rw [toList_joinPath hnil, List.mem_cons]
    unfold join
    rw [String.toList_ofList, mem_intercalate]
    constructor
    . rintro (hmark | ⟨hmark, _⟩ | ⟨chars, hchars, hin⟩)
      . exact .inl hmark
      . exact .inl hmark
      . obtain ⟨piece, hpiece, rfl⟩ := List.mem_map.mp hchars
        obtain ⟨segment, hsegment, rfl⟩ := List.mem_map.mp hpiece
        exact .inr ⟨segment, hsegment, hin⟩
    . rintro (hmark | ⟨segment, hsegment, hin⟩)
      . exact .inl hmark
      . refine .inr (.inr ⟨segment.render.toList, ?_, hin⟩)
        exact List.mem_map_of_mem (List.mem_map_of_mem hsegment)

theorem Parsed.not_mem_canonical (hunicode : unicode.Canonical) (h : pattern.Parsed unicode) {c : Char}
    (hc : c ∈ ['\\', '%', '#'] ∨ isControl c = true) : c ∉ pattern.canonical.toList := by
  have hslash : c ≠ '/' ∧ c ≠ ':' ∧ c ≠ '*' ∧ c ≠ '?' := by
    rcases hc with hc | hc
    . simp only [List.mem_cons, List.not_mem_nil, or_false] at hc
      rcases hc with rfl | rfl | rfl <;> decide
    . refine ⟨?_, ?_, ?_, ?_⟩ <;> rintro rfl <;> exact absurd hc (by decide)
  have hname : ∀ {name : String}, validateParameter name = .ok () → c ∉ name.toList := by
    intro name hname hmem
    obtain ⟨hascii, hbyte⟩ := ascii_of_all (fun byte => isNameByte_ascii) (validateParameter_ok hname).2.2
      hmem
    rcases hc with hc | hc
    . simp only [List.mem_cons, List.not_mem_nil, or_false] at hc
      rcases hc with rfl | rfl | rfl <;> exact absurd hbyte (by decide)
    . exact not_isNameByte_of_isControl hascii hc hbyte
  intro hmem
  cases (mem_canonical h).mp hmem with
  | inl hmark => exact hslash.1 hmark
  | inr hmem =>
    obtain ⟨segment, hsegment, hin⟩ := hmem
    have hwell := h.wellFormed_path segment hsegment
    cases segment with
    | literal value =>
      rcases hc with hspecial | hcontrol
      . obtain ⟨raw, hraw, rfl, _⟩ := h.literal (pathSegments_sublist.subset hsegment)
        have hauthored := mem_of_mem_rawSegments hraw (hunicode.special raw c (by
          simp only [List.mem_cons, List.not_mem_nil, or_false] at hspecial ⊢
          tauto) hin)
        exact h.envelope c hspecial hauthored
      . have hportable := (isPortableLiteral_ok hwell.1).2.2.2 c hin
        unfold isReservedCharacter at hportable
        rw [hcontrol, Bool.true_or] at hportable
        cases hportable
    | parameter name => 
      cases List.mem_append.mp (String.toList_append ▸ hin) with
      | inl hmark => exact hslash.2.1 (List.mem_singleton.mp hmark)
      | inr hrest => exact hname hwell hrest
    | optionalParameter name =>
      rw [Segment.render, String.toList_append, String.toList_append, List.mem_append, List.mem_append] at hin
      rcases hin with (hmark | hrest) | hmark
      . exact hslash.2.1 (List.mem_singleton.mp hmark)
      . exact hname hwell hrest
      . exact hslash.2.2.2 (List.mem_singleton.mp hmark)
    | catchAll name =>
      cases List.mem_append.mp (String.toList_append ▸ hin) with
      | inl hmark => exact hslash.2.2.1 (List.mem_singleton.mp hmark)
      | inr hrest => exact hname hwell hrest
    | group name => cases hin
theorem Parsed.mark_mem_canonical (h : pattern.Parsed unicode)
    : '?' ∈ pattern.canonical.toList ↔ ∃ name, .optionalParameter name ∈ pattern.pathSegments := by
  have hname : ∀ {name : String}, validateParameter name = .ok () → '?' ∉ name.toList :=
    fun hname => not_mem_of_isNameByte (validateParameter_ok hname).2.2 (by decide)
      (by decide)
  rw [mem_canonical h]
  constructor
  . rintro (hmark | ⟨segment, hsegment, hin⟩)
    . exact absurd hmark (by decide)
    . have hwell := h.wellFormed_path segment hsegment
      cases segment with
      | literal value =>
        have hreserved := (isPortableLiteral_ok hwell.1).2.2.2 '?' hin
        exact absurd hreserved (by decide)
      | parameter name =>
        cases List.mem_append.mp (String.toList_append ▸ hin) with
        | inl hmark => exact absurd (List.mem_singleton.mp hmark) (by decide)
        | inr hrest => exact absurd hrest (hname hwell)
      | optionalParameter name => exact ⟨name, hsegment⟩
      | catchAll name =>
        cases List.mem_append.mp (String.toList_append ▸ hin) with
        | inl hmark => exact absurd (List.mem_singleton.mp hmark) (by decide)
        | inr hrest => exact absurd hrest (hname hwell)
      | group name => cases hin
  . rintro ⟨name, hsegment⟩
    refine .inr ⟨_, hsegment, ?_⟩
    unfold Segment.render
    dsimp only
    rw [String.toList_append, List.mem_append]
    exact .inr (by simp)

theorem Parsed.rendered (h : pattern.Parsed unicode)
    : ∀ piece ∈ pattern.pathSegments.map Segment.render, '/' ∉ piece.toList ∧ piece ≠ "" := by
  intro piece hpiece
  obtain ⟨segment, hsegment, rfl⟩ := List.mem_map.mp hpiece
  exact WellFormed.render (h.wellFormed_path segment hsegment) (consumesPath_of_mem hsegment)

theorem Parsed.canonical_shape (h : pattern.Parsed unicode)
    : startsWith '/' pattern.canonical = true ∧ containsPair '/' '/' pattern.canonical.toList = false
      ∧ (pattern.canonical ≠ "/" → endsWith '/' pattern.canonical = false) := by
  rw [h.canonical]
  by_cases hnil : pattern.pathSegments.map Segment.render = []
  . rw [hnil]
    exact ⟨by decide, by decide, fun hne => absurd rfl hne⟩
  . have hchars := toList_joinPath hnil
    unfold join at hchars
    rw [String.toList_ofList] at hchars
    have hpieces : ∀ piece ∈ (pattern.pathSegments.map Segment.render).map String.toList,
        '/' ∉ piece ∧ piece ≠ [] := by
      intro piece hpiece
      obtain ⟨text, htext, rfl⟩ := List.mem_map.mp hpiece
      obtain ⟨hslash, hempty⟩ := h.rendered text htext
      exact ⟨hslash, fun hnone => hempty (String.toList_inj.mp hnone)⟩
    obtain ⟨hpair, last, hlast, hne⟩ := joined_pieces (by simpa using hnil) hpieces
    unfold startsWith endsWith
    rw [hchars]
    refine ⟨rfl, hpair, ?_⟩
    intro _
    rw [List.getLast?_cons, hlast, decide_eq_false_iff_not]
    simpa using hne

theorem Parsed.reparse (hunicode : unicode.Canonical) (h : pattern.Parsed unicode)
    (hlength : (utf8 pattern.canonical).length ≤ maxPatternBytes)
    : parse unicode pattern.canonical = .ok pattern.withoutGroups := by
  have hraws : rawSegments pattern.canonical = pattern.pathSegments.map Segment.render := by
    rw [h.canonical]
    exact rawSegments_joinPath h.rendered
  have henvelope : validatePatternEnvelope pattern.canonical = .ok () := by
    obtain ⟨hstart, hpair, hend⟩ := h.canonical_shape
    have hnot : ∀ c, c ∈ ['\\', '%', '#'] ∨ isControl c = true →
        contains pattern.canonical c = false :=
      fun c hc => not_contains (h.not_mem_canonical hunicode hc)
    have hempty : pattern.canonical ≠ "" := by
      intro hnone
      rw [hnone] at hstart
      cases hstart
    unfold validatePatternEnvelope
    rw [if_neg, if_neg, if_neg]
    . rw [hpair, hnot '\\' (by simp), hnot '%' (by simp), hnot '#' (by simp), hnot '\x00' (by decide)]
      decide
    . by_cases hroot : pattern.canonical = "/"
      . simp [hroot]
      . simp [hend hroot]
    . simp [hempty, hstart, Nat.not_lt.mpr hlength]
  have hsegments : parseSegments unicode pattern.pathSegments.length
      (pattern.pathSegments.map Segment.render) 0 [] = .ok pattern.pathSegments :=
    parseSegments_render
      (fun segment hsegment => ⟨h.wellFormed_path segment hsegment, consumesPath_of_mem hsegment⟩)
      (fun value hvalue => h.literal_normal hunicode hvalue) h.placed_path h.names_path
      (Nat.zero_add _) (by simp)
  have hcount : pattern.pathSegments.length ≤ maxRouteSegments :=
    Nat.le_trans pathSegments_sublist.length_le h.count
  unfold parse
  rw [henvelope, hraws]
  change (if _ then _ else _) = _
  rw [List.length_map, if_neg (Nat.not_lt.mpr hcount), hsegments]
  change Except.ok _ = _
  have hpath : pathSegmentsOf pattern.pathSegments = pattern.pathSegments := by
    exact pathSegments_withoutGroups
  rw [hpath, ← h.canonical]
  rfl

end RoutePattern

end Router

end Pliego
