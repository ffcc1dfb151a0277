import Pliego.Lib.Url

/-!
The Markdown of `pliego-content`: the events of the CommonMark parser, the policy they are accepted under, and the
schemes a browser finds in what was accepted.
-/

namespace Pliego

open Bytes

namespace Content

inductive MarkdownPolicy where
  | safe
  | trusted
  deriving DecidableEq

inductive MarkdownLinkKind where
  | inline
  | reference
  | referenceUnknown
  | collapsed
  | collapsedUnknown
  | shortcut
  | shortcutUnknown
  | autolink
  | email
  deriving DecidableEq

inductive MarkdownCodeBlock where
  | indented
  | fenced (info : String)
  deriving DecidableEq

inductive MarkdownTag where
  | paragraph
  | heading (level : Nat)
  | blockQuote
  | codeBlock (block : MarkdownCodeBlock)
  | htmlBlock
  | list (start : Option Nat)
  | item
  | emphasis
  | strong
  | link (kind : MarkdownLinkKind) (destination title id : String)
  | image (kind : MarkdownLinkKind) (destination title id : String)
  deriving DecidableEq

inductive MarkdownTagEnd where
  | paragraph
  | heading (level : Nat)
  | blockQuote
  | codeBlock
  | htmlBlock
  | list (ordered : Bool)
  | item
  | emphasis
  | strong
  | link
  | image
  deriving DecidableEq

inductive MarkdownEvent where
  | start (tag : MarkdownTag)
  | finish (tag : MarkdownTagEnd)
  | text (value : String)
  | code (value : String)
  | rawHtml (block : Bool) (value : String)
  | softBreak
  | hardBreak
  | rule
  deriving DecidableEq

structure SourceSpan where
  offset : Nat
  length : Nat
  line : Nat
  column : Nat
  deriving DecidableEq

def startsChar (byte : UInt8) : Bool :=
  byte < 0x80 || 0xC0 ≤ byte

def SourceSpan.fromRange (source : String) (start stop : Nat) : SourceSpan :=
  let bytes := utf8 source
  let offset := min start bytes.length
  let stop := min (max stop offset) bytes.length
  let front := bytes.take offset
  {
    offset := offset
    length := stop - offset
    line := front.count 10 + 1
    column := ((front.reverse.takeWhile (· != 10)).filter startsChar).length + 1
  }

structure SpannedMarkdownEvent where
  event : MarkdownEvent
  span : SourceSpan

structure MarkdownDocument where
  source : String
  ast : List SpannedMarkdownEvent

inductive MarkdownSecurityIssue where
  | rawHtml
  | disallowedUri
  deriving DecidableEq

structure MarkdownRenderError where
  issue : MarkdownSecurityIssue
  span : SourceSpan
  message : String

/-!
The events of the parser, with those of its extensions in one case: the parser runs with none of them, and meeting
one is unreachable.
-/

inductive LinkType where
  | inline
  | reference
  | referenceUnknown
  | collapsed
  | collapsedUnknown
  | shortcut
  | shortcutUnknown
  | autolink
  | email
  | wikiLink (hasPothole : Bool)

inductive HeadingLevel where
  | h1
  | h2
  | h3
  | h4
  | h5
  | h6

inductive ParserTag where
  | paragraph
  | heading (level : HeadingLevel)
  | blockQuote
  | codeBlock (block : MarkdownCodeBlock)
  | htmlBlock
  | list (start : Option Nat)
  | item
  | emphasis
  | strong
  | link (linkType : LinkType) (destUrl title id : String)
  | image (linkType : LinkType) (destUrl title id : String)
  | extension

inductive ParserTagEnd where
  | paragraph
  | heading (level : HeadingLevel)
  | blockQuote
  | codeBlock
  | htmlBlock
  | list (ordered : Bool)
  | item
  | emphasis
  | strong
  | link
  | image
  | extension

inductive ParserEvent where
  | start (tag : ParserTag)
  | finish (tag : ParserTagEnd)
  | text (value : String)
  | code (value : String)
  | html (value : String)
  | inlineHtml (value : String)
  | softBreak
  | hardBreak
  | rule
  | extension

def headingToU8 (level : HeadingLevel) : Nat :=
  match level with
  | .h1 => 1
  | .h2 => 2
  | .h3 => 3
  | .h4 => 4
  | .h5 => 5
  | .h6 => 6

def u8ToHeading (level : Nat) : Option HeadingLevel :=
  match level with
  | 1 => some .h1
  | 2 => some .h2
  | 3 => some .h3
  | 4 => some .h4
  | 5 => some .h5
  | 6 => some .h6
  | _ => none

def fromLinkType (linkType : LinkType) : Option MarkdownLinkKind :=
  match linkType with
  | .inline => some .inline
  | .reference => some .reference
  | .referenceUnknown => some .referenceUnknown
  | .collapsed => some .collapsed
  | .collapsedUnknown => some .collapsedUnknown
  | .shortcut => some .shortcut
  | .shortcutUnknown => some .shortcutUnknown
  | .autolink => some .autolink
  | .email => some .email
  | .wikiLink _ => none

def toLinkType (kind : MarkdownLinkKind) : LinkType :=
  match kind with
  | .inline => .inline
  | .reference => .reference
  | .referenceUnknown => .referenceUnknown
  | .collapsed => .collapsed
  | .collapsedUnknown => .collapsedUnknown
  | .shortcut => .shortcut
  | .shortcutUnknown => .shortcutUnknown
  | .autolink => .autolink
  | .email => .email

def fromParserTag (tag : ParserTag) : Option MarkdownTag :=
  match tag with
  | .paragraph => some .paragraph
  | .heading level => some (.heading (headingToU8 level))
  | .blockQuote => some .blockQuote
  | .codeBlock block => some (.codeBlock block)
  | .htmlBlock => some .htmlBlock
  | .list start => some (.list start)
  | .item => some .item
  | .emphasis => some .emphasis
  | .strong => some .strong
  | .link linkType destUrl title id => (fromLinkType linkType).map fun kind => .link kind destUrl title id
  | .image linkType destUrl title id => (fromLinkType linkType).map fun kind => .image kind destUrl title id
  | .extension => none

def fromParserEnd (tag : ParserTagEnd) : Option MarkdownTagEnd :=
  match tag with
  | .paragraph => some .paragraph
  | .heading level => some (.heading (headingToU8 level))
  | .blockQuote => some .blockQuote
  | .codeBlock => some .codeBlock
  | .htmlBlock => some .htmlBlock
  | .list ordered => some (.list ordered)
  | .item => some .item
  | .emphasis => some .emphasis
  | .strong => some .strong
  | .link => some .link
  | .image => some .image
  | .extension => none

def fromParserEvent (event : ParserEvent) : Option MarkdownEvent :=
  match event with
  | .start tag => (fromParserTag tag).map .start
  | .finish tag => (fromParserEnd tag).map .finish
  | .text value => some (.text value)
  | .code value => some (.code value)
  | .html value => some (.rawHtml true value)
  | .inlineHtml value => some (.rawHtml false value)
  | .softBreak => some .softBreak
  | .hardBreak => some .hardBreak
  | .rule => some .rule
  | .extension => none

def toParserTag (tag : MarkdownTag) : Option ParserTag :=
  match tag with
  | .paragraph => some .paragraph
  | .heading level => (u8ToHeading level).map .heading
  | .blockQuote => some .blockQuote
  | .codeBlock block => some (.codeBlock block)
  | .htmlBlock => some .htmlBlock
  | .list start => some (.list start)
  | .item => some .item
  | .emphasis => some .emphasis
  | .strong => some .strong
  | .link kind destination title id => some (.link (toLinkType kind) destination title id)
  | .image kind destination title id => some (.image (toLinkType kind) destination title id)

def toParserEnd (tag : MarkdownTagEnd) : Option ParserTagEnd :=
  match tag with
  | .paragraph => some .paragraph
  | .heading level => (u8ToHeading level).map .heading
  | .blockQuote => some .blockQuote
  | .codeBlock => some .codeBlock
  | .htmlBlock => some .htmlBlock
  | .list ordered => some (.list ordered)
  | .item => some .item
  | .emphasis => some .emphasis
  | .strong => some .strong
  | .link => some .link
  | .image => some .image

def toParserEvent (event : MarkdownEvent) : Option ParserEvent :=
  match event with
  | .start tag => (toParserTag tag).map .start
  | .finish tag => (toParserEnd tag).map .finish
  | .text value => some (.text value)
  | .code value => some (.code value)
  | .rawHtml true value => some (.html value)
  | .rawHtml false value => some (.inlineHtml value)
  | .softBreak => some .softBreak
  | .hardBreak => some .hardBreak
  | .rule => some .rule

/-!
The library's lower case of a character, of which the code relies on the ASCII part, and its debug form of a string,
the parser, which delivers destinations with their entities decoded, and the writer of its events.
-/

structure StringLibrary where
  debug : String → String
  toLowercase : Char → List Char
  ascii : ∀ c : Char, c.toNat < 128 → toLowercase c = [c.toLower]

abbrev CommonMark := String → List (ParserEvent × Nat × Nat)

abbrev PushHtml := List ParserEvent → String

def isAsciiControl (c : Char) : Bool :=
  c.toNat < 32 || c.toNat = 127

def isAsciiWhitespace (c : Char) : Bool :=
  c.toNat = 32 || c.toNat = 9 || c.toNat = 10 || c.toNat = 12 || c.toNat = 13

def isBoundary (c : Char) : Bool :=
  c = '/' || c = '?' || c = '#'

def allowedSchemes : List (List Char) :=
  ["http".toList, "https".toList, "mailto".toList, "tel".toList]

def safeDestination (library : StringLibrary) (destination : String) : Bool :=
  let trimmed := Text.trim destination.toList
  if trimmed.isEmpty || ['#'].isPrefixOf trimmed || ['/'].isPrefixOf trimmed || ['.', '/'].isPrefixOf trimmed
      || ['.', '.', '/'].isPrefixOf trimmed || ['?'].isPrefixOf trimmed then
    true
  else
    let front := trimmed.takeWhile (!isBoundary ·)
    if front.contains ':' then
      let scheme := ((front.takeWhile (· != ':')).filter fun c => !isAsciiControl c && !isAsciiWhitespace c).flatMap
        library.toLowercase
      allowedSchemes.contains scheme
    else
      true

def checkEvent (library : StringLibrary) (event : SpannedMarkdownEvent) : Except MarkdownRenderError Unit :=
  match event.event with
  | .rawHtml _ _ | .start .htmlBlock =>
    .error ⟨.rawHtml, event.span, "raw HTML requires MarkdownPolicy::Trusted"⟩
  | .start (.link _ destination _ _) | .start (.image _ destination _ _) =>
    if safeDestination library destination then
      .ok ()
    else
      .error ⟨.disallowedUri, event.span, s!"URI scheme in {library.debug destination} requires MarkdownPolicy::Trusted"⟩
  | _ => .ok ()

def checkEvents (library : StringLibrary) (events : List SpannedMarkdownEvent) : Except MarkdownRenderError Unit :=
  match events with
  | [] => .ok ()
  | event :: rest =>
    match checkEvent library event with
    | .error error => .error error
    | .ok () => checkEvents library rest

def validateAst (library : StringLibrary) (ast : List SpannedMarkdownEvent) (policy : MarkdownPolicy)
    : Except MarkdownRenderError Unit :=
  if policy = .trusted then .ok () else checkEvents library ast

-- `none` where an event of an extension is met.
def parseMarkdown (library : StringLibrary) (parser : CommonMark) (source : String) (policy : MarkdownPolicy)
    : Option (Except MarkdownRenderError MarkdownDocument) := do
  let ast ← (parser source).mapM fun spanned => do
    let event ← fromParserEvent spanned.1
    some (SpannedMarkdownEvent.mk event (SourceSpan.fromRange source spanned.2.1 spanned.2.2))
  match validateAst library ast policy with
  | .error error => some (.error error)
  | .ok () => some (.ok ⟨source, ast⟩)

def MarkdownDocument.renderHtml (library : StringLibrary) (pushHtml : PushHtml) (document : MarkdownDocument)
    (policy : MarkdownPolicy) : Option (Except MarkdownRenderError String) :=
  match validateAst library document.ast policy with
  | .error error => some (.error error)
  | .ok () => do
    let events ← document.ast.mapM fun event => toParserEvent event.event
    some (.ok (pushHtml events))

def MarkdownEvent.destination (event : MarkdownEvent) : Option String :=
  match event with
  | .start (.link _ destination _ _) | .start (.image _ destination _ _) => some destination
  | _ => none

def MarkdownEvent.isRawHtml (event : MarkdownEvent) : Bool :=
  match event with
  | .rawHtml _ _ | .start .htmlBlock => true
  | _ => false

def ParserEvent.destination (event : ParserEvent) : Option String :=
  match event with
  | .start (.link _ destination _ _) | .start (.image _ destination _ _) => some destination
  | _ => none

def ParserEvent.isRawHtml (event : ParserEvent) : Bool :=
  match event with
  | .html _ | .inlineHtml _ | .start .htmlBlock => true
  | _ => false

-- What a browser makes of the destination: no scheme or one of the four.
def AllowedScheme (destination : String) : Prop :=
  ∀ name, Url.scheme destination.toList = some name → name ∈ allowedSchemes

variable {library : StringLibrary} {c : Char} {destination : String} {name : List Char}

theorem boundary_iff : isBoundary c = true ↔ c.toNat = 47 ∨ c.toNat = 63 ∨ c.toNat = 35 := by
  unfold isBoundary
  simp only [Bool.or_eq_true, decide_eq_true_eq, Char.ext_iff, UInt32.ext_iff, Char.toNat, or_assoc]
  exact Iff.rfl

def dropped (c : Char) : Bool :=
  !(!isAsciiControl c && !isAsciiWhitespace c)

theorem dropped_of_control (h : Url.isC0ControlOrSpace c = true) : dropped c = true := by
  unfold Url.isC0ControlOrSpace at h
  unfold dropped isAsciiControl isAsciiWhitespace
  simp only [Bool.not_and, Bool.not_not, Bool.or_eq_true, decide_eq_true_eq] at h ⊢
  omega

theorem dropped_of_schemeChar (h : Url.isSchemeChar c = true) : dropped c = false := by
  have := Url.schemeChar_range h
  unfold dropped isAsciiControl isAsciiWhitespace
  simp only [Bool.not_and, Bool.not_not, Bool.or_eq_false_iff, decide_eq_false_iff_not]
  omega

theorem trim_scheme {lead rest after : List Char} {first : Char} (hfirst : first.isAlpha = true)
    : ∃ later, Text.trim (lead ++ first :: (rest ++ ':' :: after))
      = lead.dropWhile Text.isWhitespace ++ first :: (rest ++ ':' :: later) := by
  refine ⟨after.rdropWhile Text.isWhitespace, ?_⟩
  have hcolon : Text.isWhitespace ':' = false := by decide
  have htrim : ∀ chars, Text.trim chars = (chars.dropWhile Text.isWhitespace).rdropWhile Text.isWhitespace :=
    fun _ => rfl
  rw [htrim, Url.dropWhile_append_neg (Url.whitespace_of_alpha hfirst), ← List.cons_append, ← List.append_assoc,
    Url.rdropWhile_append_neg hcolon, List.append_assoc, List.cons_append]

theorem flatMap_toLowercase {chars : List Char} (h : ∀ c ∈ chars, Url.isSchemeChar c = true)
    : chars.flatMap library.toLowercase = chars.map Char.toLower := by
  induction chars with
  | nil => rfl
  | cons c rest ih =>
    have hrange := Url.schemeChar_range (h c List.mem_cons_self)
    rw [List.flatMap_cons, List.map_cons, library.ascii c (by omega),
      ih (fun other hother => h other (List.mem_cons_of_mem _ hother))]
    rfl

theorem safeDestination_eq (h : Url.scheme destination.toList = some name)
    : safeDestination library destination = allowedSchemes.contains name := by
  obtain ⟨lead, first, rest, after, htext, hlead, hfirst, hrest, hname⟩ := Url.scheme_eq_some h
  obtain ⟨later, htrim⟩ := @trim_scheme lead rest after first hfirst
  have hfront : ∀ c ∈ lead.dropWhile Text.isWhitespace ++ first :: rest,
      dropped c = true ∨ Url.isSchemeChar c = true := by
    intro c hc
    rw [List.mem_append, List.mem_cons] at hc
    obtain hc | rfl | hc := hc
    . exact .inl (dropped_of_control (hlead c ((List.dropWhile_suffix _).subset hc)))
    . exact .inr (Url.isSchemeChar_of_alpha hfirst)
    . cases hrest c hc with
      | inl hscheme => exact .inr hscheme
      | inr htab => exact .inl (dropped_of_control (Url.isC0ControlOrSpace_of_tab htab))
  have hplain : ∀ c ∈ lead.dropWhile Text.isWhitespace ++ first :: rest, isBoundary c = false ∧ (c != ':') = true := by
    intro c hc
    have hrange : c.toNat ≤ 32 ∨ c.toNat = 127 ∨ Url.isSchemeChar c = true := by
      cases hfront c hc with
      | inl hdropped =>
        unfold dropped isAsciiControl isAsciiWhitespace at hdropped
        simp only [Bool.not_and, Bool.not_not, Bool.or_eq_true, decide_eq_true_eq] at hdropped
        omega
      | inr hscheme => exact .inr (.inr hscheme)
    have hcode : c.toNat ≠ 47 ∧ c.toNat ≠ 63 ∧ c.toNat ≠ 35 ∧ c.toNat ≠ 58 := by
      obtain hsmall | hdelete | hscheme := hrange
      . omega
      . omega
      . have := Url.schemeChar_range hscheme
        omega
    constructor
    . rw [Bool.eq_false_iff, ne_eq, boundary_iff]
      omega
    . rw [bne_iff_ne]
      rintro rfl
      exact hcode.2.2.2 rfl
  have hcolon : isBoundary ':' = false := by decide
  -- the check does not end early: the text starts with a control or a letter
  have hnotEarly : ∀ start : Char, (start = '#' ∨ start = '/' ∨ start = '.' ∨ start = '?') →
      (lead.dropWhile Text.isWhitespace ++ first :: (rest ++ ':' :: later)).head? ≠ some start := by
    intro start hstart hhead
    have hcode : start.toNat = 35 ∨ start.toNat = 47 ∨ start.toNat = 46 ∨ start.toNat = 63 := by
      obtain rfl | rfl | rfl | rfl := hstart <;> decide
    cases hcase : lead.dropWhile Text.isWhitespace with
    | nil =>
      rw [hcase, List.nil_append, List.head?_cons] at hhead
      cases hhead
      have := Url.alpha_range hfirst
      omega
    | cons control others =>
      rw [hcase, List.cons_append, List.head?_cons] at hhead
      cases hhead
      have hcontrol := hlead start ((List.dropWhile_suffix _).subset (hcase ▸ List.mem_cons_self))
      unfold Url.isC0ControlOrSpace at hcontrol
      rw [decide_eq_true_eq] at hcontrol
      omega
  have hkeep : ∀ c, (!isAsciiControl c && !isAsciiWhitespace c) = !dropped c := fun c => (Bool.not_not _).symm
  have hscheme : ((lead.dropWhile Text.isWhitespace ++ first :: rest).filter (!dropped ·)).flatMap library.toLowercase
      = name := by
    have hleadNil : (lead.dropWhile Text.isWhitespace).filter (!dropped ·) = [] := by
      rw [List.filter_eq_nil_iff]
      intro c hc
      rw [dropped_of_control (hlead c ((List.dropWhile_suffix _).subset hc))]
      exact nofun
    have hrestEq : rest.filter (!dropped ·) = rest.filter (!Url.isTabOrNewline ·) := by
      apply List.filter_congr
      intro c hc
      cases htab : Url.isTabOrNewline c with
      | true => rw [dropped_of_control (Url.isC0ControlOrSpace_of_tab htab)]
      | false =>
        cases hrest c hc with
        | inl hscheme => rw [dropped_of_schemeChar hscheme]
        | inr hnot =>
          rw [hnot] at htab
          cases htab
    rw [List.filter_append, hleadNil, List.nil_append, List.filter_cons,
      dropped_of_schemeChar (Url.isSchemeChar_of_alpha hfirst), Bool.not_false, if_pos rfl, hrestEq, flatMap_toLowercase,
      hname]
    intro c hc
    rw [List.mem_cons, List.mem_filter] at hc
    obtain rfl | ⟨hc, hnot⟩ := hc
    . exact Url.isSchemeChar_of_alpha hfirst
    . cases hrest c hc with
      | inl hscheme => exact hscheme
      | inr htab =>
        rw [htab] at hnot
        cases hnot
  unfold safeDestination
  rw [htext, htrim]
  dsimp only
  rw [← List.cons_append, ← List.append_assoc]
  have hassoc : lead.dropWhile Text.isWhitespace ++ first :: rest ++ ':' :: later
      = lead.dropWhile Text.isWhitespace ++ first :: (rest ++ ':' :: later) := by
    rw [List.append_assoc, List.cons_append]
  have hearly : ∀ (start : Char) (others : List Char), (start = '#' ∨ start = '/' ∨ start = '.' ∨ start = '?') →
      (start :: others).isPrefixOf (lead.dropWhile Text.isWhitespace ++ first :: rest ++ ':' :: later) = false := by
    intro start others hstart
    rw [hassoc, Bool.eq_false_iff]
    intro hstarts
    obtain ⟨back, hback⟩ := List.isPrefixOf_iff_prefix.mp hstarts
    apply hnotEarly start hstart
    rw [← hback]
    rfl
  have hnonempty : (lead.dropWhile Text.isWhitespace ++ first :: rest ++ ':' :: later).isEmpty = false := by
    rw [List.isEmpty_eq_false_iff]
    simp
  rw [hearly '#' [] (.inl rfl), hearly '/' [] (.inr (.inl rfl)), hearly '.' ['/'] (.inr (.inr (.inl rfl))),
    hearly '.' ['.', '/'] (.inr (.inr (.inl rfl))), hearly '?' [] (.inr (.inr (.inr rfl))), hnonempty]
  simp only [Bool.or_false, Bool.false_eq_true, if_false]
  have hcontains : (lead.dropWhile Text.isWhitespace ++ first :: rest
      ++ ':' :: later.takeWhile (!isBoundary ·)).contains ':' = true := by
    simp
  have hcut : (lead.dropWhile Text.isWhitespace ++ first :: rest
      ++ ':' :: later.takeWhile (!isBoundary ·)).takeWhile (· != ':')
      = lead.dropWhile Text.isWhitespace ++ first :: rest := by
    rw [List.takeWhile_append_of_pos (fun c hc => (hplain c hc).2), List.takeWhile_cons, bne_self_eq_false,
      if_neg nofun, List.append_nil]
  rw [List.takeWhile_append_of_pos (fun c hc => by rw [(hplain c hc).1]; rfl), List.takeWhile_cons, hcolon,
    Bool.not_false, if_pos rfl, hcontains, if_pos rfl, hcut]
  simp only [hkeep]
  rw [hscheme]

theorem allowed_of_safeDestination (h : safeDestination library destination = true) : AllowedScheme destination := by
  intro name hname
  rw [safeDestination_eq hname, List.contains_iff_mem] at h
  exact h

theorem checkEvents_ok {events : List SpannedMarkdownEvent} (h : checkEvents library events = .ok ())
    {event : SpannedMarkdownEvent} (hmem : event ∈ events)
    : checkEvent library event = .ok () := by
  induction events with
  | nil => cases hmem
  | cons first rest ih =>
    unfold checkEvents at h
    split at h
    . cases h
    . next hfirst =>
      rw [List.mem_cons] at hmem
      cases hmem with
      | inl hsame =>
        rw [hsame]
        exact hfirst
      | inr hrest => exact ih h hrest

theorem checkEvent_ok {event : SpannedMarkdownEvent} (h : checkEvent library event = .ok ())
    : event.event.isRawHtml = false ∧ ∀ destination, event.event.destination = some destination →
        AllowedScheme destination := by
  unfold checkEvent at h
  split at h
  . cases h
  . cases h
  . next kind target title id hevent =>
    rw [hevent]
    refine ⟨rfl, ?_⟩
    intro destination hdestination
    cases hdestination
    split at h
    . next hsafe => exact allowed_of_safeDestination hsafe
    . cases h
  . next kind target title id hevent =>
    rw [hevent]
    refine ⟨rfl, ?_⟩
    intro destination hdestination
    cases hdestination
    split at h
    . next hsafe => exact allowed_of_safeDestination hsafe
    . cases h
  . next hhtml hblock hlink himage =>
    constructor
    . unfold MarkdownEvent.isRawHtml
      split
      . next heq => exact absurd heq (hhtml _ _)
      . next heq => exact absurd heq hblock
      . rfl
    . intro destination hdestination
      unfold MarkdownEvent.destination at hdestination
      split at hdestination
      . next heq => exact absurd heq (hlink _ _ _ _)
      . next heq => exact absurd heq (himage _ _ _ _)
      . cases hdestination

theorem parseMarkdown_safe {parser : CommonMark} {source : String} {document : MarkdownDocument}
    (h : parseMarkdown library parser source .safe = some (.ok document))
    : checkEvents library document.ast = .ok () := by
  have hvalid : ∀ ast, validateAst library ast .safe = checkEvents library ast := fun _ => rfl
  unfold parseMarkdown at h
  simp only [hvalid, Option.bind_eq_bind, Option.bind_eq_some_iff] at h
  obtain ⟨ast, _, hchecked⟩ := h
  split at hchecked
  . cases hchecked
  . next hok =>
    cases hchecked
    exact hok

theorem toParserEvent_destination {event : MarkdownEvent} {parsed : ParserEvent}
    (h : toParserEvent event = some parsed)
    : parsed.destination = event.destination ∧ parsed.isRawHtml = event.isRawHtml := by
  cases event with
  | start tag =>
    cases tag with
    | heading level =>
      obtain ⟨tag, htag, rfl⟩ := Option.map_eq_some_iff.mp h
      obtain ⟨level, _, rfl⟩ := Option.map_eq_some_iff.mp htag
      exact ⟨rfl, rfl⟩
    | _ =>
      cases h
      exact ⟨rfl, rfl⟩
  | finish tag =>
    obtain ⟨tag, _, rfl⟩ := Option.map_eq_some_iff.mp h
    exact ⟨rfl, rfl⟩
  | rawHtml block value =>
    cases block with
    | true =>
      cases h
      exact ⟨rfl, rfl⟩
    | false =>
      cases h
      exact ⟨rfl, rfl⟩
  | _ =>
    cases h
    exact ⟨rfl, rfl⟩

theorem mem_of_mapM {α β : Type} {f : α → Option β} {items : List α} {results : List β}
    (h : items.mapM f = some results) {b : β} (hb : b ∈ results)
    : ∃ a ∈ items, f a = some b := by
  induction items generalizing results with
  | nil =>
    rw [List.mapM_nil] at h
    cases h
    cases hb
  | cons a rest ih =>
    rw [List.mapM_cons] at h
    simp only [Option.bind_eq_bind, Option.bind_eq_some_iff, Option.pure_def, Option.some.injEq] at h
    obtain ⟨first, hfirst, others, hothers, hall⟩ := h
    subst hall
    rw [List.mem_cons] at hb
    cases hb with
    | inl hsame => exact ⟨a, List.mem_cons_self, hsame ▸ hfirst⟩
    | inr hrest =>
      obtain ⟨item, hitem, himage⟩ := ih hothers hrest
      exact ⟨item, List.mem_cons_of_mem _ hitem, himage⟩

/--
A destination that the check accepts has no scheme for a browser or one of the four, and so has every link and image
of a body accepted under the safe policy, in its events and in those it is written from; raw HTML is in neither.
-/
theorem safe_markdown_schemes (library : StringLibrary)
    : (∀ destination, safeDestination library destination = true → AllowedScheme destination)
      ∧ ∀ (parser : CommonMark) (source : String) (document : MarkdownDocument),
        parseMarkdown library parser source .safe = some (.ok document) →
        (∀ event ∈ document.ast, event.event.isRawHtml = false ∧ ∀ destination,
          event.event.destination = some destination → AllowedScheme destination)
        ∧ ∀ (pushHtml : PushHtml) (policy : MarkdownPolicy) (html : String),
          document.renderHtml library pushHtml policy = some (.ok html) →
          ∃ events, html = pushHtml events ∧ ∀ event ∈ events, event.isRawHtml = false
            ∧ ∀ destination, event.destination = some destination → AllowedScheme destination := by
  refine ⟨fun destination => allowed_of_safeDestination, ?_⟩
  intro parser source document haccepted
  have hchecked := parseMarkdown_safe haccepted
  have hevents : ∀ event ∈ document.ast, event.event.isRawHtml = false ∧ ∀ destination,
      event.event.destination = some destination → AllowedScheme destination :=
    fun event hmem => checkEvent_ok (checkEvents_ok hchecked hmem)
  refine ⟨hevents, ?_⟩
  intro pushHtml policy html hrender
  unfold MarkdownDocument.renderHtml at hrender
  split at hrender
  . cases hrender
  . simp only [Option.bind_eq_bind, Option.bind_eq_some_iff, Option.some.injEq, Except.ok.injEq] at hrender
    obtain ⟨events, hmapped, hhtml⟩ := hrender
    refine ⟨events, hhtml.symm, ?_⟩
    intro parsed hparsed
    obtain ⟨event, hmem, hevent⟩ := mem_of_mapM hmapped hparsed
    obtain ⟨hdestination, hhtml⟩ := toParserEvent_destination hevent
    rw [hdestination, hhtml]
    exact hevents event hmem

def asciiLibrary : StringLibrary where
  debug text := "\"" ++ text ++ "\""
  toLowercase c := [c.toLower]
  ascii _ _ := rfl

-- The events of a paragraph with one link.
def mailEvents : List (ParserEvent × Nat × Nat) :=
  [(.start .paragraph, 0, 13), (.start (.link .inline "mailto:a" "" ""), 0, 13), (.text "a", 1, 2),
    (.finish .link, 0, 13), (.finish .paragraph, 0, 13)]

theorem safe_markdown_schemes_mail
    : ∃ document, parseMarkdown asciiLibrary (fun source => if source = "[a](mailto:a)" then mailEvents else [])
        "[a](mailto:a)" .safe = some (.ok document)
      ∧ document.ast.filterMap (fun event => event.event.destination) = ["mailto:a"]
      ∧ ∀ event ∈ document.ast, event.event.isRawHtml = false ∧ ∀ destination,
        event.event.destination = some destination → AllowedScheme destination := by
  have haccepted : (parseMarkdown asciiLibrary (fun source => if source = "[a](mailto:a)" then mailEvents else [])
      "[a](mailto:a)" .safe).any (fun result => result.toOption.any fun document =>
        document.ast.filterMap (fun event => event.event.destination) = ["mailto:a"]) = true := by decide +kernel
  obtain ⟨result, hresult, hdocument⟩ := (Option.any_eq_true _ _).mp haccepted
  cases result with
  | error error => cases hdocument
  | ok document =>
    exact ⟨document, hresult, of_decide_eq_true hdocument, ((safe_markdown_schemes _).2 _ _ _ hresult).1⟩

end Content

end Pliego
