import Pliego.Lib.Fields
import Pliego.Lib.SortedMap
import Pliego.Lib.Text
import Pliego.Log.Basic

/-!
The path grammar of `pliego-router`: route methods, patterns with their shape keys and specificity, and
the matching of a pattern against a path. The Unicode tables come from external crates and are a
parameter.
-/

namespace Pliego

open Bytes Text

namespace Router

structure Unicode where
  nfc : String → String
  nfkc : String → String
  caseFold : String → String

def Unicode.portableCaseKey (unicode : Unicode) (value : String) : String :=
  unicode.nfkc (unicode.caseFold (unicode.nfkc value))

def Unicode.KeepsSlashes (unicode : Unicode) : Prop :=
  ∀ text, split '/' (unicode.nfc text) = (split '/' text).map unicode.nfc

def maxPatternBytes : Nat := 1024

def maxRouteSegments : Nat := 32

def maxRouteIdBytes : Nat := 64

def maxParameterNameBytes : Nat := 63

def isMethodToken (byte : UInt8) : Bool :=
  isAsciiAlphanumeric byte
    || [33, 35, 36, 37, 38, 39, 42, 43, 45, 46, 94, 95, 96, 124, 126].contains byte

def isMethod (value : String) : Bool :=
  value ≠ "" && (utf8 value).length ≤ 32
    && (utf8 value).all isMethodToken
    && !(utf8 value).any isAsciiLowercase

structure RouteMethod where
  text : String
  valid : isMethod text = true
  deriving DecidableEq

@[ext]
theorem RouteMethod.ext {a b : RouteMethod} (h : a.text = b.text) : a = b := by
  cases a
  cases b
  simpa using h

instance : LinearOrder RouteMethod :=
  LinearOrder.lift' RouteMethod.text (fun _ _ h => RouteMethod.ext h)

inductive RouteError where
  | invalidMethod (value : String)
  | invalidPattern (pattern : String)
  | trailingSlash (pattern : String)
  | tooManySegments (count : Nat)
  | invalidSegment (segment : String)
  | invalidParameter (name : String)
  | invalidGroup (segment : String)
  | optionalMustBeTerminal (name : String)
  | catchAllMustBeTerminal (name : String)
  | duplicateParameter (name : String)
  | invalidRouteId (id : String)
  | invalidRouteLimit (maximum : Nat)
  | tooManyRoutes (actual maximum : Nat)
  | duplicateRouteId (id : String)
  | invalidMiddlewareId (id : String)
  | duplicateMiddleware (id : String)
  | tooManyMiddleware (maximum : Nat)
  | duplicateMiddlewareDeclaration (id : String)
  | missingMiddlewareDeclaration (id : String)
  | unreferencedMiddlewareDeclaration (id : String)
  | middlewarePhaseConflict (id : String)
  | invalidScopeId (id : String)
  | duplicateScopeId (id : String)
  | unknownScope (id : String)
  | unreferencedScope (id : String)
  | scopeCycle (id : String)
  | tooManyScopes (actual maximum : Nat)
  | duplicateInheritedMiddleware (id : String)
  | duplicateInheritedErrorBoundary (id : String)
  | invalidLoaderId (id : String)
  | duplicateLoader (id : String)
  | duplicateInheritedLoader (id : String)
  | tooManyLoaders (maximum : Nat)
  | invalidActionId (id : String)
  | duplicateAction (id : String)
  | tooManyActions (maximum : Nat)
  | invalidCachePolicyId (id : String)
  | invalidResourceId (id : String)
  | duplicateResource (id : String)
  | tooManyResources (maximum : Nat)
  | invalidResourceCapability (id : String)
  | tooManyResourceCapabilities (maximum : Nat)
  | invalidErrorBoundaryId (id : String)
  | duplicateErrorBoundary (id : String)
  | tooManyErrorBoundaries (maximum : Nat)
  | routeCollision (method : RouteMethod) (shape first second : String)
  deriving DecidableEq

namespace RouteMethod

def new (value : String) : Except RouteError RouteMethod :=
  if h : isMethod value = true then .ok ⟨value, h⟩ else .error (.invalidMethod value)

def get : RouteMethod := ⟨"GET", by decide⟩

def post : RouteMethod := ⟨"POST", by decide⟩

end RouteMethod

inductive Segment where
  | literal (value : String)
  | parameter (name : String)
  | optionalParameter (name : String)
  | catchAll (name : String)
  | group (name : String)
  deriving DecidableEq, Repr

namespace Segment

def consumesPath (segment : Segment) : Bool :=
  match segment with
  | .group _ => false
  | _ => true

def specificity (segment : Segment) : Nat :=
  match segment with
  | .literal _ => 4
  | .parameter _ => 3
  | .optionalParameter _ => 2
  | .catchAll _ => 1
  | .group _ => 0

def parameterName (segment : Segment) : Option String :=
  match segment with
  | .parameter name | .optionalParameter name | .catchAll name => some name
  | .literal _ | .group _ => none

-- A group is not a canonical path segment and is never rendered.
def render (segment : Segment) : String :=
  match segment with
  | .literal value => value
  | .parameter name => ":" ++ name
  | .optionalParameter name => ":" ++ name ++ "?"
  | .catchAll name => "*" ++ name
  | .group _ => ""

end Segment

def validateParameter (name : String) : Except RouteError Unit :=
  match utf8 name with
  | [] => .error (.invalidParameter name)
  | first :: rest =>
    if (utf8 name).length ≤ maxParameterNameBytes && isAsciiLowercase first
        && rest.all (fun byte => isAsciiLowercase byte || isAsciiDigit byte || byte == 95) then
      .ok ()
    else
      .error (.invalidParameter name)

def reservedNames : List String :=
  ["con", "prn", "aux", "nul"]
    ++ ["1", "2", "3", "4", "5", "6", "7", "8", "9"].map ("com" ++ ·)
    ++ ["1", "2", "3", "4", "5", "6", "7", "8", "9"].map ("lpt" ++ ·)

-- The characters that a portable file name does not contain.
def isReservedCharacter (c : Char) : Bool :=
  isControl c || ['<', '>', ':', '"', '|', '?', '*'].contains c

def isPortableLiteral (unicode : Unicode) (literal : String) : Bool :=
  literal ≠ "" && (utf8 literal).length ≤ 255
    && !endsWith '.' literal && !endsWith ' ' literal
    && !literal.toList.any isReservedCharacter
    && !reservedNames.contains
      (unicode.portableCaseKey ((split '.' literal).headD literal))

def validatePortableLiteral (unicode : Unicode) (literal : String) : Except RouteError Unit :=
  if isPortableLiteral unicode literal then .ok () else .error (.invalidSegment literal)

def parseSegment (unicode : Unicode) (raw : String) (index count : Nat)
    : Except RouteError Segment :=
  if raw = "" || raw = "." || raw = ".." then
    .error (.invalidSegment raw)
  else
    match stripPrefix ':' raw with
    | some name =>
      match stripSuffix '?' name with
      | some optional => do
        validateParameter optional
        if index + 1 ≠ count then
          .error (.optionalMustBeTerminal optional)
        else
          .ok (.optionalParameter optional)
      | none => do
        validateParameter name
        .ok (.parameter name)
    | none =>
      match stripPrefix '*' raw with
      | some name => do
        validateParameter name
        if index + 1 ≠ count then
          .error (.catchAllMustBeTerminal name)
        else
          .ok (.catchAll name)
      | none =>
        if startsWith '(' raw || endsWith ')' raw then
          match (stripPrefix '(' raw).bind (stripSuffix ')') with
          | none => .error (.invalidGroup raw)
          | some name => do
            validateParameter name
            .ok (.group name)
        else if startsWith ':' raw || startsWith '*' raw || contains raw '?' || contains raw '('
            || contains raw ')' || raw.toList.any (fun c => isControl c || isWhitespace c) then
          .error (.invalidSegment raw)
        else do
          validatePortableLiteral unicode (unicode.nfc raw)
          .ok (.literal (unicode.nfc raw))

def validatePatternEnvelope (pattern : String) : Except RouteError Unit :=
  if pattern = "" || (utf8 pattern).length > maxPatternBytes || !startsWith '/' pattern then
    .error (.invalidPattern pattern)
  else if pattern ≠ "/" && endsWith '/' pattern then
    .error (.trailingSlash pattern)
  else if containsPair '/' '/' pattern.toList || contains pattern '\\' || contains pattern '%'
      || contains pattern '#' || contains pattern '\x00' then
    .error (.invalidPattern pattern)
  else
    .ok ()

structure RoutePattern where
  authored : String
  canonical : String
  segments : List Segment
  deriving DecidableEq, Repr

def freshName (segment : Segment) (names : List String) : Except RouteError (List String) :=
  match segment.parameterName with
  | none => .ok names
  | some name => if name ∈ names then .error (.duplicateParameter name) else .ok (name :: names)

def parseSegments (unicode : Unicode) (count : Nat) (raws : List String) (index : Nat)
    (names : List String) : Except RouteError (List Segment) :=
  match raws with
  | [] => .ok []
  | raw :: raws => do
    let segment ← parseSegment unicode raw index count
    let names ← freshName segment names
    let segments ← parseSegments unicode count raws (index + 1) names
    .ok (segment :: segments)

def rawSegments (path : String) : List String :=
  if path = "/" then [] else split '/' (String.ofList path.toList.tail)

def joinPath (pieces : List String) : String :=
  if pieces.isEmpty then "/" else "/" ++ join '/' pieces

def pathSegmentsOf (segments : List Segment) : List Segment :=
  segments.filter Segment.consumesPath

namespace RoutePattern

def parse (unicode : Unicode) (authored : String) : Except RouteError RoutePattern := do
  validatePatternEnvelope authored
  let raws := rawSegments authored
  if raws.length > maxRouteSegments then
    .error (.tooManySegments raws.length)
  else
    let segments ← parseSegments unicode raws.length raws 0 []
    .ok {
      authored := authored
      canonical := joinPath ((pathSegmentsOf segments).map Segment.render)
      segments := segments }

def pathSegments (pattern : RoutePattern) : List Segment :=
  pathSegmentsOf pattern.segments

def shapePiece (unicode : Unicode) (segment : Segment) : String :=
  match segment with
  | .literal value => "=" ++ unicode.portableCaseKey value
  | .parameter _ | .optionalParameter _ => ":"
  | .catchAll _ => "*"
  | .group _ => ""

def endsOptional (segments : List Segment) : Bool :=
  match segments.getLast? with
  | some (.optionalParameter _) => true
  | _ => false

def shapeKeys (unicode : Unicode) (pattern : RoutePattern) : List String :=
  let full := pattern.pathSegments.map (shapePiece unicode)
  if endsOptional pattern.pathSegments then
    ["/" ++ join '/' full, joinPath full.dropLast]
  else
    ["/" ++ join '/' full]

def specificity (pattern : RoutePattern) : List Nat :=
  pattern.pathSegments.map Segment.specificity

-- The input is what is left of the path; `segments` what is left of the pattern.
def matchSegments (segments : List Segment) (input : List String)
    (parameters : SortedMap String String) : Option (SortedMap String String) :=
  match segments with
  | [] => if input.isEmpty then some parameters else none
  | .literal expected :: segments =>
    match input with
    | [] => none
    | value :: input =>
      if value = expected then matchSegments segments input parameters else none
  | .parameter name :: segments =>
    match input with
    | [] => none
    | value :: input => matchSegments segments input (parameters.insert name value)
  | .optionalParameter name :: segments =>
    match input with
    | [] => matchSegments segments [] parameters
    | value :: input => matchSegments segments input (parameters.insert name value)
  | .catchAll name :: segments =>
    if !segments.isEmpty || input.isEmpty then
      none
    else
      matchSegments segments [] (parameters.insert name (join '/' input))
  -- path segments hold no group
  | .group _ :: _ => none

def matchAdmitted (pattern : RoutePattern) (path : String) : Option (SortedMap String String) :=
  matchSegments pattern.pathSegments (rawSegments path) .empty

end RoutePattern

section Facts

variable {unicode : Unicode}

-- What `validateParameter` leaves open to a name.
def isNameByte (byte : UInt8) : Bool :=
  isAsciiLowercase byte || isAsciiDigit byte || byte == 95

theorem validateParameter_ok {name : String} (h : validateParameter name = .ok ())
    : name ≠ "" ∧ (utf8 name).length ≤ maxParameterNameBytes ∧ (utf8 name).all isNameByte = true := by
  unfold validateParameter at h
  split at h
  . cases h
  . next first rest hbytes =>
    split at h
    . next hall =>
      simp only [Bool.and_eq_true, decide_eq_true_eq] at hall
      obtain ⟨⟨hlength, hfirst⟩, hrest⟩ := hall
      refine ⟨?_, hlength, ?_⟩
      . intro hempty
        rw [hempty] at hbytes
        cases hbytes
      . rw [hbytes, List.all_cons]
        unfold isNameByte
        rw [hfirst, hrest]
        rfl
    . cases h

theorem not_mem_of_isNameByte {name : String} {c : Char}
    (h : (utf8 name).all isNameByte = true) (hc : String.utf8EncodeChar c = [c.toUInt8])
    (hbyte : isNameByte c.toUInt8 = false) : c ∉ name.toList := by
  intro hmem
  have hin : c.toUInt8 ∈ utf8 name := by
    rw [← String.ofList_toList (s := name), utf8_ofList, List.mem_flatMap]
    exact ⟨c, hmem, by simp [hc]⟩
  have hname := List.all_eq_true.mp h _ hin
  rw [hbyte] at hname
  cases hname

namespace Segment

def isTerminal (segment : Segment) : Bool :=
  match segment with
  | .optionalParameter _ | .catchAll _ => true
  | _ => false

def WellFormed (unicode : Unicode) (segment : Segment) : Prop :=
  match segment with
  | .literal value => isPortableLiteral unicode value = true ∧ '/' ∉ value.toList
  | .parameter name | .optionalParameter name | .catchAll name | .group name =>
    validateParameter name = .ok ()

end Segment

theorem stripPrefix_eq_some {c : Char} {text rest : String}
    : stripPrefix c text = some rest ↔ text.toList = c :: rest.toList := by
  unfold stripPrefix
  cases htext : text.toList with
  | nil => simp
  | cons first tail =>
    dsimp only
    split
    . next hfirst =>
      subst hfirst
      simp only [Option.some.injEq, List.cons.injEq, true_and]
      constructor
      . rintro rfl
        simp
      . intro h
        rw [h, String.ofList_toList]
    . next hfirst => simp [hfirst]

theorem parseSegment_ok (hslash : unicode.KeepsSlashes) {raw : String} {index count : Nat}
    {segment : Segment} (h : parseSegment unicode raw index count = .ok segment) (hraw : '/' ∉ raw.toList)
    : segment.WellFormed unicode ∧ (segment.isTerminal = true → index + 1 = count) := by
  unfold parseSegment at h
  split at h
  . cases h
  . split at h
    . next name _ =>
      split at h
      . next optional _ =>
        obtain ⟨hname, h⟩ := Except.bind_unit_eq_ok.mp h
        split at h
        . cases h
        . next hlast =>
          cases h
          exact ⟨hname, fun _ => not_not.mp hlast⟩
      . obtain ⟨hname, h⟩ := Except.bind_unit_eq_ok.mp h
        cases h
        exact ⟨hname, fun hterminal => by cases hterminal⟩
    . split at h
      . next name _ =>
        obtain ⟨hname, h⟩ := Except.bind_unit_eq_ok.mp h
        split at h
        . cases h
        . next hlast =>
          cases h
          exact ⟨hname, fun _ => not_not.mp hlast⟩
      . split at h
        . split at h
          . cases h
          . obtain ⟨hname, h⟩ := Except.bind_unit_eq_ok.mp h
            cases h
            exact ⟨hname, fun hterminal => by cases hterminal⟩
        . split at h
          . cases h
          . obtain ⟨hliteral, h⟩ := Except.bind_unit_eq_ok.mp h
            cases h
            unfold validatePortableLiteral at hliteral
            split at hliteral
            . next hportable =>
              refine ⟨⟨hportable, ?_⟩, fun hterminal => by cases hterminal⟩
              -- a text without a slash is one piece, and so is its normal form
              have hone : split '/' raw = [raw] := by
                have h : split '/' (join '/' [raw]) = [raw] :=
                  split_join (by simpa using hraw) (by simp)
                simpa [join] using h
              have hpieces := hslash raw
              rw [hone] at hpieces
              have hmem : unicode.nfc raw ∈ split '/' (unicode.nfc raw) := by
                rw [hpieces]
                simp
              exact not_mem_of_mem_split hmem
            . cases hliteral

theorem freshName_ok {segment : Segment} {names names' : List String} (h : freshName segment names = .ok names')
    : names' = segment.parameterName.toList ++ names ∧ ∀ name ∈ segment.parameterName, name ∉ names := by
  unfold freshName at h
  split at h
  . next hnone =>
    cases h
    simp [hnone]
  . next name hname =>
    split at h
    . cases h
    . next hfresh =>
      cases h
      simp [hname, hfresh]

theorem parseSegments_ok (hslash : unicode.KeepsSlashes) {count : Nat} {raws : List String}
    {index : Nat} {names : List String} {segments : List Segment}
    (h : parseSegments unicode count raws index names = .ok segments)
    (hraws : ∀ raw ∈ raws, '/' ∉ raw.toList) (hcount : index + raws.length = count)
    : (∀ segment ∈ segments, segment.WellFormed unicode)
      ∧ (∀ segment ∈ segments.dropLast, segment.isTerminal = false)
      ∧ (segments.filterMap Segment.parameterName).Nodup
      ∧ (∀ name ∈ segments.filterMap Segment.parameterName, name ∉ names)
      ∧ segments.length = raws.length := by
  induction raws generalizing index names segments with
  | nil =>
    cases h
    simp
  | cons raw raws ih =>
    unfold parseSegments at h
    obtain ⟨segment, hsegment, h⟩ := Except.bind_eq_ok.mp h
    obtain ⟨names', hnames, h⟩ := Except.bind_eq_ok.mp h
    obtain ⟨rest, hrest, h⟩ := Except.bind_eq_ok.mp h
    cases h
    obtain ⟨hwell, hterminal⟩ := parseSegment_ok hslash hsegment (hraws raw List.mem_cons_self)
    obtain ⟨hwells, hplaced, hnodup, hfresh, hlength⟩ :=
      ih hrest (fun raw hraw => hraws raw (List.mem_cons_of_mem _ hraw))
        (by rw [List.length_cons] at hcount; omega)
    obtain ⟨rfl, hnew⟩ := freshName_ok hnames
    refine ⟨?_, ?_, ?_, ?_, by simp [hlength]⟩
    . exact List.forall_mem_cons.mpr ⟨hwell, hwells⟩
    . cases rest with
      | nil => simp
      | cons second rest =>
        rw [List.dropLast_cons_cons]
        refine List.forall_mem_cons.mpr ⟨?_, hplaced⟩
        cases hsame : segment.isTerminal with
        | false => rfl
        | true =>
          have hlast := hterminal hsame
          simp only [List.length_cons] at hcount hlength
          omega
    . cases hname : segment.parameterName with
      | none =>
        rw [List.filterMap_cons_none hname]
        exact hnodup
      | some name =>
        rw [List.filterMap_cons_some hname, List.nodup_cons]
        refine ⟨fun hmem => hfresh name hmem ?_, hnodup⟩
        simp [hname]
    . intro name hname hmem
      cases hfirst : segment.parameterName with
      | none =>
        rw [List.filterMap_cons_none hfirst] at hname
        exact hfresh name hname (by simp [hmem])
      | some first =>
        rw [List.filterMap_cons_some hfirst] at hname
        cases List.mem_cons.mp hname with
        | inl hsame => exact hnew name (by simp [hfirst, hsame]) hmem
        | inr hrest => exact hfresh name hrest (by simp [hmem])

theorem toList_joinPath {pieces : List String} (hne : pieces ≠ [])
    : (joinPath pieces).toList = '/' :: (join '/' pieces).toList := by
  unfold joinPath
  rw [if_neg (by simpa using hne), String.toList_append]
  rfl

theorem rawSegments_joinPath {pieces : List String} (hpieces : ∀ piece ∈ pieces, '/' ∉ piece.toList ∧ piece ≠ "")
    : rawSegments (joinPath pieces) = pieces := by
  by_cases hne : pieces = []
  . rw [hne]
    rfl
  . have hsplit : split '/' (join '/' pieces) = pieces :=
      split_join (fun piece hpiece => (hpieces piece hpiece).1) hne
    unfold rawSegments
    rw [toList_joinPath hne, List.tail_cons, String.ofList_toList, hsplit, if_neg]
    intro hroot
    have hnil : join '/' pieces = "" := by
      have hchars := congrArg String.toList hroot
      rw [toList_joinPath hne] at hchars
      apply String.toList_inj.mp
      exact (List.cons.inj hchars).2
    rw [hnil] at hsplit
    have hmem : "" ∈ pieces := by
      rw [← hsplit]
      exact List.mem_singleton.mpr rfl
    exact (hpieces "" hmem).2 rfl

theorem joinPath_rawSegments {path : String} (hpath : startsWith '/' path = true)
    : joinPath (rawSegments path) = path := by
  unfold rawSegments
  split
  . next hroot => rw [hroot]; rfl
  . apply String.toList_inj.mp
    rw [toList_joinPath split_ne_nil, join_split, String.toList_ofList]
    unfold startsWith at hpath
    cases hchars : path.toList with
    | nil =>
      rw [hchars] at hpath
      cases hpath
    | cons first rest =>
      rw [hchars] at hpath
      rw [List.tail_cons, (by simpa using hpath : first = '/')]

theorem not_mem_of_mem_rawSegments {path piece : String} (h : piece ∈ rawSegments path)
    : '/' ∉ piece.toList := by
  unfold rawSegments at h
  split at h
  . cases h
  . exact not_mem_of_mem_split h

namespace RoutePattern

structure Parsed (unicode : Unicode) (pattern : RoutePattern) : Prop where
  parsed : parse unicode pattern.authored = .ok pattern
  canonical : pattern.canonical = joinPath (pattern.pathSegments.map Segment.render)
  wellFormed : ∀ segment ∈ pattern.segments, segment.WellFormed unicode
  placed : ∀ segment ∈ pattern.segments.dropLast, segment.isTerminal = false
  names : (pattern.segments.filterMap Segment.parameterName).Nodup
  count : pattern.segments.length ≤ maxRouteSegments

theorem Parsed.of_parse (hslash : unicode.KeepsSlashes) {authored : String}
    {pattern : RoutePattern} (h : parse unicode authored = .ok pattern)
    : pattern.Parsed unicode := by
  have hparse := h
  unfold parse at h
  obtain ⟨_, h⟩ := Except.bind_unit_eq_ok.mp h
  dsimp only at h
  split at h
  . cases h
  . next hcount =>
    obtain ⟨segments, hsegments, h⟩ := Except.bind_eq_ok.mp h
    cases h
    obtain ⟨hwell, hplaced, hnames, _, hlength⟩ := parseSegments_ok hslash hsegments
      (fun raw hraw => not_mem_of_mem_rawSegments hraw) (Nat.zero_add _)
    exact ⟨hparse, rfl, hwell, hplaced, hnames, by dsimp only; omega⟩

variable {pattern : RoutePattern}

theorem pathSegments_sublist : pattern.pathSegments.Sublist pattern.segments :=
  List.filter_sublist

theorem Parsed.wellFormed_path (h : pattern.Parsed unicode)
    : ∀ segment ∈ pattern.pathSegments, segment.WellFormed unicode :=
  fun segment hsegment => h.wellFormed segment (pathSegments_sublist.subset hsegment)

theorem Parsed.names_path (h : pattern.Parsed unicode)
    : (pattern.pathSegments.filterMap Segment.parameterName).Nodup :=
  h.names.sublist (pathSegments_sublist.filterMap _)

theorem dropLast_filter_sublist {α : Type} (p : α → Bool) (xs : List α)
    : (xs.filter p).dropLast.Sublist (xs.dropLast) := by
  induction xs with
  | nil => exact List.Sublist.slnil
  | cons x xs ih =>
    cases xs with
    | nil =>
      rw [List.filter_cons]
      split <;> simp
    | cons y ys =>
      rw [List.filter_cons, List.dropLast_cons_cons]
      split
      . cases hrest : List.filter p (y :: ys) with
        | nil => simp
        | cons z zs =>
          rw [List.dropLast_cons_cons, ← hrest]
          exact ih.cons_cons x
      . exact ih.cons x

theorem Parsed.placed_path (h : pattern.Parsed unicode)
    : ∀ segment ∈ pattern.pathSegments.dropLast, segment.isTerminal = false :=
  fun segment hsegment => h.placed segment ((dropLast_filter_sublist _ _).subset hsegment)

theorem consumesPath_of_mem {segment : Segment} (h : segment ∈ pattern.pathSegments)
    : segment.consumesPath = true :=
  (List.mem_filter.mp h).2

end RoutePattern

end Facts

end Router

end Pliego
