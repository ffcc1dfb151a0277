import Pliego.Lib.Url

/-!
What a URL parser makes of a reference on a page, as far as the place it leads to. The parser of hosts is a parameter.
-/

namespace Url

structure Origin (Host : Type) where
  scheme : List Char
  host : Host
  port : Option Nat
  deriving DecidableEq

inductive Resolved (Host : Type) where
  | hierarchical (origin : Origin Host)
  | other (scheme : List Char)
  deriving DecidableEq

def http : List Char := ['h', 't', 't', 'p']

def https : List Char := ['h', 't', 't', 'p', 's']

def isWeb (scheme : List Char) : Bool :=
  scheme = http || scheme = https

-- The schemes with an authority after any number of slashes, and their ports.
def defaultPort (scheme : List Char) : Option Nat :=
  if scheme = http || scheme = ['w', 's'] then some 80
  else if scheme = https || scheme = ['w', 's', 's'] then some 443
  else if scheme = ['f', 't', 'p'] then some 21
  else none

def isSlash (c : Char) : Bool :=
  c = '/' || c = '\\'

def endsAuthority (c : Char) : Bool :=
  isSlash c || c = '?' || c = '#'

-- The host ends at the first colon outside brackets.
def splitHost (inBrackets : Bool) (text : List Char) : List Char × List Char :=
  match text with
  | [] => ([], [])
  | c :: rest =>
    if c = ':' && !inBrackets then
      ([], c :: rest)
    else
      let (host, port) := splitHost (if c = '[' then true else if c = ']' then false else inBrackets) rest
      (c :: host, port)

def parsePort (scheme : List Char) (text : List Char) : Option (Option Nat) :=
  match text with
  | [] => some none
  | _ :: digits =>
    if !digits.all Char.isDigit then
      none
    else
      let port := digits.foldl (fun port digit => port * 10 + (digit.toNat - 48)) 0
      if 65535 < port then none
      else if digits.isEmpty || defaultPort scheme = some port then some none
      else some (some port)

section Parser

variable {Host : Type} (parseHost : List Char → Option Host)

def authority (scheme text : List Char) : Option (Resolved Host) :=
  -- the credentials end at the last at sign
  let place := ((text.takeWhile (!endsAuthority ·)).splitOn '@').getLast?.getD []
  let (host, port) := splitHost false place
  if host.isEmpty then
    none
  else
    (parseHost host).bind fun host => (parsePort scheme port).map fun port => .hierarchical ⟨scheme, host, port⟩

def relative (base : Origin Host) (text : List Char) : Option (Resolved Host) :=
  match text with
  | first :: second :: rest =>
    if isSlash first && isSlash second then
      authority parseHost base.scheme (rest.dropWhile isSlash)
    else
      some (.hierarchical base)
  | _ => some (.hierarchical base)

def resolve (base : Origin Host) (input : List Char) : Option (Resolved Host) :=
  match splitScheme (clean input) with
  | some (name, after) =>
    if (defaultPort name).isNone then some (.other name)
    else if name = base.scheme then relative parseHost base after
    else authority parseHost name (after.dropWhile isSlash)
  | none => relative parseHost base (clean input)

end Parser

def isAsciiWhitespace (c : Char) : Bool :=
  c = '\t' || c = '\n' || c = Char.ofNat 12 || c = '\r' || c = ' '

def unquote (text : List Char) : List Char :=
  match text with
  | [] => []
  | quote :: rest => if quote = '\'' || quote = '"' then rest.takeWhile (· ≠ quote) else quote :: rest

def refreshReference (text : List Char) : List Char :=
  match text with
  | u :: rest =>
    if u = 'U' || u = 'u' then
      match rest with
      | r :: l :: after =>
        if (r = 'R' || r = 'r') && (l = 'L' || l = 'l') then
          match after.dropWhile isAsciiWhitespace with
          | '=' :: target => unquote (target.dropWhile isAsciiWhitespace)
          | _ => text
        else
          text
      | _ => text
    else
      unquote text
  | [] => []

-- No refresh, or one with the reference it names where it names one.
def refresh (content : List Char) : Option (Option (List Char)) :=
  let text := content.dropWhile isAsciiWhitespace
  if (text.takeWhile Char.isDigit).isEmpty && text.head? ≠ some '.' then
    none
  else
    match text.dropWhile (fun c => c.isDigit || c = '.') with
    | [] => some none
    | mark :: rest =>
      if !(mark = ';' || mark = ',' || isAsciiWhitespace mark) then
        none
      else
        let rest := (mark :: rest).dropWhile isAsciiWhitespace
        let rest := (if rest.head? = some ';' || rest.head? = some ',' then rest.tail else rest).dropWhile isAsciiWhitespace
        if rest.isEmpty then some none else some (some (refreshReference rest))

section Lemmas

variable {Host : Type} {parseHost : List Char → Option Host} {base : Origin Host} {c : Char} {text input : List Char}

theorem mem_of_mem_clean (h : c ∈ clean input) : c ∈ input := by
  unfold clean at h
  have hmem := (List.mem_filter.mp h).1
  exact (List.dropWhile_sublist _).subset ((List.rdropWhile_prefix _ _).subset hmem)

theorem splitScheme_of_not_mem (h : ':' ∉ text) : splitScheme text = none := by
  cases hsplit : splitScheme text with
  | none => rfl
  | some found =>
    obtain ⟨first, rest, htext, -⟩ := splitScheme_eq_some hsplit
    rw [htext] at h
    exact absurd (List.mem_append_right _ List.mem_cons_self) h

theorem relative_eq (h : '\\' ∉ text)
    : relative parseHost base text
      = if ['/', '/'].isPrefixOf text then authority parseHost base.scheme (text.dropWhile isSlash)
        else some (.hierarchical base) := by
  have hslash : ∀ c ∈ text, isSlash c = decide (c = '/') := by
    intro c hc
    unfold isSlash
    have hne : c ≠ '\\' := fun hsame => h (hsame ▸ hc)
    rw [decide_eq_false hne, Bool.or_false]
  match text with
  | [] => rfl
  | [first] =>
    unfold relative
    rw [if_neg]
    intro hfirst
    have hlength := (List.isPrefixOf_iff_prefix.mp hfirst).length_le
    exact absurd hlength (by simp)
  | first :: second :: rest =>
    unfold relative
    dsimp only
    rw [hslash first List.mem_cons_self, hslash second (List.mem_cons_of_mem _ List.mem_cons_self)]
    by_cases hboth : first = '/' ∧ second = '/'
    . obtain ⟨rfl, rfl⟩ := hboth
      rfl
    . rw [if_neg, if_neg]
      . intro hprefixed
        obtain ⟨later, hlater⟩ := List.isPrefixOf_iff_prefix.mp hprefixed
        cases hlater
        exact hboth ⟨rfl, rfl⟩
      . rw [Bool.and_eq_true, decide_eq_true_eq, decide_eq_true_eq]
        exact hboth

theorem resolve_of_no_scheme (hscheme : splitScheme (clean input) = none) (h : '\\' ∉ input)
    : resolve parseHost base input
      = if ['/', '/'].isPrefixOf (clean input) then
          authority parseHost base.scheme ((clean input).dropWhile isSlash)
        else some (.hierarchical base) := by
  unfold resolve
  rw [hscheme]
  exact relative_eq fun hmem => h (mem_of_mem_clean hmem)

theorem authority_scheme {scheme : List Char} {resolved : Resolved Host}
    (h : authority parseHost scheme text = some resolved)
    : ∃ host port, resolved = .hierarchical ⟨scheme, host, port⟩ := by
  unfold authority at h
  dsimp only at h
  split at h
  . cases h
  . obtain ⟨host, -, h⟩ := Option.bind_eq_some_iff.mp h
    obtain ⟨port, -, h⟩ := Option.map_eq_some_iff.mp h
    exact ⟨host, port, h.symm⟩

theorem clean_cons (hc : isC0ControlOrSpace c = false) (rest : List Char)
    : clean (c :: rest) = c :: (rest.rdropWhile isC0ControlOrSpace).filter (!isTabOrNewline ·) := by
  have htab : isTabOrNewline c = false := by
    cases htab : isTabOrNewline c with
    | false => rfl
    | true =>
      rw [isC0ControlOrSpace_of_tab htab] at hc
      cases hc
  have htrim : (c :: rest).rdropWhile isC0ControlOrSpace = c :: rest.rdropWhile isC0ControlOrSpace :=
    @rdropWhile_append_neg c [] _ hc rest
  unfold clean
  rw [List.dropWhile_cons, hc, if_neg Bool.false_ne_true, htrim, List.filter_cons, htab]
  rfl

theorem clean_append {before rest : List Char} (hfirst : isC0ControlOrSpace c = false)
    (hbefore : (c :: before).all (!isTabOrNewline ·) = true) {last : Char} (hlast : isC0ControlOrSpace last = false)
    : clean (c :: before ++ last :: rest)
      = c :: before ++ last :: (rest.rdropWhile isC0ControlOrSpace).filter (!isTabOrNewline ·) := by
  have htab : isTabOrNewline last = false := by
    cases htab : isTabOrNewline last with
    | false => rfl
    | true =>
      rw [isC0ControlOrSpace_of_tab htab] at hlast
      cases hlast
  have hkept : (c :: before).filter (!isTabOrNewline ·) = c :: before := by
    apply List.filter_eq_self.mpr
    exact List.all_eq_true.mp hbefore
  unfold clean
  rw [List.cons_append, List.dropWhile_cons, hfirst, if_neg Bool.false_ne_true, ← List.cons_append,
    rdropWhile_append_neg hlast, List.filter_append, hkept, List.filter_cons, htab]
  rfl

-- Where the authority of a reference with a scheme parses.
def authorityParses (parseHost : List Char → Option Host) (input : List Char) : Bool :=
  match splitScheme (clean input) with
  | some (name, after) => (authority parseHost name (after.dropWhile isSlash)).isSome
  | none => false

theorem resolve_of_scheme {name after : List Char} (hscheme : splitScheme (clean input) = some (name, '/' :: '/' :: after))
    (hname : isWeb name = true)
    : resolve parseHost base input = authority parseHost name (after.dropWhile isSlash) := by
  have hport : (defaultPort name).isNone = false := by
    unfold isWeb at hname
    rw [Bool.or_eq_true, decide_eq_true_eq, decide_eq_true_eq] at hname
    cases hname with
    | inl hname =>
      rw [hname]
      rfl
    | inr hname =>
      rw [hname]
      rfl
  unfold resolve
  rw [hscheme]
  dsimp only
  rw [hport, if_neg Bool.false_ne_true]
  split
  . next hsame =>
    rw [hsame]
    rfl
  . rfl

end Lemmas

end Url
