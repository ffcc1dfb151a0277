import Pliego.Lib.UrlResolve
import Pliego.Ssg.HeadTokens

/-!
Where the URLs of a head lead: the checked strings as a browser resolves them on the page, and the redirect as it is
read out of the refresh element.
-/

namespace Pliego

open Url

namespace Ssg

variable {Host : Type} {parseHost : List Char → Option Host} {value input : List Char}

def spellsWeb (value : List Char) : Bool :=
  "https://".toList.isPrefixOf value || "http://".toList.isPrefixOf value

def refreshContent (location : List Char) : List Char :=
  parsed ("0;url=".toList ++ location)

-- What the input stands for is on the web, and on the page's own origin unless the value spells another.
def Stays (parseHost : List Char → Option Host) (value input : List Char) : Prop :=
  ∀ base : Origin Host, isWeb base.scheme = true → ∃ origin, resolve parseHost base input = some (.hierarchical origin)
    ∧ isWeb origin.scheme = true ∧ (spellsWeb value = true ∨ origin = base)

def startsNetworkPath (value : List Char) : Bool :=
  ['/', '/'].isPrefixOf (clean value)

def contained (parseHost : List Char → Option Host) (value : List Char) : Bool :=
  if spellsWeb value then authorityParses parseHost value
  else !startsNetworkPath value && !startsNetworkPath (unquote value)

structure Checked (value : List Char) : Prop where
  ne : value ≠ []
  trimmed : Text.trim value = value
  plain : ∀ c ∈ value, c ≠ '\\' ∧ c ≠ '\n' ∧ c ≠ '\r' ∧ c ≠ Char.ofNat 0
  form : value.head? = some '/' ∨ spellsWeb value = true ∨ ':' ∉ value

theorem checked_of_safe (h : safeDocumentUrl value = true) : Checked value := by
  unfold safeDocumentUrl at h
  split at h
  . cases h
  . next hplain =>
    simp only [Bool.or_eq_true, not_or, List.isEmpty_iff, decide_eq_true_eq, not_not, List.any_eq_true] at hplain
    obtain ⟨⟨⟨hne, htrim⟩, hany⟩, -⟩ := hplain
    refine ⟨hne, htrim, ?_, ?_⟩
    . intro c hc
      by_contra hbad
      apply hany
      refine ⟨c, hc, ?_⟩
      tauto
    . split at h
      . next hform =>
        unfold spellsWeb
        rw [Bool.or_eq_true, Bool.or_eq_true, decide_eq_true_eq, or_assoc] at hform
        rw [Bool.or_eq_true]
        cases hform with
        | inl hslash => exact .inl hslash
        | inr hweb => exact .inr (.inl hweb)
      . rw [Bool.and_eq_true, Bool.not_eq_true', List.contains_eq_mem, decide_eq_false_iff_not] at h
        exact .inr (.inr h.1)

theorem head_of_trimmed (h : Text.trim value = value) : ∀ c ∈ value.head?, Text.isWhitespace c = false := by
  intro c hc
  cases value with
  | nil => cases hc
  | cons c rest =>
    cases hc
    cases hblank : Text.isWhitespace c with
    | false => rfl
    | true =>
      have hlength := congrArg List.length h
      unfold Text.trim at hlength
      rw [List.dropWhile_cons, hblank, if_pos rfl, List.length_reverse] at hlength
      have hright := (List.dropWhile_sublist (l := (rest.dropWhile Text.isWhitespace).reverse) Text.isWhitespace).length_le
      have hleft := (List.dropWhile_sublist (l := rest) Text.isWhitespace).length_le
      rw [List.length_reverse] at hright
      rw [List.length_cons] at hlength
      omega

theorem isWhitespace_of_ascii {c : Char} (h : isAsciiWhitespace c = true) : Text.isWhitespace c = true := by
  unfold isAsciiWhitespace at h
  simp only [Bool.or_eq_true, decide_eq_true_eq] at h
  rcases h with (((rfl | rfl) | rfl) | rfl) | rfl <;> rfl

theorem refresh_refreshContent (h : Checked value) : refresh (refreshContent value) = some (some (unquote value)) := by
  have hcontent : refreshContent value = "0;url=".toList ++ value := by
    have hplain : ∀ c ∈ "0;url=".toList ++ value, c ≠ '\r' ∧ c ≠ Char.ofNat 0 := by
      intro c hc
      cases List.mem_append.mp hc with
      | inl hc =>
        have hall : "0;url=".toList.all (fun c => c ≠ '\r' && c ≠ Char.ofNat 0) = true := rfl
        have hboth := List.all_eq_true.mp hall c hc
        rw [Bool.and_eq_true, decide_eq_true_eq, decide_eq_true_eq] at hboth
        exact hboth
      | inr hc => exact ⟨(h.plain c hc).2.2.1, (h.plain c hc).2.2.2⟩
    have hsame : ∀ c ∈ "0;url=".toList ++ value, Html.replaceNul c = id c :=
      fun c hc => Html.replaceNul_of_ne (hplain c hc).2
    unfold refreshContent parsed
    rw [Html.normalizeNewlines_plain fun c hc => (hplain c hc).1, List.map_congr_left hsame, List.map_id]
  have hblank : value.dropWhile isAsciiWhitespace = value := by
    cases value with
    | nil => rfl
    | cons c rest =>
      rw [List.dropWhile_cons, if_neg]
      intro hascii
      have hhead := head_of_trimmed h.trimmed c rfl
      rw [isWhitespace_of_ascii hascii] at hhead
      cases hhead
  rw [hcontent]
  change some (some (unquote (value.dropWhile isAsciiWhitespace))) = _
  rw [hblank]

theorem no_scheme_of_checked (h : Checked value) (hweb : spellsWeb value = false) : splitScheme (clean value) = none := by
  rcases h.form with hslash | hspells | hcolon
  . cases value with
    | nil => cases hslash
    | cons c rest =>
      cases hslash
      rw [clean_cons rfl]
      rfl
  . rw [hweb] at hspells
    cases hspells
  . exact splitScheme_of_not_mem fun hmem => hcolon (mem_of_mem_clean hmem)

theorem unquote_cases (value : List Char)
    : unquote value = value ∨ (∀ c ∈ unquote value, c ∈ value) ∧ (value.head? = some '\'' ∨ value.head? = some '"') := by
  cases value with
  | nil => exact .inl rfl
  | cons quote rest =>
    unfold unquote
    dsimp only
    split
    . next hquote =>
      rw [Bool.or_eq_true, decide_eq_true_eq, decide_eq_true_eq] at hquote
      right
      constructor
      . intro c hc
        exact List.mem_cons_of_mem _ ((List.takeWhile_sublist _).subset hc)
      . cases hquote with
        | inl hquote => exact .inl (congrArg some hquote)
        | inr hquote => exact .inr (congrArg some hquote)
    . exact .inl rfl

theorem not_mem_colon (h : Checked value) (hweb : spellsWeb value = false)
    (hquote : value.head? = some '\'' ∨ value.head? = some '"')
    : ':' ∉ value := by
  rcases h.form with hslash | hspells | hcolon
  . rw [hslash] at hquote
    cases hquote with
    | inl hquote => exact absurd (Option.some.inj hquote) (by decide)
    | inr hquote => exact absurd (Option.some.inj hquote) (by decide)
  . rw [hweb] at hspells
    cases hspells
  . exact hcolon

theorem resolve_eq {base : Origin Host} (hscheme : splitScheme (clean input) = none) (hplain : '\\' ∉ input)
    : resolve parseHost base input
      = if startsNetworkPath input then authority parseHost base.scheme ((clean input).dropWhile isSlash)
        else some (.hierarchical base) :=
  resolve_of_no_scheme hscheme hplain

theorem stays_iff [Inhabited Host] (hweb : spellsWeb value = false) (hscheme : splitScheme (clean input) = none)
    (hplain : '\\' ∉ input)
    : Stays parseHost value input ↔ startsNetworkPath input = false := by
  constructor
  . intro hstays
    cases hpath : startsNetworkPath input with
    | false => rfl
    | true =>
      -- two pages that differ in their ports cannot both be the place
      obtain ⟨first, hfirst, -, hone⟩ := hstays ⟨https, default, some 1⟩ rfl
      obtain ⟨second, hsecond, -, hother⟩ := hstays ⟨https, default, some 2⟩ rfl
      rw [resolve_eq hscheme hplain, hpath, if_pos rfl] at hfirst hsecond
      rw [hfirst] at hsecond
      cases hsecond
      rw [hweb] at hone hother
      cases hone with
      | inl hone => cases hone
      | inr hone =>
        cases hother with
        | inl hother => cases hother
        | inr hother =>
          rw [hone] at hother
          cases hother
  . intro hpath base hbase
    rw [resolve_eq hscheme hplain, hpath, if_neg Bool.false_ne_true]
    exact ⟨base, rfl, hbase, .inr rfl⟩

theorem web_scheme (h : spellsWeb value = true)
    : ∃ name after, isWeb name = true ∧ splitScheme (clean value) = some (name, '/' :: '/' :: after)
      ∧ unquote value = value := by
  unfold spellsWeb at h
  rw [Bool.or_eq_true, List.isPrefixOf_iff_prefix, List.isPrefixOf_iff_prefix] at h
  cases h with
  | inl h =>
    obtain ⟨rest, hrest⟩ := h
    have hclean := @clean_append 'h' ['t', 't', 'p', 's', ':', '/'] rest rfl rfl '/' rfl
    refine ⟨https, (rest.rdropWhile isC0ControlOrSpace).filter (!isTabOrNewline ·), rfl, ?_, ?_⟩
    . rw [← hrest]
      change splitScheme (clean ('h' :: ['t', 't', 'p', 's', ':', '/'] ++ '/' :: rest)) = _
      rw [hclean]
      rfl
    . rw [← hrest]
      rfl
  | inr h =>
    obtain ⟨rest, hrest⟩ := h
    have hclean := @clean_append 'h' ['t', 't', 'p', ':', '/'] rest rfl rfl '/' rfl
    refine ⟨http, (rest.rdropWhile isC0ControlOrSpace).filter (!isTabOrNewline ·), rfl, ?_, ?_⟩
    . rw [← hrest]
      change splitScheme (clean ('h' :: ['t', 't', 'p', ':', '/'] ++ '/' :: rest)) = _
      rw [hclean]
      rfl
    . rw [← hrest]
      rfl

theorem stays_web_iff [Inhabited Host] (hweb : spellsWeb value = true)
    : Stays parseHost value value ↔ authorityParses parseHost value = true := by
  obtain ⟨name, after, hname, hscheme, -⟩ := web_scheme hweb
  have hresolve : ∀ base : Origin Host, resolve parseHost base value = authority parseHost name (after.dropWhile isSlash) :=
    fun base => resolve_of_scheme hscheme hname
  have hparses : authorityParses parseHost value = (authority parseHost name (after.dropWhile isSlash)).isSome := by
    unfold authorityParses
    rw [hscheme]
    rfl
  rw [hparses]
  constructor
  . intro hstays
    obtain ⟨origin, horigin, -⟩ := hstays ⟨https, default, none⟩ rfl
    rw [hresolve] at horigin
    rw [horigin]
    rfl
  . intro hsome base _
    obtain ⟨resolved, hresolved⟩ := Option.isSome_iff_exists.mp hsome
    obtain ⟨host, port, hplace⟩ := authority_scheme hresolved
    rw [hplace] at hresolved
    exact ⟨_, (hresolve base).trans hresolved, hname, .inl hweb⟩

theorem head_urls_stay_iff [Inhabited Host] (h : safeDocumentUrl value = true)
    : (Stays parseHost value value
        ∧ ∃ target, refresh (refreshContent value) = some (some target) ∧ Stays parseHost value target)
      ↔ contained parseHost value = true := by
  have hchecked := checked_of_safe h
  have hplain : '\\' ∉ value := fun hmem => (hchecked.plain _ hmem).1 rfl
  rw [refresh_refreshContent hchecked]
  have htarget : (∃ target, some (some (unquote value)) = some (some target) ∧ Stays parseHost value target)
      ↔ Stays parseHost value (unquote value) := by
    constructor
    . rintro ⟨target, hsame, hstays⟩
      cases hsame
      exact hstays
    . exact fun hstays => ⟨_, rfl, hstays⟩
  rw [htarget]
  unfold contained
  cases hweb : spellsWeb value with
  | true =>
    obtain ⟨name, after, -, -, hunquoted⟩ := web_scheme hweb
    rw [hunquoted, and_self_iff, if_pos rfl]
    exact stays_web_iff hweb
  | false =>
    have hunquoted : splitScheme (clean (unquote value)) = none ∧ '\\' ∉ unquote value := by
      cases unquote_cases value with
      | inl hsame =>
        rw [hsame]
        exact ⟨no_scheme_of_checked hchecked hweb, hplain⟩
      | inr hquoted =>
        have hcolon := not_mem_colon hchecked hweb hquoted.2
        constructor
        . exact splitScheme_of_not_mem fun hmem => hcolon (hquoted.1 _ (mem_of_mem_clean hmem))
        . exact fun hmem => hplain (hquoted.1 _ hmem)
    rw [stays_iff hweb (no_scheme_of_checked hchecked hweb) hplain, stays_iff hweb hunquoted.1 hunquoted.2,
      if_neg Bool.false_ne_true, Bool.and_eq_true, Bool.not_eq_true', Bool.not_eq_true']

def someHost (text : List Char) : Option (List Char) :=
  some (text.map Char.toLower)

def siteOrigin : Origin (List Char) :=
  ⟨https, "site.example".toList, none⟩

theorem head_urls_stay_iff_asset
    : Stays someHost "/asset.css".toList "/asset.css".toList
      ∧ ∃ target, refresh (refreshContent "/asset.css".toList) = some (some target)
        ∧ Stays someHost "/asset.css".toList target :=
  (head_urls_stay_iff (rfl : safeDocumentUrl "/asset.css".toList = true)).mpr rfl

-- A tab between the slashes, and quotes around them.
theorem head_urls_leave
    : (safeDocumentUrl "/\t/evil.example/x".toList = true
        ∧ resolve someHost siteOrigin "/\t/evil.example/x".toList = some (.hierarchical ⟨https, "evil.example".toList, none⟩))
      ∧ safeDocumentUrl "'//evil.example'".toList = true
        ∧ refresh (refreshContent "'//evil.example'".toList) = some (some "//evil.example".toList)
        ∧ resolve someHost siteOrigin "//evil.example".toList = some (.hierarchical ⟨https, "evil.example".toList, none⟩) := by
  refine ⟨⟨?_, ?_⟩, ?_, ?_, ?_⟩
  . rfl
  . rfl
  . rfl
  . rfl
  . rfl

end Ssg

end Pliego
