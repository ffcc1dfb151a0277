import Pliego.Lib.Bytes

/-!
Text read the way a standard library of strings does it: splitting and joining at a separator,
prefixes and suffixes of one character, and two character classes.
-/

namespace Text

open Bytes

def split (separator : Char) (text : String) : List String :=
  (text.toList.splitOn separator).map String.ofList

def join (separator : Char) (parts : List String) : String :=
  String.ofList ([separator].intercalate (parts.map String.toList))

def stripPrefix (first : Char) (text : String) : Option String :=
  match text.toList with
  | [] => none
  | c :: rest => if c = first then some (String.ofList rest) else none

def stripSuffix (last : Char) (text : String) : Option String :=
  if text.toList.getLast? = some last then some (String.ofList text.toList.dropLast) else none

def startsWith (first : Char) (text : String) : Bool :=
  text.toList.head? = some first

def endsWith (last : Char) (text : String) : Bool :=
  text.toList.getLast? = some last

def contains (text : String) (c : Char) : Bool :=
  text.toList.contains c

def containsPair (a b : Char) (chars : List Char) : Bool :=
  match chars with
  | first :: second :: rest => (first == a && second == b) || containsPair a b (second :: rest)
  | _ => false

-- The general category `Cc`.
def isControl (c : Char) : Bool :=
  c.toNat < 32 || (127 ≤ c.toNat && c.toNat < 160)

-- The property `White_Space`.
def isWhitespace (c : Char) : Bool :=
  (9 ≤ c.toNat && c.toNat ≤ 13) || c.toNat = 32 || c.toNat = 0x85 || c.toNat = 0xA0
    || c.toNat = 0x1680 || (0x2000 ≤ c.toNat && c.toNat ≤ 0x200A) || c.toNat = 0x2028
    || c.toNat = 0x2029 || c.toNat = 0x202F || c.toNat = 0x205F || c.toNat = 0x3000

def trim (chars : List Char) : List Char :=
  ((chars.dropWhile isWhitespace).reverse.dropWhile isWhitespace).reverse

variable {c : Char} {text part : String} {parts : List String}

theorem split_ne_nil : split c text ≠ [] := by
  unfold split
  simp [List.splitOn_ne_nil]

theorem join_split : join c (split c text) = text := by
  unfold join split
  rw [List.map_map]
  have hid : String.toList ∘ String.ofList = id := by
    funext chars
    simp
  rw [hid, List.map_id, List.intercalate_splitOn, String.ofList_toList]

theorem split_join (hparts : ∀ part ∈ parts, c ∉ part.toList) (hne : parts ≠ [])
    : split c (join c parts) = parts := by
  unfold join split
  rw [String.toList_ofList, List.splitOn_intercalate]
  . simp [Function.comp_def]
  . simpa using hparts
  . simpa using hne

theorem split_inj {a b : String} (h : split c a = split c b) : a = b := by
  calc a = join c (split c a) := join_split.symm
    _ = join c (split c b) := by rw [h]
    _ = b := join_split

theorem not_mem_of_mem_splitOn {chars piece : List Char} (h : piece ∈ chars.splitOn c)
    : c ∉ piece := by
  induction chars generalizing piece with
  | nil =>
    rw [List.splitOn_nil, List.mem_singleton] at h
    simp [h]
  | cons first rest ih =>
    rw [List.splitOn_cons_eq_if_modifyHead] at h
    split at h
    . cases List.mem_cons.mp h with
      | inl hnil => simp [hnil]
      | inr hmem => exact ih hmem
    . next hfirst =>
      cases hrest : rest.splitOn c with
      | nil => exact absurd hrest (List.splitOn_ne_nil c rest)
      | cons head pieces =>
        rw [hrest, List.modifyHead_cons] at h
        rw [hrest] at ih
        cases List.mem_cons.mp h with
        | inl hpiece =>
          have hhead : c ∉ head := ih List.mem_cons_self
          rw [hpiece, List.mem_cons, not_or]
          exact ⟨fun heq => hfirst (by simp [heq]), hhead⟩
        | inr hmem => exact ih (List.mem_cons_of_mem _ hmem)

theorem splitOn_append {chars rest : List Char} (h : c ∉ chars)
    : (chars ++ rest).splitOn c = (rest.splitOn c).modifyHead (chars ++ ·) := by
  induction chars with
  | nil =>
    rw [List.nil_append]
    cases rest.splitOn c <;> rfl
  | cons first chars ih =>
    rw [List.mem_cons, not_or] at h
    rw [List.cons_append, List.splitOn_cons_eq_if_modifyHead, if_neg (by simpa using Ne.symm h.1), ih h.2]
    cases rest.splitOn c <;> rfl

theorem splitOn_flatMap {f : Char → List Char} (hsame : f c = [c]) (hother : ∀ d, d ≠ c → c ∉ f d)
    (chars : List Char)
    : (chars.flatMap f).splitOn c = (chars.splitOn c).map (List.flatMap f) := by
  induction chars with
  | nil => rfl
  | cons first rest ih =>
    rw [List.flatMap_cons, List.splitOn_cons_eq_if_modifyHead]
    by_cases hfirst : first = c
    . rw [hfirst, hsame, List.singleton_append, List.splitOn_cons_eq_if_modifyHead, ih]
      simp
    . rw [splitOn_append (hother first hfirst), ih, if_neg (by simpa using hfirst)]
      cases rest.splitOn c <;> rfl

def mapChars (f : Char → List Char) (text : String) : String :=
  String.ofList (text.toList.flatMap f)

theorem split_mapChars {f : Char → List Char} (hsame : f c = [c]) (hother : ∀ d, d ≠ c → c ∉ f d)
    : split c (mapChars f text) = (split c text).map (mapChars f) := by
  unfold split mapChars
  rw [String.toList_ofList, splitOn_flatMap hsame hother]
  simp [Function.comp_def]

theorem head?_of_splitOn {chars : List Char} (h : (chars.splitOn c).head? = some [])
    : chars = [] ∨ chars.head? = some c := by
  cases chars with
  | nil => exact .inl rfl
  | cons first rest =>
    rw [List.splitOn_cons_eq_if_modifyHead] at h
    split at h
    . next hfirst => exact .inr (by simpa using hfirst)
    . cases hrest : rest.splitOn c with
      | nil => exact absurd hrest (List.splitOn_ne_nil c rest)
      | cons head pieces =>
        rw [hrest] at h
        cases h

theorem separators_of_empty_piece {chars : List Char} (h : [] ∈ (chars.splitOn c).tail)
    : containsPair c c chars = true ∨ chars.getLast? = some c := by
  induction chars with
  | nil => cases h
  | cons first rest ih =>
    rw [List.splitOn_cons_eq_if_modifyHead] at h
    have hlater : [] ∈ (rest.splitOn c).tail →
        containsPair c c (first :: rest) = true ∨ (first :: rest).getLast? = some c := by
      intro hmem
      cases rest with
      | nil => cases hmem
      | cons second rest =>
        cases ih hmem with
        | inl hpair =>
          left
          unfold containsPair
          rw [hpair, Bool.or_true]
        | inr hlast =>
          right
          rw [List.getLast?_cons_cons]
          exact hlast
    cases hrest : rest.splitOn c with
    | nil => exact absurd hrest (List.splitOn_ne_nil c rest)
    | cons head pieces =>
      rw [hrest] at h hlater
      split at h
      . next hfirst =>
        have hfirst : first = c := by simpa using hfirst
        subst hfirst
        cases List.mem_cons.mp h with
        | inl hhead =>
          have hempty : (rest.splitOn first).head? = some [] := by
            rw [hrest, hhead]
            rfl
          cases head?_of_splitOn hempty with
          | inl hnil =>
            right
            rw [hnil]
            rfl
          | inr hsecond =>
            left
            cases rest with
            | nil => cases hsecond
            | cons second rest =>
              cases hsecond
              simp [containsPair]
        | inr hmem => exact hlater hmem
      . rw [List.modifyHead_cons] at h
        exact hlater h

theorem not_mem_of_mem_split (h : part ∈ split c text) : c ∉ part.toList := by
  unfold split at h
  obtain ⟨chars, hchars, rfl⟩ := List.mem_map.mp h
  rw [String.toList_ofList]
  exact not_mem_of_mem_splitOn hchars

theorem containsPair_cons_cons (a b first second : Char) (rest : List Char)
    : containsPair a b (first :: second :: rest)
      = ((first == a && second == b) || containsPair a b (second :: rest)) := rfl

theorem containsPair_append {chars rest : List Char} (h : c ∉ chars)
    : containsPair c c (chars ++ rest) = containsPair c c rest := by
  induction chars with
  | nil => rfl
  | cons first chars ih =>
    rw [List.mem_cons, not_or] at h
    have hfirst : (first == c) = false := by simpa using Ne.symm h.1
    rw [List.cons_append]
    cases hrest : chars ++ rest with
    | nil =>
      rw [hrest] at ih
      rw [← ih h.2]
      rfl
    | cons second others =>
      rw [containsPair_cons_cons, hfirst, ← hrest, ih h.2]
      rfl

theorem joined_pieces {pieces : List (List Char)} (hne : pieces ≠ [])
    (hpieces : ∀ piece ∈ pieces, c ∉ piece ∧ piece ≠ [])
    : containsPair c c (c :: [c].intercalate pieces) = false
      ∧ ∃ last, ([c].intercalate pieces).getLast? = some last ∧ last ≠ c := by
  induction pieces with
  | nil => exact absurd rfl hne
  | cons piece pieces ih =>
    obtain ⟨hpiece, hnonempty⟩ := hpieces piece List.mem_cons_self
    have hstart : ∀ rest, containsPair c c (c :: (piece ++ rest)) = containsPair c c rest := by
      intro rest
      cases piece with
      | nil => exact absurd rfl hnonempty
      | cons first piece =>
        have hfirst : (first == c) = false := by
          simpa using fun h : first = c => hpiece (h ▸ List.mem_cons_self)
        rw [List.cons_append, containsPair_cons_cons, hfirst, Bool.and_false, Bool.false_or,
          ← List.cons_append, containsPair_append hpiece]
    cases pieces with
    | nil =>
      rw [List.intercalate_singleton]
      constructor
      . have h := hstart []
        rw [List.append_nil] at h
        exact h
      . refine ⟨piece.getLast hnonempty, List.getLast?_eq_some_getLast hnonempty, ?_⟩
        exact fun h => hpiece (h ▸ List.getLast_mem hnonempty)
    | cons second pieces =>
      obtain ⟨hpair, last, hlast, hne⟩ := ih (List.cons_ne_nil _ _)
        (fun other hother => hpieces other (List.mem_cons_of_mem _ hother))
      rw [List.intercalate_cons_cons, List.append_assoc]
      constructor
      . rw [hstart]
        exact hpair
      . refine ⟨last, ?_, hne⟩
        rw [List.getLast?_append, List.getLast?_append, hlast]
        rfl

theorem mem_intercalate {sep : Char} {pieces : List (List Char)}
    : c ∈ [sep].intercalate pieces ↔
      (c = sep ∧ 1 < pieces.length) ∨ ∃ piece ∈ pieces, c ∈ piece := by
  induction pieces with
  | nil => simp
  | cons piece pieces ih =>
    cases pieces with
    | nil => simp
    | cons second pieces =>
      rw [List.intercalate_cons_cons, List.mem_append, List.mem_append, ih, List.mem_singleton]
      simp only [List.length_cons, List.mem_cons, exists_eq_or_imp]
      have hlong : 1 < pieces.length + 1 + 1 := by omega
      simp only [hlong, and_true]
      tauto

theorem mem_of_mem_split {d : Char} (h : part ∈ split c text) (hd : d ∈ part.toList)
    : d ∈ text.toList := by
  rw [← @join_split c text]
  unfold join
  rw [String.toList_ofList, mem_intercalate]
  exact .inr ⟨part.toList, List.mem_map_of_mem h, hd⟩

theorem join_toList : (join c parts).toList = [c].intercalate (parts.map String.toList) := by
  unfold join
  rw [String.toList_ofList]

theorem join_ends (hne : parts ≠ []) (hparts : ∀ part ∈ parts, c ∉ part.toList ∧ part ≠ "")
    : startsWith c (join c parts) = false ∧ endsWith c (join c parts) = false := by
  have hpieces : ∀ piece ∈ parts.map String.toList, c ∉ piece ∧ piece ≠ [] := by
    intro piece hpiece
    obtain ⟨part, hpart, rfl⟩ := List.mem_map.mp hpiece
    exact ⟨(hparts part hpart).1, fun h => (hparts part hpart).2 (String.toList_eq_nil_iff.mp h)⟩
  obtain ⟨hpair, last, hlast, hdiffers⟩ := joined_pieces (by simpa using hne) hpieces
  unfold startsWith endsWith
  rw [join_toList]
  constructor
  . apply decide_eq_false
    intro hhead
    cases hchars : [c].intercalate (parts.map String.toList) with
    | nil =>
      rw [hchars] at hhead
      cases hhead
    | cons first rest =>
      rw [hchars] at hhead hpair
      cases hhead
      rw [containsPair_cons_cons, beq_self_eq_true] at hpair
      cases hpair
  . apply decide_eq_false
    rw [hlast]
    exact fun h => hdiffers (Option.some.inj h)

theorem contains_join {d : Char} (hne : d ≠ c) (hparts : ∀ part ∈ parts, contains part d = false)
    : contains (join c parts) d = false := by
  unfold contains at hparts ⊢
  rw [join_toList, List.contains_eq_mem, decide_eq_false_iff_not, mem_intercalate]
  rintro (⟨hsame, -⟩ | ⟨piece, hpiece, hmem⟩)
  . exact hne hsame
  . obtain ⟨part, hpart, rfl⟩ := List.mem_map.mp hpiece
    have hpart := hparts part hpart
    rw [List.contains_eq_mem, decide_eq_false_iff_not] at hpart
    exact hpart hmem

theorem join_cons_cons {first second : String}
    : join c (first :: second :: parts) = first ++ String.ofList [c] ++ join c (second :: parts) := by
  apply String.toList_injective
  rw [String.toList_append, String.toList_append, join_toList, join_toList, List.map_cons, List.map_cons,
    List.intercalate_cons_cons, String.toList_ofList]

theorem length_utf8_join (hsep : (String.utf8EncodeChar c).length = 1) (hne : parts ≠ [])
    : (utf8 (join c parts)).length + 1 = (parts.map (fun part => (utf8 part).length + 1)).sum := by
  induction parts with
  | nil => exact absurd rfl hne
  | cons first parts ih =>
    cases parts with
    | nil => simp [join]
    | cons second parts =>
      have ih := ih (List.cons_ne_nil _ _)
      have hone : (utf8 (String.ofList [c])).length = 1 := by
        rw [utf8_ofList, List.flatMap_singleton, hsep]
      rw [join_cons_cons, utf8_append, utf8_append, List.length_append, List.length_append, hone,
        List.map_cons, List.sum_cons, ← ih]
      omega

theorem utf8EncodeChar_ascii (h : c.toNat < 128)
    : String.utf8EncodeChar c = [UInt8.ofNat c.toNat] := by
  unfold String.utf8EncodeChar
  exact if_pos (Nat.le_of_lt_succ h)

theorem le_of_mem_utf8EncodeChar (h : 128 ≤ c.toNat) {byte : UInt8} (hbyte : byte ∈ String.utf8EncodeChar c)
    : 128 ≤ byte.toNat := by
  change 128 ≤ c.val.toNat at h
  have hvalid := c.valid
  unfold String.utf8EncodeChar at hbyte
  dsimp only at hbyte
  rw [if_neg (by omega)] at hbyte
  have hmod : ∀ n, n % 64 + 128 < 256 := fun n => by omega
  split at hbyte
  . simp only [List.mem_cons, List.not_mem_nil, or_false] at hbyte
    rcases hbyte with rfl | rfl <;> (rw [UInt8.toNat_ofNat']; omega)
  . split at hbyte
    . simp only [List.mem_cons, List.not_mem_nil, or_false] at hbyte
      rcases hbyte with rfl | rfl | rfl <;> (rw [UInt8.toNat_ofNat']; omega)
    . simp only [List.mem_cons, List.not_mem_nil, or_false] at hbyte
      rcases hbyte with rfl | rfl | rfl | rfl <;> (rw [UInt8.toNat_ofNat']; omega)

theorem utf8EncodeChar_wide (h : 128 ≤ c.toNat)
    : ∃ byte ∈ String.utf8EncodeChar c, 128 ≤ byte.toNat := by
  obtain ⟨byte, hbyte⟩ := List.exists_mem_of_ne_nil _ (@String.utf8EncodeChar_ne_nil c)
  exact ⟨byte, hbyte, le_of_mem_utf8EncodeChar h hbyte⟩

theorem ascii_of_all {p : UInt8 → Bool} (hp : ∀ byte, p byte = true → byte.toNat < 128)
    (h : (utf8 text).all p = true) (hc : c ∈ text.toList)
    : c.toNat < 128 ∧ p (UInt8.ofNat c.toNat) = true := by
  have hall : ∀ byte ∈ String.utf8EncodeChar c, p byte = true := by
    intro byte hbyte
    apply List.all_eq_true.mp h
    rw [← String.ofList_toList (s := text), utf8_ofList, List.mem_flatMap]
    exact ⟨c, hc, hbyte⟩
  by_cases hsmall : c.toNat < 128
  . rw [utf8EncodeChar_ascii hsmall] at hall
    exact ⟨hsmall, hall _ List.mem_cons_self⟩
  . obtain ⟨byte, hbyte, hwide⟩ := utf8EncodeChar_wide (Nat.le_of_not_lt hsmall)
    have := hp byte (hall byte hbyte)
    omega

end Text
