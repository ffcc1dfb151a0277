import Pliego.Lib.Fields
import Pliego.Log.KeyScan

/-!
Canonical JSON decides the equality of documents: two of them have one canonical text where they denote one
value, and canonical texts are their own.
-/

namespace Pliego

open Bytes Decimal JsonText Sorting

namespace CanonicalJson

section Parsing

variable {serde : SerdeJson} {raw raw' : List UInt8} {json json' : CanonicalJson} {value value' : Value}

-- What an accepted document is.
structure Admitted (serde : SerdeJson) (raw : List UInt8) (value : Value) (json : CanonicalJson) : Prop where
  length : raw.length ≤ maxJsonBytes
  visit : serde.visit raw = (value, none)
  unique : value.Every UniqueNames
  unreserved : value.Every (Unnamed serdeArbitraryPrecisionNumberKey)
  nodes : value.values.length ≤ maxJsonNodes
  levels : value.levels ≤ maxJsonDepth
  bytes : json.bytes = write serde.quote (value.normal canonicalLexeme)

theorem noDuplicates_ok
    : noDuplicates serde raw = .ok () ↔ ∃ value, serde.visit raw = (value, none) ∧ value.Every UniqueNames := by
  unfold noDuplicates
  cases hvisit : serde.visit raw with
  | mk value failure =>
    dsimp only
    cases hduplicate : duplicate value with
    | some key =>
      apply iff_of_false
      . intro h
        cases h
      . intro h
        obtain ⟨value', hsame, hunique⟩ := h
        cases hsame
        rw [← duplicate_eq_none, hduplicate] at hunique
        cases hunique
    | none =>
      cases failure with
      | some reason =>
        apply iff_of_false
        . intro h
          cases h
        . intro h
          obtain ⟨value', hsame, -⟩ := h
          cases hsame
      | none => exact iff_of_true rfl ⟨value, rfl, duplicate_eq_none.mp hduplicate⟩

theorem normal_normal (hunique : value.Every UniqueNames) (hproper : value.Every ProperNumber) {f : String → String}
    (hf : ∀ lexeme : String, IsNumber lexeme.toList →
      IsNumber (f lexeme).toList ∧ numberValue (f lexeme).toList = numberValue lexeme.toList)
    : (value.normal f).normal canonicalLexeme = value.normal canonicalLexeme := by
  apply Value.normal_eq_of_json
  . exact hunique.normal (fun _ => uniqueNames_normal)
  . exact hunique
  . exact hproper.normal (fun _ => properNumber_normal (fun lexeme h => (hf lexeme h).1))
  . exact hproper
  . exact fun _ _ => canonicalLexeme_eq
  . exact Value.json_normal hunique hproper (fun lexeme h => (hf lexeme h).2)

section

variable (hserde : Lawful serde)

include hserde

theorem parse_ok : parse serde raw = .ok json ↔ ∃ value, Admitted serde raw value json := by
  unfold parse
  split
  . next hlarge =>
    apply iff_of_false
    . intro h
      cases h
    . intro h
      obtain ⟨value, hadmitted⟩ := h
      exact absurd hadmitted.length (not_le.mpr hlarge)
  . next hsmall =>
    rw [not_lt] at hsmall
    simp only [↓Except.bind_unit_eq_ok, Except.bind_eq_ok, Except.mapError_eq_ok, noDuplicates_ok,
      validateJsonShape_ok]
    have hrest : ∀ {value : Value}, serde.visit raw = (value, none) → value.Every UniqueNames →
        value.Every (Unnamed serdeArbitraryPrecisionNumberKey) →
        serde.fromSlice raw = .ok (value.normal id)
          ∧ writeCanonical serde (value.normal id) = .ok (write serde.quote (value.normal canonicalLexeme)) := by
      intro value hvisit hunique hunreserved
      have hproper := (hserde.sound raw value hvisit).proper
      refine ⟨hserde.fromSlice raw value hvisit hunique hunreserved, ?_⟩
      have hsorted : (value.normal id).Every ProperNumber :=
        hproper.normal (fun _ => properNumber_normal (fun _ h => h))
      rw [writeCanonical_ok hsorted, @normal_normal value hunique hproper id (fun _ h => ⟨h, rfl⟩)]
    constructor
    . intro h
      obtain ⟨hscan, ⟨value, hvisit, hunique⟩, found, hfound, ⟨hnodes, hlevels⟩, bytes, hbytes, h⟩ := h
      have hreads := hserde.sound raw value hvisit
      have hunreserved := (rejectReservedNumberKeys_ok hserde hreads).mp hscan
      obtain ⟨hslice, hwrite⟩ := hrest hvisit hunique hunreserved
      rw [hslice] at hfound
      cases hfound
      rw [hwrite] at hbytes
      cases hbytes
      split at h
      . cases h
        rw [Value.length_values_normal] at hnodes
        rw [Value.levels_normal] at hlevels
        exact ⟨value, hsmall, hvisit, hunique, hunreserved, hnodes, hlevels, rfl⟩
      . cases h
    . intro h
      obtain ⟨value, hadmitted⟩ := h
      obtain ⟨-, hvisit, hunique, hunreserved, hnodes, hlevels, hbytes⟩ := hadmitted
      have hreads := hserde.sound raw value hvisit
      obtain ⟨hslice, hwrite⟩ := hrest hvisit hunique hunreserved
      refine ⟨(rejectReservedNumberKeys_ok hserde hreads).mpr hunreserved, ⟨value, hvisit, hunique⟩, _, hslice,
        ⟨?_, ?_⟩, _, hwrite, ?_⟩
      . rw [Value.length_values_normal]
        exact hnodes
      . rw [Value.levels_normal]
        exact hlevels
      . have hlength := json.length_le
        rw [hbytes] at hlength
        rw [dif_pos hlength, Except.ok.injEq]
        exact CanonicalJson.ext hbytes.symm

theorem Admitted.reads (h : Admitted serde raw value json)
    : Reads json.bytes (value.normal canonicalLexeme) := by
  rw [h.bytes]
  apply reads_write hserde.quote
  have hproper := (hserde.sound raw value h.visit).proper
  exact hproper.normal (fun _ => properNumber_normal (fun _ h => (canonicalLexeme_spec h).2.1))

theorem Admitted.json_normal (h : Admitted serde raw value json)
    : (value.normal canonicalLexeme).json = value.json :=
  Value.json_normal h.unique (hserde.sound raw value h.visit).proper (fun _ h => (canonicalLexeme_spec h).2.2)

theorem Admitted.eq_iff (h : Admitted serde raw value json) (h' : Admitted serde raw' value' json')
    : json = json' ↔ value.json = value'.json := by
  constructor
  . intro hsame
    have hreads := h.reads hserde
    rw [hsame] at hreads
    have hnormal := hreads.unique (h'.reads hserde)
    rw [← h.json_normal hserde, hnormal, h'.json_normal hserde]
  . intro hsame
    apply CanonicalJson.ext
    rw [h.bytes, h'.bytes]
    congr 1
    exact Value.normal_eq_of_json h.unique h'.unique (hserde.sound raw value h.visit).proper
      (hserde.sound raw' value' h'.visit).proper (fun _ _ => canonicalLexeme_eq) hsame

theorem Admitted.canonical (h : Admitted serde raw value json)
    : Admitted serde json.bytes (value.normal canonicalLexeme) json := by
  have hproper := (hserde.sound raw value h.visit).proper
  constructor
  . exact json.length_le
  . apply hserde.complete _ _ (h.reads hserde)
    have hlevels := h.levels
    rw [Value.levels_normal]
    exact lt_of_le_of_lt hlevels (by decide)
  . exact h.unique.normal (fun _ => uniqueNames_normal)
  . exact h.unreserved.normal (fun _ => unnamed_normal)
  . rw [Value.length_values_normal]
    exact h.nodes
  . rw [Value.levels_normal]
    exact h.levels
  . rw [h.bytes, normal_normal h.unique hproper (fun _ h => (canonicalLexeme_spec h).2)]

end

def SameDocument (raw raw' : List UInt8) : Prop :=
  ∃ value value', Reads raw value ∧ Reads raw' value' ∧ value.json = value'.json

theorem canonical_json_decides_equality (hserde : Lawful serde)
    : (∀ raw raw' json json', parse serde raw = .ok json → parse serde raw' = .ok json' →
        (json = json' ↔ SameDocument raw raw'))
      ∧ (∀ raw json, parse serde raw = .ok json →
        (∃ value, Reads raw value ∧ value.Every UniqueNames ∧ value.levels ≤ maxJsonDepth
          ∧ value.values.length ≤ maxJsonNodes)
        ∧ parse serde json.bytes = .ok json) := by
  constructor
  . intro raw raw' json json' h h'
    obtain ⟨value, hadmitted⟩ := (parse_ok hserde).mp h
    obtain ⟨value', hadmitted'⟩ := (parse_ok hserde).mp h'
    have hreads := hserde.sound raw value hadmitted.visit
    have hreads' := hserde.sound raw' value' hadmitted'.visit
    rw [hadmitted.eq_iff hserde hadmitted']
    constructor
    . exact fun hsame => ⟨value, value', hreads, hreads', hsame⟩
    . intro hsame
      obtain ⟨first, second, hfirst, hsecond, hsame⟩ := hsame
      rw [hreads.unique hfirst, hreads'.unique hsecond]
      exact hsame
  . intro raw json h
    obtain ⟨value, hadmitted⟩ := (parse_ok hserde).mp h
    exact ⟨⟨value, hserde.sound raw value hadmitted.visit, hadmitted.unique, hadmitted.levels, hadmitted.nodes⟩,
      (parse_ok hserde).mpr ⟨_, hadmitted.canonical hserde⟩⟩

end Parsing

section Reference

def escapeChar (c : Char) : List Char :=
  if c = '"' then ['\\', '"']
  else if c = '\\' then ['\\', '\\']
  else if c.toNat = 8 then ['\\', 'b']
  else if c.toNat = 9 then ['\\', 't']
  else if c.toNat = 10 then ['\\', 'n']
  else if c.toNat = 12 then ['\\', 'f']
  else if c.toNat = 13 then ['\\', 'r']
  else if c.toNat < 32 then ['\\', 'u', '0', '0', Nat.digitChar (c.toNat / 16), Nat.digitChar (c.toNat % 16)]
  else [c]

def quoteText (text : String) : List UInt8 :=
  utf8 (String.ofList ('"' :: (text.toList.flatMap escapeChar ++ ['"'])))

theorem hexUnit_control : ∀ n < 32, hexUnit '0' '0' (Nat.digitChar (n / 16)) (Nat.digitChar (n % 16)) = some n := by
  decide

theorem spelling_escapeChar (c : Char) : Spelling (escapeChar c) c := by
  have hshort : ∀ {mark : Char} {n : Nat}, c.toNat = n → shortEscape mark = some (Char.ofNat n) →
      Spelling ['\\', mark] c := by
    intro mark n hn hmark
    rw [← hn, Char.ofNat_toNat] at hmark
    exact .short hmark
  unfold escapeChar
  split
  . next hc =>
    rw [hc]
    exact .short rfl
  . next hquote =>
    split
    . next hc =>
      rw [hc]
      exact .short rfl
    . next hescape =>
      split
      . next hn => exact hshort hn rfl
      . split
        . next hn => exact hshort hn rfl
        . split
          . next hn => exact hshort hn rfl
          . split
            . next hn => exact hshort hn rfl
            . split
              . next hn => exact hshort hn rfl
              . split
                . next hcontrol =>
                  have hunit := hexUnit_control c.toNat hcontrol
                  have hhigh : isHighSurrogate c.toNat = false := by
                    unfold isHighSurrogate
                    rw [Bool.and_eq_false_iff]
                    exact .inl (decide_eq_false (by omega))
                  have hlow : isLowSurrogate c.toNat = false := by
                    unfold isLowSurrogate
                    rw [Bool.and_eq_false_iff]
                    exact .inl (decide_eq_false (by omega))
                  have hspelling := Spelling.unit hunit hhigh hlow
                  rw [Char.ofNat_toNat] at hspelling
                  exact hspelling
                . next hcontrol => exact .plain hquote hescape (not_lt.mp hcontrol)

theorem isLiteral_quoteText (text : String) : IsLiteral (quoteText text) text := by
  refine ⟨_, rfl, ?_⟩
  induction text.toList with
  | nil => exact .nil
  | cons c rest ih =>
    rw [List.flatMap_cons]
    exact .cons (spelling_escapeChar c) ih

theorem IsLiteral.unique {raw : List UInt8} {text text' : String} (h : IsLiteral raw text) (h' : IsLiteral raw text')
    : text = text' := by
  obtain ⟨body, hraw, hliteral⟩ := h
  obtain ⟨body', hraw', hliteral'⟩ := h'
  rw [hraw] at hraw'
  have hsame := String.ofList_injective (utf8_inj hraw')
  rw [List.cons.injEq] at hsame
  exact String.toList_inj.mp (hliteral.unique hliteral' hsame.2).1

noncomputable def grammarSerde : SerdeJson where
  visit raw := by
    classical
    exact if h : ∃ value, Reads raw value ∧ value.levels < 128 then (h.choose, none) else (.null, some "syntax")
  fromSlice raw := by
    classical
    exact if h : ∃ value, Reads raw value ∧ value.levels < 128 then .ok (h.choose.normal id) else .error "syntax"
  text raw := by
    classical
    exact if h : ∃ text, IsLiteral raw text then .ok h.choose else .error "syntax"
  quote := quoteText

theorem grammarSerde_lawful : Lawful grammarSerde := by
  have hvisit : ∀ {raw value}, Reads raw value → value.levels < 128 → grammarSerde.visit raw = (value, none) := by
    intro raw value hreads hlevels
    have hexists : ∃ value, Reads raw value ∧ value.levels < 128 := ⟨value, hreads, hlevels⟩
    unfold grammarSerde
    dsimp only
    rw [dif_pos hexists, hexists.choose_spec.1.unique hreads]
  have hfound : ∀ {raw value}, grammarSerde.visit raw = (value, none) → Reads raw value ∧ value.levels < 128 := by
    intro raw value h
    unfold grammarSerde at h
    dsimp only at h
    split at h
    . next hexists =>
      cases h
      exact hexists.choose_spec
    . cases h
  constructor
  . exact fun raw value h => (hfound h).1
  . exact fun raw value => hvisit
  . intro raw value h _ _
    obtain ⟨hreads, hlevels⟩ := hfound h
    have hexists : ∃ value, Reads raw value ∧ value.levels < 128 := ⟨value, hreads, hlevels⟩
    unfold grammarSerde
    dsimp only
    rw [dif_pos hexists, hexists.choose_spec.1.unique hreads]
  . intro raw text h
    have hexists : ∃ text, IsLiteral raw text := ⟨text, h⟩
    unfold grammarSerde
    dsimp only
    rw [dif_pos hexists, IsLiteral.unique hexists.choose_spec h]
  . exact isLiteral_quoteText

end Reference

section Example

def firstSample : Value := .object [("b", .number "1.0"), ("a", .array [.number "20e-1"])]

def secondSample : Value := .object [("a", .array [.number "2"]), ("b", .number "1")]

def canonicalSample : CanonicalJson := ⟨utf8 "\x7b\"a\":[2],\"b\":1\x7d", by decide⟩

theorem parse_write {value : Value} {json : CanonicalJson} (hproper : value.Every ProperNumber)
    (hunique : duplicate value = none) (hnames : serdeArbitraryPrecisionNumberKey ∉ namesOf value.tokens)
    (hsize : (write quoteText value).length ≤ maxJsonBytes) (hnodes : value.values.length ≤ maxJsonNodes)
    (hlevels : value.levels ≤ maxJsonDepth) (hbytes : json.bytes = write quoteText (value.normal canonicalLexeme))
    : parse grammarSerde (write quoteText value) = .ok json := by
  apply (parse_ok grammarSerde_lawful).mpr
  have hreads : Reads (write quoteText value) value := reads_write isLiteral_quoteText hproper
  refine ⟨value, hsize, ?_, duplicate_eq_none.mp hunique, mem_namesOf.mp hnames, hnodes, hlevels, hbytes⟩
  apply grammarSerde_lawful.complete _ _ hreads
  exact lt_of_le_of_lt hlevels (by decide)

theorem samples_proper : firstSample.Every ProperNumber ∧ secondSample.Every ProperNumber := by
  have hnumbers : IsNumber "1.0".toList ∧ IsNumber "20e-1".toList ∧ IsNumber "2".toList ∧ IsNumber "1".toList := by
    decide
  constructor
  . intro part hpart lexeme hlexeme
    subst hlexeme
    simp only [firstSample, Value.values, membersValues, itemsValues, List.append_nil, List.nil_append,
      List.cons_append, List.mem_cons, Value.number.injEq, reduceCtorEq, List.not_mem_nil, false_or, or_false] at hpart
    rcases hpart with rfl | rfl
    . exact hnumbers.1
    . exact hnumbers.2.1
  . intro part hpart lexeme hlexeme
    subst hlexeme
    simp only [secondSample, Value.values, membersValues, itemsValues, List.append_nil, List.nil_append,
      List.cons_append, List.mem_cons, Value.number.injEq, reduceCtorEq, List.not_mem_nil, false_or, or_false] at hpart
    rcases hpart with rfl | rfl
    . exact hnumbers.2.2.1
    . exact hnumbers.2.2.2

theorem canonical_json_decides_equality_samples
    : parse grammarSerde (write quoteText firstSample) = .ok canonicalSample
        ∧ parse grammarSerde (write quoteText secondSample) = .ok canonicalSample
        ∧ SameDocument (write quoteText firstSample) (write quoteText secondSample)
        ∧ parse grammarSerde canonicalSample.bytes = .ok canonicalSample := by
  have hfirst : parse grammarSerde (write quoteText firstSample) = .ok canonicalSample :=
    parse_write samples_proper.1 rfl (by decide) (by decide) (by decide) (by decide)
      (by decide)
  have hsecond : parse grammarSerde (write quoteText secondSample) = .ok canonicalSample :=
    parse_write samples_proper.2 rfl (by decide) (by decide) (by decide) (by decide)
      (by decide)
  have hmain := canonical_json_decides_equality grammarSerde_lawful
  exact ⟨hfirst, hsecond, (hmain.1 _ _ _ _ hfirst hsecond).mp rfl, (hmain.2 _ _ hfirst).2⟩

end Example

end CanonicalJson

end Pliego
