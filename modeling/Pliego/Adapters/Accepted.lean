import Pliego.Adapters.Checks
import Pliego.Lib.JsonCompact
import Pliego.Log.CanonicalValue

/-!
The island that the server emits against the checks of the runtime.
-/

namespace Pliego

open Bytes JsonText Text

theorem LoadTrigger.known (trigger : LoadTrigger)
    : AdapterRuntime.triggers.contains trigger.asStr = true ∧ trigger.asStr ≠ "" := by
  cases trigger <;> exact ⟨by decide, by decide⟩

theorem PerformanceTier.known (tier : PerformanceTier)
    : (AdapterRuntime.tierIndex tier.asStr).isSome = true ∧ tier.asStr ≠ "" := by
  cases tier <;> exact ⟨by decide, by decide⟩

theorem MotionPolicy.known (policy : MotionPolicy)
    : AdapterRuntime.motionPolicies.contains policy.asStr = true ∧ policy.asStr ≠ "" := by
  cases policy <;> exact ⟨by decide, by decide⟩

theorem DataPolicy.known (policy : DataPolicy)
    : AdapterRuntime.dataPolicies.contains policy.asStr = true ∧ policy.asStr ≠ "" := by
  cases policy <;> exact ⟨by decide, by decide⟩

theorem AdapterCapability.known (capability : AdapterCapability)
    : (AdapterRuntime.capabilityTier.lookup capability.asStr).isSome = true ∧ ',' ∉ capability.asStr.toList
      ∧ capability.asStr ≠ "" := by
  cases capability <;> exact ⟨by decide, by decide, by decide⟩

section ModulePath

variable {module : String}

-- A path that the builder takes, character by character.
structure ModulePath (module : String) : Prop where
  start : "/assets/".toList <+: module.toList
  stop : ".js".toList <:+ module.toList
  chars : ∀ c ∈ module.toList, c.isAlphanum = true ∨ c = '/' ∨ c = '-' ∨ c = '_' ∨ c = '.'
  parents : containsPair '.' '.' module.toList = false
  slashes : containsPair '/' '/' module.toList = false

theorem isModuleByte_char {c : Char} (h : isModuleByte (UInt8.ofNat c.toNat) = true) (hsmall : c.toNat < 128)
    : c.isAlphanum = true ∨ c = '/' ∨ c = '-' ∨ c = '_' ∨ c = '.' := by
  have htable : ∀ n < 128, isModuleByte (UInt8.ofNat n) = true →
      (Char.ofNat n).isAlphanum = true ∨ Char.ofNat n = '/' ∨ Char.ofNat n = '-' ∨ Char.ofNat n = '_'
        ∨ Char.ofNat n = '.' := by
    decide
  have hchar := htable c.toNat hsmall h
  rw [Char.ofNat_toNat] at hchar
  exact hchar

theorem validateModulePath_spec (h : validateModulePath module = .ok ()) : ModulePath module := by
  unfold validateModulePath at h
  split at h
  . cases h
  . next hshape =>
    simp only [Bool.or_eq_true, not_or, Bool.not_eq_true', Bool.not_eq_false, Bool.not_eq_true] at hshape
    obtain ⟨⟨⟨⟨⟨⟨⟨⟨hstart, -⟩, hparents⟩, -⟩, -⟩, hslashes⟩, hbytes⟩, -⟩, hstop⟩ := hshape
    constructor
    . exact List.isPrefixOf_iff_prefix.mp hstart
    . exact List.isSuffixOf_iff_suffix.mp hstop
    . intro c hc
      have hascii : ∀ byte, isModuleByte byte = true → byte.toNat < 128 := by decide +kernel
      obtain ⟨hsmall, hbyte⟩ := ascii_of_all hascii hbytes hc
      exact isModuleByte_char hbyte hsmall
    . exact hparents
    . exact hslashes

namespace ModulePath

section

variable (h : ModulePath module)

include h

theorem pathChars : module.toList.all AdapterRuntime.isPathChar = true := by
  rw [List.all_eq_true]
  intro c hc
  unfold AdapterRuntime.isPathChar
  rcases h.chars c hc with halpha | rfl | rfl | rfl | rfl
  . rw [halpha]
    rfl
  . rfl
  . rfl
  . rfl
  . rfl

theorem absent {c : Char} (hc : AdapterRuntime.isPathChar c = false)
    : contains module c = false := by
  unfold contains
  rw [List.contains_eq_mem, decide_eq_false_iff_not]
  intro hmem
  rw [List.all_eq_true.mp h.pathChars c hmem] at hc
  cases hc

theorem uncontrolled
    : module.toList.any (fun c => c.toNat ≤ 0x1f || c.toNat = 0x7f) = false := by
  rw [List.any_eq_false]
  intro c hc hcontrol
  have hpath := List.all_eq_true.mp h.pathChars c hc
  have htable : ∀ n < 128, (n ≤ 0x1f ∨ n = 0x7f) → AdapterRuntime.isPathChar (Char.ofNat n) = false := by decide
  simp only [Bool.or_eq_true, decide_eq_true_eq] at hcontrol
  have hother := htable c.toNat (by omega) hcontrol
  rw [Char.ofNat_toNat, hpath] at hother
  cases hother

theorem pattern_iff
    : AdapterRuntime.matchesModulePattern module.toList = true ↔ module ≠ "/assets/.js" := by
  obtain ⟨rest, hrest⟩ := h.start
  have hbody : ((module.toList.drop 8).dropLast.dropLast.dropLast).all AdapterRuntime.isPathChar = true := by
    rw [List.all_eq_true]
    intro c hc
    apply List.all_eq_true.mp h.pathChars
    exact List.mem_of_mem_drop
      (List.mem_of_mem_dropLast (List.mem_of_mem_dropLast (List.mem_of_mem_dropLast hc)))
  unfold AdapterRuntime.matchesModulePattern
  rw [List.isPrefixOf_iff_prefix.mpr h.start, List.isSuffixOf_iff_suffix.mpr h.stop, hbody]
  simp only [Bool.true_and, Bool.and_true, decide_eq_true_eq]
  have hlong : 8 ≤ module.toList.length := h.start.length_le
  constructor
  . intro hlength hsame
    rw [hsame] at hlength
    exact absurd hlength (by decide)
  . intro hne
    by_contra hshort
    have hlast : rest.length ≤ 3 := by
      rw [← hrest, List.length_append] at hshort
      have hfirst : "/assets/".toList.length = 8 := by decide
      omega
    have hsuffix : rest <:+ ".js".toList := by
      apply List.suffix_of_suffix_length_le (List.suffix_append "/assets/".toList rest)
      . rw [hrest]
        exact h.stop
      . exact hlast
    have hstop := h.stop
    rw [← hrest] at hstop
    have htails : rest ∈ ".js".toList.tails := (List.mem_tails _ _).mpr hsuffix
    have hother : ∀ tail ∈ ".js".toList.tails, tail ≠ ".js".toList →
        ¬ ".js".toList <:+ "/assets/".toList ++ tail := by
      decide
    by_cases hsame : rest = ".js".toList
    . apply hne
      apply String.toList_injective
      rw [← hrest, hsame]
      decide
    . exact hother rest htails hsame hstop

theorem absolute : (split '/' module).head? = some "" := by
  obtain ⟨rest, hrest⟩ := h.start
  unfold split
  have hslash : "/assets/".toList = '/' :: "assets/".toList := by decide
  rw [← hrest, hslash, List.cons_append, List.splitOn_cons_eq_if_modifyHead, if_pos (by decide)]
  rfl

theorem noParents : ".." ∉ split '/' module := by
  intro hmem
  have hpair := UrlPath.containsPair_of_infix (a := '.') (b := '.') (UrlPath.infix_of_mem_split hmem)
  rw [h.parents] at hpair
  cases hpair

end

end ModulePath

end ModulePath

namespace AdapterRuntime

section Paths

variable {Json : Type} {browser : Browser Json} {page : Page} {module : String}

theorem safeModulePath_iff (hmodule : ModulePath module) (hurl : ResolvesPaths browser page)
    (hprotocol : page.location.protocol = "http:" ∨ page.location.protocol = "https:")
    : safeModulePath browser page (some module) = some module
      ↔ module ≠ "/assets/.js" ∧ "." ∉ split '/' module := by
  have hresolve : UrlPath.resolve module = module ↔ "." ∉ (split '/' module).tail := by
    apply UrlPath.resolve_eq_iff hmodule.absolute
    exact fun hmem => hmodule.noParents (List.mem_of_mem_tail hmem)
  have hself : "." ∈ (split '/' module).tail ↔ "." ∈ split '/' module := by
    have habsolute := hmodule.absolute
    cases hsplit : split '/' module with
    | nil => exact Iff.rfl
    | cons first rest =>
      rw [hsplit, List.head?_cons, Option.some.injEq] at habsolute
      rw [List.tail_cons, List.mem_cons, habsolute]
      simp
  have hbrowser := hurl module hmodule.absolute hmodule.slashes hmodule.pathChars
  have hprotocols : (page.location.protocol = "http:" || page.location.protocol = "https:") = true := by
    simpa using hprotocol
  unfold safeModulePath
  simp only [List.isPrefixOf_iff_prefix.mpr hmodule.start, hmodule.slashes, hmodule.parents,
    hmodule.absent (c := '\\') (by decide), hmodule.absent (c := '%') (by decide),
    hmodule.absent (c := '?') (by decide), hmodule.absent (c := '#') (by decide), hmodule.uncontrolled,
    Bool.not_true, Bool.false_or, Bool.or_false, Bool.not_eq_true', hbrowser]
  rw [← hmodule.pattern_iff, ← hself, ← hresolve]
  split
  . next hpattern =>
    apply iff_of_false
    . intro h
      cases h
    . intro h
      rw [h.1] at hpattern
      cases hpattern
  . next hpattern =>
    rw [Bool.not_eq_false] at hpattern
    simp only [hprotocols, Bool.not_true, Bool.false_or, ne_eq, not_true_eq_false, decide_false,
      decide_eq_true_eq, hpattern, true_and]
    split
    . next hother =>
      apply iff_of_false
      . intro h
        cases h
      . exact hother
    . next hsame =>
      rw [not_not] at hsame
      rw [hsame]
      exact iff_of_true rfl rfl

end Paths

section Attributes

variable {View Json : Type} {browser : Browser Json} {page : Page} {island : AdapterIsland View}
variable {serialize : SortedMap String PropValue → Except String String} {fragment : List View → View}
variable {element : Element View} {props : String}

theorem utf8Length_eq (value : String) : utf8Length value = (utf8 value).length := by
  conv_rhs => rw [← String.ofList_toList (s := value), utf8_ofList, List.length_flatMap]
  unfold utf8Length
  congr 1
  apply List.map_congr_left
  intro c _
  rw [String.length_utf8EncodeChar]
  rfl

def capabilityNames (island : AdapterIsland View) : List String :=
  island.policy.capabilities.keys.map AdapterCapability.asStr

structure Describes (root : Root) (island : AdapterIsland View) (props : String) : Prop where
  api : root.dataset "pliegoApi" = some (toString adapterApiVersion)
  tier : root.dataset "pliegoTier" = none
  module : root.dataset "pliegoModule" = some island.module
  trigger : root.dataset "pliegoTrigger" = some island.trigger.asStr
  minTier : root.dataset "pliegoMinTier" = some island.policy.minTier.asStr
  motion : root.dataset "pliegoMotion" = some island.policy.motion.asStr
  data : root.dataset "pliegoData" = some island.policy.data.asStr
  props : root.dataset "pliegoProps" = some props
  capabilities : orDefault (root.dataset "pliegoCapabilities") "" = join ',' (capabilityNames island)

theorem datasetAttributes
    : datasetAttribute "pliegoApi" = "data-pliego-api" ∧ datasetAttribute "pliegoTier" = "data-pliego-tier"
      ∧ datasetAttribute "pliegoModule" = "data-pliego-module"
      ∧ datasetAttribute "pliegoTrigger" = "data-pliego-trigger"
      ∧ datasetAttribute "pliegoMinTier" = "data-pliego-min-tier"
      ∧ datasetAttribute "pliegoMotion" = "data-pliego-motion" ∧ datasetAttribute "pliegoData" = "data-pliego-data"
      ∧ datasetAttribute "pliegoProps" = "data-pliego-props"
      ∧ datasetAttribute "pliegoCapabilities" = "data-pliego-capabilities" := by
  decide

theorem intoView_describes (h : island.intoView serialize fragment = .ok element)
    : ∃ props, serialize island.props = .ok props ∧ (utf8 props).length ≤ maxPropsBytes
      ∧ Describes ⟨element.attrs⟩ island props := by
  unfold AdapterIsland.intoView at h
  cases hprops : serialize island.props with
  | error source =>
    rw [hprops] at h
    cases h
  | ok props =>
    rw [hprops] at h
    dsimp only at h
    split at h
    . cases h
    . next hsize =>
      rw [not_lt] at hsize
      refine ⟨props, rfl, hsize, ?_⟩
      cases h
      obtain ⟨hapi, hown, hmodule, htrigger, htier, hmotion, hdata, hprops, hcapabilities⟩ := datasetAttributes
      split
      . next hempty =>
        constructor <;>
          simp [Root.dataset, orDefault, hapi, hown, hmodule, htrigger, htier, hmotion, hdata, hprops,
            hcapabilities, List.lookup, capabilityNames, hempty]
      . next hnonempty =>
        constructor <;>
          simp [Root.dataset, Element.attr, orDefault, hapi, hown, hmodule, htrigger, htier, hmotion, hdata,
            hprops, hcapabilities, List.lookup, capabilityNames, hnonempty]

-- What `serde_json` writes for a map is a document of it, and `JSON.parse` reads the documents of objects.
def WritesObjects (serialize : SortedMap String PropValue → Except String String) : Prop :=
  ∀ props text, serialize props = .ok text →
    Reads (utf8 text) (.object (props.entries.map fun entry => (entry.1, entry.2.value)))

def ParsesObjects (browser : Browser Json) : Prop :=
  ∀ text members, Reads (utf8 text) (.object members) →
    ∃ value, browser.jsonParse text = some value ∧ browser.isObject value = true

theorem Reads.ne_empty {text : String} {members : List (String × Value)} (h : Reads (utf8 text) (.object members))
    : text ≠ "" := by
  intro hempty
  obtain ⟨chars, hraw, hlexed⟩ := h
  rw [hempty] at hraw
  have hchars : chars = [] := String.ofList_injective (utf8_inj hraw).symm
  have hnone : ∀ tokens, Lexed [] tokens → tokens = [] := by
    intro tokens hnil
    generalize hxs : ([] : List Char) = xs at hnil
    cases hnil with
    | nil => rfl
    | blank => cases hxs
    | token first _ _ =>
      obtain ⟨c, rest, hfirst, -⟩ := first.start
      rw [hfirst] at hxs
      cases hxs
  rw [hchars, Value.tokens] at hlexed
  cases hnone _ hlexed

theorem orDefault_some {value fallback : String} (h : value ≠ "") : orDefault (some value) fallback = value := by
  unfold orDefault
  exact if_neg h

theorem parseCapabilities_ok {root : Root} (h : Describes root island props)
    : parseCapabilities root = .ok (capabilityNames island) := by
  have hcommas : ∀ name ∈ capabilityNames island, ',' ∉ name.toList ∧ name ≠ "" := by
    intro name hname
    obtain ⟨capability, -, rfl⟩ := List.mem_map.mp hname
    exact ⟨capability.known.2.1, capability.known.2.2⟩
  have hnames : (if join ',' (capabilityNames island) = "" then [] else split ',' (join ',' (capabilityNames island)))
      = capabilityNames island := by
    cases hlist : capabilityNames island with
    | nil => exact if_pos rfl
    | cons first rest =>
      rw [hlist] at hcommas
      have hsplit : split ',' (join ',' (first :: rest)) = first :: rest :=
        split_join (fun part hpart => (hcommas part hpart).1) (List.cons_ne_nil _ _)
      rw [hsplit]
      apply if_neg
      intro hempty
      rw [hempty] at hsplit
      have hfirst : split ',' "" = [""] := by decide
      rw [hfirst] at hsplit
      cases hsplit
      exact (hcommas "" List.mem_cons_self).2 rfl
  unfold parseCapabilities
  dsimp only
  rw [h.capabilities, hnames, List.find?_eq_none.mpr]
  intro name hname
  obtain ⟨capability, -, rfl⟩ := List.mem_map.mp hname
  rw [Bool.not_eq_true, Option.isNone_eq_false_iff]
  exact capability.known.1

theorem parseProps_ok {root : Root} (h : Describes root island props) (hsize : (utf8 props).length ≤ maxPropsBytes)
    (hserialize : WritesObjects serialize) (hparse : ParsesObjects browser)
    (hprops : serialize island.props = .ok props)
    : ∃ value, parseProps browser root = .ok value := by
  have hreads := hserialize island.props props hprops
  obtain ⟨value, hvalue, hobject⟩ := hparse props _ hreads
  refine ⟨value, ?_⟩
  unfold maxPropsBytes at hsize
  unfold parseProps
  dsimp only
  rw [h.props, orDefault_some (Reads.ne_empty hreads), utf8Length_eq, if_neg (not_lt.mpr hsize), hvalue]
  dsimp only
  rw [if_pos hobject]

theorem policyFor_ok {root : Root} (h : Describes root island props)
    (htier : (tierIndex (orDefault page.pliegoTier "balanced")).isSome = true)
    : ∃ decision, policyFor page root = .ok decision := by
  obtain ⟨available, havailable⟩ := Option.isSome_iff_exists.mp htier
  obtain ⟨minimum, hminimum⟩ := Option.isSome_iff_exists.mp island.policy.minTier.known.1
  unfold policyFor
  rw [parseCapabilities_ok h]
  dsimp only
  have hpage : pageTier page root = orDefault page.pliegoTier "balanced" := by
    unfold pageTier
    rw [h.tier]
    rfl
  rw [hpage, havailable, h.minTier, orDefault_some island.policy.minTier.known.2, hminimum, h.data,
    orDefault_some island.policy.data.known.2, h.motion, orDefault_some island.policy.motion.known.2]
  dsimp only
  rw [island.policy.data.known.1, island.policy.motion.known.1]
  simp only [Bool.not_true, Bool.or_self, Bool.false_eq_true, if_false]
  split
  . exact ⟨_, rfl⟩
  . split
    . exact ⟨_, rfl⟩
    . split
      . exact ⟨_, rfl⟩
      . exact ⟨_, rfl⟩

theorem scheduleTrigger_ok {root : Root} (h : Describes root island props)
    : scheduleTrigger root = .ok island.trigger.asStr := by
  unfold scheduleTrigger
  dsimp only
  rw [h.trigger, orDefault_some island.trigger.known.2, if_pos island.trigger.known.1]

-- The checks of the runtime, one by one and in their order up to the import. The tier of the page is the page's
-- own attribute.
structure Accepted (browser : Browser Json) (page : Page) (root : Root) (module : String) : Prop where
  api : orDefault (root.dataset "pliegoApi") (toString adapterApiVersion) = toString adapterApiVersion
  modulePath : safeModulePath browser page (root.dataset "pliegoModule") = some module
  props : ∃ value, parseProps browser root = .ok value
  capabilities : ∃ names, parseCapabilities root = .ok names
  minTier : (tierIndex (orDefault (root.dataset "pliegoMinTier") "universal")).isSome = true
  motion : motionPolicies.contains (orDefault (root.dataset "pliegoMotion") "auto") = true
  data : dataPolicies.contains (orDefault (root.dataset "pliegoData") "auto") = true
  trigger : ∃ trigger, scheduleTrigger root = .ok trigger
  verdict : (tierIndex (orDefault page.pliegoTier "balanced")).isSome = true →
    ∀ importEpoch, ∃ verdict, mountVerdict browser page importEpoch root = .ok verdict

theorem Describes.accepted {root : Root} (h : Describes root island props)
    (hsize : (utf8 props).length ≤ maxPropsBytes) (hserialize : WritesObjects serialize)
    (hparse : ParsesObjects browser) (hprops : serialize island.props = .ok props)
    (hpath : safeModulePath browser page (some island.module) = some island.module)
    : Accepted browser page root island.module := by
  have hapi : orDefault (root.dataset "pliegoApi") (toString adapterApiVersion) = toString adapterApiVersion := by
    rw [h.api]
    exact orDefault_some (by decide)
  have hsafe : safeModulePath browser page (root.dataset "pliegoModule") = some island.module := by
    rw [h.module]
    exact hpath
  obtain ⟨value, hvalue⟩ := @parseProps_ok View Json browser island serialize props root h hsize hserialize hparse hprops
  constructor
  . exact hapi
  . exact hsafe
  . exact ⟨value, hvalue⟩
  . exact ⟨_, parseCapabilities_ok h⟩
  . rw [h.minTier, orDefault_some island.policy.minTier.known.2]
    exact island.policy.minTier.known.1
  . rw [h.motion, orDefault_some island.policy.motion.known.2]
    exact island.policy.motion.known.1
  . rw [h.data, orDefault_some island.policy.data.known.2]
    exact island.policy.data.known.1
  . exact ⟨_, scheduleTrigger_ok h⟩
  . intro htier importEpoch
    obtain ⟨decision, hdecision⟩ := policyFor_ok h htier
    unfold mountVerdict
    dsimp only
    rw [hapi, hsafe, hdecision, hvalue]
    simp only [ne_eq, not_true_eq_false, if_false]
    split
    . exact ⟨_, rfl⟩
    . exact ⟨_, rfl⟩

theorem island_accepted_iff (hurl : ResolvesPaths browser page)
    (hprotocol : page.location.protocol = "http:" ∨ page.location.protocol = "https:")
    (hserialize : WritesObjects serialize) (hparse : ParsesObjects browser)
    (h : island.intoView serialize fragment = .ok element)
    : (Accepted browser page ⟨element.attrs⟩ island.module
        ↔ island.module ≠ "/assets/.js" ∧ "." ∉ split '/' island.module)
      ∧ ∀ value path, safeModulePath browser page value = some path →
        value = some path ∧ "/assets/".toList <+: path.toList ∧ ".." ∉ split '/' path
        ∧ ∃ url, browser.newUrl path page.location.href = some url ∧ url.origin = page.location.origin
          ∧ url.pathname = path := by
  obtain ⟨props, hprops, hsize, hdescribes⟩ := intoView_describes h
  have hpath := safeModulePath_iff (validateModulePath_spec island.moduleValid) hurl hprotocol
  constructor
  . rw [← hpath]
    constructor
    . intro haccepted
      have hmodule := haccepted.modulePath
      rw [hdescribes.module] at hmodule
      exact hmodule
    . exact fun hmodule => hdescribes.accepted hsize hserialize hparse hprops hmodule
  . intro value path haccepted
    obtain ⟨hvalue, hstart, hdots, url, hbrowser, -, horigin, hsame⟩ := safeModulePath_assets haccepted
    refine ⟨hvalue, hstart, ?_, url, hbrowser, horigin, hsame⟩
    intro hmem
    have hpair := UrlPath.containsPair_of_infix (a := '.') (b := '.') (UrlPath.infix_of_mem_split hmem)
    rw [hdots] at hpair
    cases hpair

end Attributes

section Example

noncomputable def sampleBrowser : Browser Unit where
  newUrl value _ :=
    if (split '/' value).head? = some "" ∧ containsPair '/' '/' value.toList = false
        ∧ value.toList.all isPathChar = true then
      some ⟨"https:", "https://site.test", UrlPath.resolve value⟩
    else
      none
  jsonParse text := by
    classical
    exact if ∃ members, Reads (utf8 text) (.object members) then some () else none
  isObject _ := true

def samplePage : Page where
  location := ⟨"https://site.test/home", "https:", "https://site.test"⟩
  pliegoTier := none
  pliegoMotion := none
  saveData := false
  reducedMotion := false

def membersOf (props : SortedMap String PropValue) : Value :=
  .object (props.entries.map fun entry => (entry.1, entry.2.value))

def sampleSerialize (props : SortedMap String PropValue) : Except String String :=
  .ok (String.ofList (compact CanonicalJson.escapeChar (membersOf props)))

theorem sampleSerialize_writes : WritesObjects sampleSerialize := by
  intro props text h
  cases h
  apply reads_compact CanonicalJson.spelling_escapeChar
  rw [Value.every_iff]
  constructor
  . intro lexeme hnumber
    cases hnumber
  . intro child hchild
    unfold membersOf at hchild
    rw [Value.children, List.map_map] at hchild
    obtain ⟨entry, -, rfl⟩ := List.mem_map.mp hchild
    exact entry.2.proper

theorem sampleBrowser_parses : ParsesObjects sampleBrowser := by
  intro text members h
  refine ⟨(), ?_, rfl⟩
  unfold sampleBrowser
  dsimp only
  exact if_pos ⟨members, h⟩

theorem sampleBrowser_resolves : ResolvesPaths sampleBrowser samplePage := by
  intro value hstart hslashes hchars
  unfold sampleBrowser
  exact if_pos ⟨hstart, hslashes, hchars⟩

theorem new_ok {id module : String} (hid : validateId id = .ok ()) (hmodule : validateModulePath module = .ok ())
    : ∃ island : AdapterIsland Unit, AdapterIsland.new id module = .ok island ∧ island.module = module
      ∧ island.props = .empty := by
  unfold AdapterIsland.new
  split
  . next error herror =>
    rw [hid] at herror
    cases herror
  . split
    . next error herror =>
      rw [hmodule] at herror
      cases herror
    . exact ⟨_, rfl, rfl, rfl⟩

theorem prop_ok {island : AdapterIsland Unit} {key : String} (hkey : validateId key = .ok ()) (value : PropValue)
    : ∃ later, island.prop key value = .ok later ∧ later.module = island.module
      ∧ later.props = island.props.insert key value := by
  unfold AdapterIsland.prop
  split
  . next error herror =>
    rw [hkey] at herror
    cases herror
  . exact ⟨_, rfl, rfl, rfl⟩

theorem intoView_ok (island : AdapterIsland Unit) {text : String} (hprops : sampleSerialize island.props = .ok text)
    (hsize : (utf8 text).length ≤ maxPropsBytes)
    : ∃ element, island.intoView sampleSerialize (fun _ => ()) = .ok element := by
  unfold AdapterIsland.intoView
  rw [hprops]
  dsimp only
  rw [if_neg (not_lt.mpr hsize)]
  exact ⟨_, rfl⟩

def titleValue : PropValue where
  value := .text "<dawn>"
  proper := by
    rw [Value.every_iff]
    exact ⟨fun _ hnumber => (by cases hnumber), fun _ hchild => (by cases hchild)⟩
  unique := by
    rw [Value.every_iff]
    exact ⟨fun _ hobject => (by cases hobject), fun _ hchild => (by cases hchild)⟩

theorem sampleSerialize_title
    : sampleSerialize (SortedMap.empty.insert "title" titleValue) = .ok "\x7b\"title\":\"<dawn>\"\x7d" := by
  decide +kernel

theorem island_accepted_iff_scene
    : ∃ island titled element, AdapterIsland.new "scene" "/assets/scene.js" = .ok island
      ∧ (island.capability .webGl).prop "title" titleValue = .ok titled
      ∧ titled.intoView sampleSerialize (fun _ => ()) = .ok element
      ∧ Accepted sampleBrowser samplePage ⟨element.attrs⟩ "/assets/scene.js" := by
  obtain ⟨island, hnew, hmodule, hprops⟩ := @new_ok "scene" "/assets/scene.js" rfl rfl
  obtain ⟨titled, hprop, hsame, hinsert⟩ := @prop_ok (island.capability .webGl) "title" rfl titleValue
  have hwritten : sampleSerialize titled.props = .ok "\x7b\"title\":\"<dawn>\"\x7d" := by
    have hempty : (island.capability .webGl).props = .empty := hprops
    rw [hinsert, hempty]
    exact sampleSerialize_title
  obtain ⟨element, helement⟩ := intoView_ok titled hwritten (by decide)
  have hiff := (island_accepted_iff sampleBrowser_resolves (.inr rfl) sampleSerialize_writes sampleBrowser_parses
    helement).1
  have htitled : titled.module = "/assets/scene.js" := hsame.trans hmodule
  rw [htitled] at hiff
  exact ⟨island, titled, element, hnew, hprop, helement, hiff.mpr ⟨by decide, by decide⟩⟩

-- The builder takes a file that is nothing but its extension, and no page imports it.
theorem stemless_module_rejected
    : ∃ island element, AdapterIsland.new "scene" "/assets/.js" = .ok island
      ∧ island.intoView sampleSerialize (fun _ => ()) = .ok element
      ∧ ∀ (Json : Type) (browser : Browser Json) (page : Page),
        safeModulePath browser page (Root.dataset ⟨element.attrs⟩ "pliegoModule") = none
        ∧ ¬ Accepted browser page ⟨element.attrs⟩ "/assets/.js" := by
  obtain ⟨island, hnew, hmodule, hprops⟩ := @new_ok "scene" "/assets/.js" rfl rfl
  have hwritten : sampleSerialize island.props = .ok "\x7b\x7d" := by
    rw [hprops]
    rfl
  obtain ⟨element, helement⟩ := intoView_ok island hwritten (by decide)
  refine ⟨island, element, hnew, helement, ?_⟩
  intro Json browser page
  obtain ⟨props, -, -, hdescribes⟩ := intoView_describes helement
  have hnone : safeModulePath browser page (Root.dataset ⟨element.attrs⟩ "pliegoModule") = none := by
    rw [hdescribes.module, hmodule]
    unfold safeModulePath
    apply if_pos
    decide
  refine ⟨hnone, ?_⟩
  intro haccepted
  have hsome := haccepted.modulePath
  rw [hnone] at hsome
  cases hsome

end Example

end AdapterRuntime

end Pliego
