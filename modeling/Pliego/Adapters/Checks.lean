import Pliego.Adapters.Island
import Pliego.Lib.UrlPath

/-!
The checks that the browser runtime makes on the attributes of an island before it imports the module.
-/

namespace Pliego

open Bytes JsonText Text

namespace AdapterRuntime

def tiers : List String := ["universal", "lite", "balanced", "signature"]

def triggers : List String := ["immediate", "visible", "idle", "interaction"]

def motionPolicies : List String := ["auto", "full", "reduce", "skip"]

def dataPolicies : List String := ["auto", "allow", "skip"]

def capabilityTier : List (String × String) :=
  [("dom", "universal"), ("motion", "universal"), ("smooth-scroll", "lite"), ("audio", "lite"), ("video", "lite"),
    ("webgl", "balanced"), ("high-frequency-raf", "balanced"), ("webgpu", "signature")]

structure Location where
  href : String
  protocol : String
  origin : String

structure Url where
  protocol : String
  origin : String
  pathname : String

-- What the browser brings: `new URL`, `JSON.parse` and whether one of its values is an object, neither null nor
-- an array.
structure Browser (Json : Type) where
  newUrl : String → String → Option Url
  jsonParse : String → Option Json
  isObject : Json → Bool

-- The environment, with the dataset of the document element.
structure Page where
  location : Location
  pliegoTier : Option String
  pliegoMotion : Option String
  saveData : Bool
  reducedMotion : Bool

def datasetAttribute (property : String) : String :=
  "data-" ++ mapChars (fun c => if c.isUpper then ['-', c.toLower] else [c]) property

structure Root where
  attributes : List (String × String)

def Root.dataset (root : Root) (property : String) : Option String :=
  root.attributes.lookup (datasetAttribute property)

-- The operator `||` on an entry of a dataset.
def orDefault (value : Option String) (fallback : String) : String :=
  match value with
  | none => fallback
  | some value => if value = "" then fallback else value

def utf8Length (value : String) : Nat :=
  (value.toList.map fun character =>
    if character.toNat ≤ 0x7f then 1
    else if character.toNat ≤ 0x7ff then 2
    else if character.toNat ≤ 0xffff then 3
    else 4).sum

def isPathChar (c : Char) : Bool := c.isAlphanum || c == '/' || c == '_' || c == '-' || c == '.'

-- The pattern of a module path: the directory, at least one character of the class and the extension.
def matchesModulePattern (value : List Char) : Bool :=
  "/assets/".toList.isPrefixOf value && ".js".toList.isSuffixOf value
    && 8 + 3 < value.length && ((value.drop 8).dropLast.dropLast.dropLast).all isPathChar

def safeModulePath {Json : Type} (browser : Browser Json) (page : Page) (value : Option String) : Option String :=
  match value with
  | none => none
  | some value =>
    if !"/assets/".toList.isPrefixOf value.toList
        || !matchesModulePattern value.toList
        || containsPair '/' '/' value.toList
        || containsPair '.' '.' value.toList
        || contains value '\\'
        || contains value '%'
        || contains value '?'
        || contains value '#'
        || value.toList.any (fun c => c.toNat ≤ 0x1f || c.toNat = 0x7f) then
      none
    else
      match browser.newUrl value page.location.href with
      | none => none
      | some url =>
        if !(url.protocol = "http:" || url.protocol = "https:")
            || url.origin ≠ page.location.origin
            || url.pathname ≠ value then
          none
        else
          some url.pathname

def parseProps {Json : Type} (browser : Browser Json) (root : Root) : Except String Json :=
  let source := orDefault (root.dataset "pliegoProps") "\x7b\x7d"
  if 32768 < utf8Length source then
    .error "adapter props exceed 32768 bytes"
  else
    match browser.jsonParse source with
    | none => .error "SyntaxError"
    | some value => if browser.isObject value then .ok value else .error "adapter props must be a JSON object"

def parseCapabilities (root : Root) : Except String (List String) :=
  let source := orDefault (root.dataset "pliegoCapabilities") ""
  let capabilities := if source = "" then [] else split ',' source
  match capabilities.find? (fun capability => (capabilityTier.lookup capability).isNone) with
  | some capability => .error ("unknown adapter capability: " ++ capability)
  | none => .ok capabilities

def tierIndex (value : String) : Option Nat := tiers.idxOf? value

structure PolicyDecision where
  allowed : Bool
  reason : Option String
  tier : String
  motion : String
  saveData : Bool
  capabilities : List String

def pageTier (page : Page) (root : Root) : String :=
  orDefault (root.dataset "pliegoTier") (orDefault page.pliegoTier "balanced")

-- The tier that a list of capabilities asks for; an unknown tier would count as -1.
def requiredTier (minimum : Nat) (capabilities : List String) : Nat :=
  capabilities.foldl
    (fun required capability => max required ((capabilityTier.lookup capability).bind tierIndex |>.getD 0)) minimum

def policyFor (page : Page) (root : Root) : Except String PolicyDecision :=
  match parseCapabilities root with
  | .error error => .error error
  | .ok capabilities =>
    let tier := pageTier page root
    let minimum := orDefault (root.dataset "pliegoMinTier") "universal"
    match tierIndex tier, tierIndex minimum with
    | some available, some minimum =>
      let required := requiredTier minimum capabilities
      let dataPolicy := orDefault (root.dataset "pliegoData") "auto"
      let motionPolicy := orDefault (root.dataset "pliegoMotion") "auto"
      if !dataPolicies.contains dataPolicy || !motionPolicies.contains motionPolicy then
        .error "adapter motion or data policy is invalid"
      else
        let prefersReduced := page.pliegoMotion == some "reduced" || page.reducedMotion
        let motion :=
          if motionPolicy = "full" then "full"
          else if motionPolicy = "reduce" || prefersReduced then "reduced"
          else "full"
        let decision : PolicyDecision :=
          { allowed := true, reason := none, tier, motion, saveData := page.saveData, capabilities }
        if available < required then
          .ok { decision with allowed := false, reason := some "tier" }
        else if page.saveData && dataPolicy = "skip" then
          .ok { decision with allowed := false, reason := some "save-data" }
        else if motionPolicy = "skip" && prefersReduced then
          .ok { decision with allowed := false, reason := some "reduced-motion", motion := "reduced" }
        else
          .ok decision
    | _, _ => .error "adapter tier is invalid"

inductive MountVerdict (Json : Type) where
  | skipped (reason : Option String)
  | importing (specifier : String) (policy : PolicyDecision) (props : Json)

-- What `mountInternal` does up to the import; an error is what it reports.
def mountVerdict {Json : Type} (browser : Browser Json) (page : Page) (importEpoch : Nat) (root : Root)
    : Except String (MountVerdict Json) :=
  let api := orDefault (root.dataset "pliegoApi") (toString adapterApiVersion)
  if api ≠ toString adapterApiVersion then
    .error ("island API " ++ api ++ " is incompatible with runtime API " ++ toString adapterApiVersion)
  else
    match safeModulePath browser page (root.dataset "pliegoModule") with
    | none => .error "adapter module path is not a safe same-origin /assets/ URL"
    | some modulePath =>
      match policyFor page root with
      | .error error => .error error
      | .ok policy =>
        if !policy.allowed then
          .ok (.skipped policy.reason)
        else
          match parseProps browser root with
          | .error error => .error error
          | .ok props =>
            let specifier :=
              if importEpoch = 0 then modulePath else modulePath ++ "?pliego-hmr=" ++ toString importEpoch
            .ok (.importing specifier policy props)

def scheduleTrigger (root : Root) : Except String String :=
  let trigger := orDefault (root.dataset "pliegoTrigger") "visible"
  if triggers.contains trigger then .ok trigger else .error ("unknown adapter trigger: " ++ trigger)

section Url

variable {Json : Type} {browser : Browser Json} {page : Page} {module path : String}

-- The standard on an absolute path of plain characters: the scheme and the origin of the base and the path with
-- its dot segments resolved.
def ResolvesPaths (browser : Browser Json) (page : Page) : Prop :=
  ∀ value : String, (split '/' value).head? = some "" → containsPair '/' '/' value.toList = false →
    value.toList.all isPathChar = true →
    browser.newUrl value page.location.href
      = some ⟨page.location.protocol, page.location.origin, UrlPath.resolve value⟩

theorem safeModulePath_assets {value : Option String} (h : safeModulePath browser page value = some path)
    : value = some path ∧ "/assets/".toList <+: path.toList ∧ containsPair '.' '.' path.toList = false
      ∧ ∃ url, browser.newUrl path page.location.href = some url
        ∧ (url.protocol = "http:" ∨ url.protocol = "https:") ∧ url.origin = page.location.origin
        ∧ url.pathname = path := by
  unfold safeModulePath at h
  cases value with
  | none => cases h
  | some value =>
    dsimp only at h
    split at h
    . cases h
    . next hshape =>
      cases hurl : browser.newUrl value page.location.href with
      | none =>
        rw [hurl] at h
        cases h
      | some url =>
        rw [hurl] at h
        dsimp only at h
        split at h
        . cases h
        . next hsame =>
          cases h
          simp only [Bool.or_eq_true, not_or, Bool.not_eq_true', Bool.not_eq_false, decide_eq_true_eq, ne_eq, not_not,
            Bool.not_eq_true] at hshape hsame
          obtain ⟨⟨⟨⟨⟨⟨⟨⟨hstart, -⟩, -⟩, hdots⟩, -⟩, -⟩, -⟩, -⟩, -⟩ := hshape
          obtain ⟨⟨hprotocol, horigin⟩, hpath⟩ := hsame
          rw [hpath]
          exact ⟨rfl, List.isPrefixOf_iff_prefix.mp hstart, hdots, url, hurl, hprotocol, horigin, hpath⟩

end Url

end AdapterRuntime

end Pliego
