import Mathlib.Data.String.Basic
import Pliego.Lib.SortedMap
import Pliego.Lib.Text

/-!
The asset manifest of `pliego-inspect`, what it is checked for by itself, and the sums that its report states.
-/

namespace Pliego

namespace Inspect

open Bytes

def manifestVersion : String := "1.0.0"

structure Issue where
  code : String
  message : String
  deriving DecidableEq

inductive WorkKind where
  | house
  | pliego
  deriving DecidableEq

structure Work where
  kind : WorkKind
  id : String
  slug : String
  signatura : Option String

structure Exclusion where
  path : String
  reason : String

structure Coverage where
  trackedExtensions : List String
  excluded : List Exclusion

inductive Tier where
  | universal
  | lite
  | balanced
  | signature
  deriving DecidableEq

def Tier.all : List Tier := [.universal, .lite, .balanced, .signature]

def Tier.asStr (tier : Tier) : String :=
  match tier with
  | .universal => "universal"
  | .lite => "lite"
  | .balanced => "balanced"
  | .signature => "signature"

inductive Delivery where
  | initial
  | deferred
  | onDemand
  | download
  deriving DecidableEq

def Delivery.asStr (delivery : Delivery) : String :=
  match delivery with
  | .initial => "initial"
  | .deferred => "deferred"
  | .onDemand => "on-demand"
  | .download => "download"

structure Geometry where
  triangles : UInt64
  drawCalls : UInt64

structure Variant where
  id : String
  path : String
  sha256 : String
  bytes : UInt64
  tiers : List Tier
  delivery : Delivery
  estimatedVramBytes : Option UInt64
  geometry : Option Geometry
  fallbackFor : List String

structure Asset where
  id : String
  variants : List Variant

inductive BudgetPhase where
  | initial
  | deferred
  | onDemand
  deriving DecidableEq

def BudgetPhase.asStr (phase : BudgetPhase) : String :=
  match phase with
  | .initial => "initial"
  | .deferred => "deferred"
  | .onDemand => "on-demand"

def BudgetPhase.matchesDelivery (phase : BudgetPhase) (delivery : Delivery) : Bool :=
  match phase, delivery with
  | .initial, .initial | .deferred, .deferred | .onDemand, .onDemand => true
  | _, _ => false

structure AssetLimits where
  maxTransferBytes : Option UInt64
  maxEstimatedVramBytes : Option UInt64
  maxTriangles : Option UInt64
  maxDrawCalls : Option UInt64

structure BudgetScope where
  id : String
  label : String
  route : String
  tier : Tier
  phase : BudgetPhase
  variants : List String
  limits : AssetLimits

structure AssetManifest where
  manifestVersion : String
  work : Work
  coverage : Coverage
  assets : List Asset
  budgetScopes : List BudgetScope

-- What is summed, for a tier as for a budget.
structure Totals where
  transferBytes : UInt64
  estimatedVramBytes : UInt64
  triangles : UInt64
  drawCalls : UInt64
  deriving DecidableEq

structure TierTotals extends Totals where
  variants : Nat
  deriving DecidableEq

structure BudgetResult extends Totals where
  id : String
  label : String
  route : String
  tier : Tier
  phase : BudgetPhase
  variantCount : Nat
  limits : AssetLimits
  passed : Bool

inductive IntegrityMode where
  | metadata
  | files
  deriving DecidableEq

structure InspectionReport where
  manifestVersion : String
  work : Work
  integrityMode : IntegrityMode
  valid : Bool
  budgetsPass : Bool
  assetCount : Nat
  variantCount : Nat
  totalBytes : UInt64
  tierTotals : Tier → TierTotals
  budgetResults : List BudgetResult
  issues : List Issue

def saturatingAdd (a b : UInt64) : UInt64 := if a.toNat + b.toNat < 2 ^ 64 then a + b else .ofNat (2 ^ 64 - 1)

def withinLimit (value : UInt64) (limit : Option UInt64) : Bool :=
  match limit with
  | none => true
  | some maximum => value ≤ maximum

namespace Totals

def zero : Totals := ⟨0, 0, 0, 0⟩

def add (totals : Totals) (variant : Variant) : Totals where
  transferBytes := saturatingAdd totals.transferBytes variant.bytes
  estimatedVramBytes := saturatingAdd totals.estimatedVramBytes (variant.estimatedVramBytes.getD 0)
  triangles :=
    match variant.geometry with
    | some geometry => saturatingAdd totals.triangles geometry.triangles
    | none => totals.triangles
  drawCalls :=
    match variant.geometry with
    | some geometry => saturatingAdd totals.drawCalls geometry.drawCalls
    | none => totals.drawCalls

def within (totals : Totals) (limits : AssetLimits) : Bool :=
  withinLimit totals.transferBytes limits.maxTransferBytes
    && withinLimit totals.estimatedVramBytes limits.maxEstimatedVramBytes
    && withinLimit totals.triangles limits.maxTriangles && withinLimit totals.drawCalls limits.maxDrawCalls

end Totals

def AssetLimits.isEmpty (limits : AssetLimits) : Bool :=
  limits.maxTransferBytes.isNone && limits.maxEstimatedVramBytes.isNone && limits.maxTriangles.isNone
    && limits.maxDrawCalls.isNone

-- `value.trim().is_empty()`.
def isBlank (value : String) : Bool := (Text.trim value.toList).isEmpty

def toAsciiLowercase (value : String) : String := String.ofList (value.toList.map Char.toLower)

def issueUnless (holds : Bool) (code message : String) : List Issue := if holds then [] else [⟨code, message⟩]

def identifierByte (length index : Nat) (byte : UInt8) : Bool :=
  (97 ≤ byte && byte ≤ 122) || (48 ≤ byte && byte ≤ 57)
    || ((byte == 46 || byte == 45) && 0 < index && index + 1 < length)

def isIdentifier (value : String) : Bool :=
  value ≠ "" && (utf8 value).length ≤ 120
    && ((utf8 value).zipIdx).all (fun (byte, index) => identifierByte (utf8 value).length index byte)
    && !Text.containsPair '.' '.' value.toList && !Text.containsPair '.' '-' value.toList
    && !Text.containsPair '-' '.' value.toList && !Text.containsPair '-' '-' value.toList

-- `debug` is how a text is written as a literal.
def validateIdentifier (debug : String → String) (field value : String) : List Issue :=
  issueUnless (isIdentifier value) "identifier.invalid" (field ++ " has invalid identifier " ++ debug value)

-- The components of a path are what stands between its slashes; an absolute one begins with a slash.
def isRelativePath (value : String) : Bool :=
  value ≠ "" && !Text.contains value '\\' && !Text.startsWith '/' value && !(Text.split '/' value).contains ".."

def validateRelativePath (debug : String → String) (field value : String) : List Issue :=
  issueUnless (isRelativePath value) "path.invalid" (field ++ " must be a relative POSIX path, got " ++ debug value)

def isLowerHex (byte : UInt8) : Bool := (48 ≤ byte && byte ≤ 57) || (97 ≤ byte && byte ≤ 102)

def validateSha256 (variantId value : String) : List Issue :=
  issueUnless ((utf8 value).length = 64 && (utf8 value).all isLowerHex) "variant.sha256.invalid"
    ("variant " ++ variantId ++ " has invalid lowercase SHA-256")

def checkWork (debug : String → String) (work : Work) : List Issue :=
  validateIdentifier debug "work.id" work.id ++ validateIdentifier debug "work.slug" work.slug
    ++ issueUnless (work.kind ≠ .pliego || !(work.signatura.elim true isBlank)) "work.signatura.missing"
      "a Pliego manifest requires a non-empty Signatura"

def extensionSet (coverage : Coverage) : SortedSet String := .ofList (coverage.trackedExtensions.map toAsciiLowercase)

-- The exclusions: what they are reported for, and their paths.
def checkExclusion (debug : String → String) (state : List Issue × SortedSet String) (exclusion : Exclusion)
    : List Issue × SortedSet String :=
  let (issues, paths) := state
  (issues ++ validateRelativePath debug "coverage.excluded.path" exclusion.path
      ++ issueUnless (!isBlank exclusion.reason) "coverage.exclusion.reason"
        (exclusion.path ++ " has an empty exclusion reason")
      ++ issueUnless (!paths.contains exclusion.path) "coverage.exclusion.duplicate"
        (exclusion.path ++ " is excluded more than once"),
    paths.insert exclusion.path ())

def checkExclusions (debug : String → String) (coverage : Coverage) : List Issue × SortedSet String :=
  coverage.excluded.foldl (checkExclusion debug) ([], .empty)

-- What the loop over the assets has gathered.
structure Gathered where
  issues : List Issue
  assetIds : SortedSet String
  variantIds : SortedSet String
  paths : SortedSet String
  variants : SortedMap String Variant
  totalBytes : UInt64
  tierTotals : Tier → TierTotals

namespace Gathered

def start : Gathered where
  issues := []
  assetIds := .empty
  variantIds := .empty
  paths := .empty
  variants := .empty
  totalBytes := 0
  tierTotals _ := ⟨.zero, 0⟩

def uniqueTiers (variant : Variant) : List Tier := Tier.all.filter variant.tiers.contains

def checkVariant (debug : String → String) (gathered : Gathered) (variant : Variant) : List Issue :=
  validateIdentifier debug "variant.id" variant.id ++ validateRelativePath debug "variant.path" variant.path
    ++ validateSha256 variant.id variant.sha256
    ++ issueUnless (!gathered.variantIds.contains variant.id) "variant.id.duplicate"
      ("duplicate variant id " ++ variant.id)
    ++ issueUnless (!gathered.paths.contains variant.path) "variant.path.duplicate"
      (variant.path ++ " is declared by more than one variant")
    ++ issueUnless (!variant.tiers.isEmpty) "variant.tiers.empty" ("variant " ++ variant.id ++ " has no tier")
    ++ issueUnless ((uniqueTiers variant).length = variant.tiers.length) "variant.tiers.duplicate"
      ("variant " ++ variant.id ++ " repeats a tier")
    ++ issueUnless (!variant.fallbackFor.contains variant.id) "variant.fallback.self"
      ("variant " ++ variant.id ++ " cannot fall back for itself")

def addVariant (debug : String → String) (gathered : Gathered) (variant : Variant) : Gathered where
  issues := gathered.issues ++ checkVariant debug gathered variant
  assetIds := gathered.assetIds
  variantIds := gathered.variantIds.insert variant.id ()
  paths := gathered.paths.insert variant.path ()
  variants := gathered.variants.insert variant.id variant
  totalBytes := saturatingAdd gathered.totalBytes variant.bytes
  tierTotals tier :=
    if (uniqueTiers variant).contains tier then
      ⟨(gathered.tierTotals tier).toTotals.add variant, (gathered.tierTotals tier).variants + 1⟩
    else
      gathered.tierTotals tier

def checkAsset (debug : String → String) (gathered : Gathered) (asset : Asset) : List Issue :=
  validateIdentifier debug "asset.id" asset.id
    ++ issueUnless (!gathered.assetIds.contains asset.id) "asset.id.duplicate" ("duplicate asset id " ++ asset.id)
    ++ issueUnless (!asset.variants.isEmpty) "asset.variants.empty" ("asset " ++ asset.id ++ " has no variants")

def addAsset (debug : String → String) (gathered : Gathered) (asset : Asset) : Gathered :=
  asset.variants.foldl (addVariant debug)
    { gathered with
      issues := gathered.issues ++ checkAsset debug gathered asset
      assetIds := gathered.assetIds.insert asset.id () }

end Gathered

def gather (debug : String → String) (assets : List Asset) : Gathered :=
  assets.foldl (Gathered.addAsset debug) .start

def checkFallbacks (variants : SortedMap String Variant) : List Issue :=
  variants.values.flatMap fun variant => variant.fallbackFor.flatMap fun fallbackId =>
    issueUnless (variants.get? fallbackId).isSome "variant.fallback.missing"
      ("variant " ++ variant.id ++ " references missing fallback target " ++ fallbackId)

def checkExcludedDeclared (excluded paths : SortedSet String) : List Issue :=
  excluded.keys.flatMap fun path =>
    issueUnless (!paths.contains path) "coverage.exclusion.declared"
      (path ++ " cannot be both declared and excluded")

-- One budget, with the variants that it has already counted.
structure Spending where
  issues : List Issue
  seen : SortedSet String
  totals : Totals

def checkSpent (budget : BudgetScope) (variant : Variant) : List Issue :=
  issueUnless (variant.tiers.contains budget.tier) "budget.variant.tier"
      ("budget " ++ budget.id ++ " uses " ++ variant.id ++ " outside tier " ++ budget.tier.asStr)
    ++ issueUnless (budget.phase.matchesDelivery variant.delivery) "budget.variant.phase"
      ("budget " ++ budget.id ++ " phase " ++ budget.phase.asStr ++ " does not match " ++ variant.id
        ++ " delivery " ++ variant.delivery.asStr)

def spend (variants : SortedMap String Variant) (budget : BudgetScope) (spending : Spending) (variantId : String)
    : Spending :=
  if spending.seen.contains variantId then
    { spending with
      issues := spending.issues
        ++ [⟨"budget.variant.duplicate", "budget " ++ budget.id ++ " repeats variant " ++ variantId⟩] }
  else
    match variants.get? variantId with
    | none =>
      { spending with
        seen := spending.seen.insert variantId ()
        issues := spending.issues
          ++ [⟨"budget.variant.missing", "budget " ++ budget.id ++ " references missing variant " ++ variantId⟩] }
    | some variant =>
      { issues := spending.issues ++ checkSpent budget variant
        seen := spending.seen.insert variantId ()
        totals := spending.totals.add variant }

def spent (variants : SortedMap String Variant) (budget : BudgetScope) : Spending :=
  budget.variants.foldl (spend variants budget) ⟨[], .empty, .zero⟩

def checkBudget (debug : String → String) (budgetIds : SortedSet String) (budget : BudgetScope) : List Issue :=
  validateIdentifier debug "budget.id" budget.id
    ++ issueUnless (Text.startsWith '/' budget.route) "budget.route.invalid"
      ("budget " ++ budget.id ++ " route must start with /")
    ++ issueUnless (!budget.limits.isEmpty) "budget.limits.empty"
      ("budget " ++ budget.id ++ " has no enforceable asset limit")
    ++ issueUnless (!budgetIds.contains budget.id) "budget.id.duplicate" ("duplicate budget id " ++ budget.id)

def budgetResult (variants : SortedMap String Variant) (budget : BudgetScope) : BudgetResult where
  toTotals := (spent variants budget).totals
  id := budget.id
  label := budget.label
  route := budget.route
  tier := budget.tier
  phase := budget.phase
  variantCount := (spent variants budget).seen.keys.length
  limits := budget.limits
  passed := (spent variants budget).totals.within budget.limits

def addBudget (debug : String → String) (variants : SortedMap String Variant)
    (state : List Issue × SortedSet String × List BudgetResult) (budget : BudgetScope)
    : List Issue × SortedSet String × List BudgetResult :=
  let (issues, budgetIds, results) := state
  (issues ++ checkBudget debug budgetIds budget ++ (spent variants budget).issues,
    budgetIds.insert budget.id (), results ++ [budgetResult variants budget])

def checkBudgets (debug : String → String) (variants : SortedMap String Variant) (budgets : List BudgetScope)
    : List Issue × SortedSet String × List BudgetResult :=
  budgets.foldl (addBudget debug variants) ([], .empty, [])

end Inspect

end Pliego
