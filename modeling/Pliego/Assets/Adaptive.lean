import Pliego.Lib.Fields
import Pliego.Lib.Grouped
import Pliego.Lib.SortedMap

/-!
Adaptive assets of `pliego-assets`: what a client of a tier is delivered, and the budgets of the tiers evaluated over
the published variants.
-/

namespace Pliego

namespace Assets

inductive Tier where
  | universal
  | lite
  | balanced
  | signature
  deriving DecidableEq, Repr

inductive Delivery where
  | initial
  | deferred
  | onDemand
  deriving DecidableEq, Repr

inductive FetchPriority where
  | high
  | auto
  | low
  deriving DecidableEq, Repr

inductive MotionPolicy where
  | static
  | suppressWhenReduced
  deriving DecidableEq, Repr

structure LoadPolicy where
  tiers : List Tier
  delivery : Delivery
  preload : Bool
  fetchPriority : FetchPriority
  motion : MotionPolicy
  deriving DecidableEq, Repr

structure TierBudget where
  tier : Tier
  maxInitialBytes : Nat
  maxDeferredBytes : Nat
  maxOnDemandBytes : Nat
  maxDecodedBytes : Nat
  maxTriangles : Nat
  maxDrawCalls : Nat
  maxPreloads : Nat

structure DeviceBudgetProfile where
  id : String
  tiers : List TierBudget

structure PublishedVariant where
  id : String
  path : String
  mediaType : String
  selectionGroup : Option String
  bytes : Nat
  policy : LoadPolicy
  estimatedDecodedBytes : Nat
  estimatedTriangles : Nat
  estimatedDrawCalls : Nat
  deriving DecidableEq, Repr

structure BudgetTotals where
  initialBytes : Nat := 0
  deferredBytes : Nat := 0
  onDemandBytes : Nat := 0
  decodedBytes : Nat := 0
  triangles : Nat := 0
  drawCalls : Nat := 0
  preloads : Nat := 0
  deriving DecidableEq, Repr

structure BudgetResult where
  profileId : String
  tier : Tier
  pass : Bool
  totals : BudgetTotals
  deriving DecidableEq, Repr

structure RuntimeConstraints where
  tier : Tier
  reducedMotion : Bool
  saveData : Bool

inductive LoadStrategy where
  | eager
  | lazy
  | interaction

structure DeliveryDirective where
  variantId : String
  path : String
  mediaType : String
  strategy : LoadStrategy
  preload : Bool
  fetchPriority : FetchPriority

inductive AssetError where
  | invalidRecipe (message : String)
  | io (path source : String)
  deriving DecidableEq, Repr

structure AdaptiveManifest where
  variants : List PublishedVariant
  budgetResults : List BudgetResult

def AdaptiveManifest.deliverable (manifest : AdaptiveManifest) (constraints : RuntimeConstraints)
    : List PublishedVariant :=
  ((manifest.variants.filter fun variant => variant.policy.tiers.contains constraints.tier).filter fun variant =>
      !(constraints.reducedMotion && variant.policy.motion = .suppressWhenReduced)).filter fun variant =>
    !constraints.saveData || (variant.policy.delivery = .initial && variant.policy.motion = .static)

def directive (variant : PublishedVariant) : DeliveryDirective where
  variantId := variant.id
  path := variant.path
  mediaType := variant.mediaType
  strategy :=
    match variant.policy.delivery with
    | .initial => .eager
    | .deferred => .lazy
    | .onDemand => .interaction
  preload := variant.policy.preload
  fetchPriority := variant.policy.fetchPriority

def AdaptiveManifest.delivery (manifest : AdaptiveManifest) (constraints : RuntimeConstraints)
    : List DeliveryDirective :=
  (manifest.deliverable constraints).map directive

def add (total value : Nat) : Except AssetError Nat :=
  if total + value < 2 ^ 64 then .ok (total + value) else .error (.invalidRecipe "budget total overflow")

def addPreloads (total value : Nat) : Except AssetError Nat :=
  if total + value < 2 ^ 32 then .ok (total + value) else .error (.invalidRecipe "preload count overflow")

def accumulateVariant (totals : BudgetTotals) (variant : PublishedVariant) : Except AssetError BudgetTotals := do
  let totals ← match variant.policy.delivery with
    | .initial => (add totals.initialBytes variant.bytes).map fun bytes => { totals with initialBytes := bytes }
    | .deferred => (add totals.deferredBytes variant.bytes).map fun bytes => { totals with deferredBytes := bytes }
    | .onDemand => (add totals.onDemandBytes variant.bytes).map fun bytes => { totals with onDemandBytes := bytes }
  let decodedBytes ← add totals.decodedBytes variant.estimatedDecodedBytes
  let triangles ← add totals.triangles variant.estimatedTriangles
  let drawCalls ← add totals.drawCalls variant.estimatedDrawCalls
  let preloads ← addPreloads totals.preloads variant.policy.preload.toNat
  .ok { totals with decodedBytes, triangles, drawCalls, preloads }

def addTotals (total value : BudgetTotals) : Except AssetError BudgetTotals := do
  let initialBytes ← add total.initialBytes value.initialBytes
  let deferredBytes ← add total.deferredBytes value.deferredBytes
  let onDemandBytes ← add total.onDemandBytes value.onDemandBytes
  let decodedBytes ← add total.decodedBytes value.decodedBytes
  let triangles ← add total.triangles value.triangles
  let drawCalls ← add total.drawCalls value.drawCalls
  let preloads ← addPreloads total.preloads value.preloads
  .ok { initialBytes, deferredBytes, onDemandBytes, decodedBytes, triangles, drawCalls, preloads }

def worstOf (worst : BudgetTotals) (variant : PublishedVariant) : BudgetTotals :=
  let worst := match variant.policy.delivery with
    | .initial => { worst with initialBytes := max worst.initialBytes variant.bytes }
    | .deferred => { worst with deferredBytes := max worst.deferredBytes variant.bytes }
    | .onDemand => { worst with onDemandBytes := max worst.onDemandBytes variant.bytes }
  { worst with
    decodedBytes := max worst.decodedBytes variant.estimatedDecodedBytes
    triangles := max worst.triangles variant.estimatedTriangles
    drawCalls := max worst.drawCalls variant.estimatedDrawCalls
    preloads := max worst.preloads variant.policy.preload.toNat }

abbrev Groups := SortedMap String (List PublishedVariant)

def collect (totals : BudgetTotals) (groups : Groups) (applicable : List PublishedVariant)
    : Except AssetError (BudgetTotals × Groups) :=
  match applicable with
  | [] => .ok (totals, groups)
  | variant :: rest =>
    match variant.selectionGroup with
    | some group => collect totals (groups.insert group ((groups.get? group).getD [] ++ [variant])) rest
    | none => do
      let totals ← accumulateVariant totals variant
      collect totals groups rest

def addGroups (totals : BudgetTotals) (groups : List (List PublishedVariant)) : Except AssetError BudgetTotals :=
  match groups with
  | [] => .ok totals
  | alternatives :: rest => do
    let totals ← addTotals totals (alternatives.foldl worstOf {})
    addGroups totals rest

def withinBudget (totals : BudgetTotals) (budget : TierBudget) : Bool :=
  totals.initialBytes ≤ budget.maxInitialBytes
    && totals.deferredBytes ≤ budget.maxDeferredBytes
    && totals.onDemandBytes ≤ budget.maxOnDemandBytes
    && totals.decodedBytes ≤ budget.maxDecodedBytes
    && totals.triangles ≤ budget.maxTriangles
    && totals.drawCalls ≤ budget.maxDrawCalls
    && totals.preloads ≤ budget.maxPreloads

def evaluateBudget (variants : List PublishedVariant) (profile : DeviceBudgetProfile) (budget : TierBudget)
    : Except AssetError BudgetResult := do
  let applicable := variants.filter fun variant => variant.policy.tiers.contains budget.tier
  let (totals, groups) ← collect {} .empty applicable
  let totals ← addGroups totals groups.values
  .ok ⟨profile.id, budget.tier, withinBudget totals budget, totals⟩

def budgetCases (profiles : List DeviceBudgetProfile) : List (DeviceBudgetProfile × TierBudget) :=
  profiles.flatMap fun profile => profile.tiers.map (profile, ·)

def evaluateCases (variants : List PublishedVariant) (cases : List (DeviceBudgetProfile × TierBudget))
    : Except AssetError (List BudgetResult) :=
  match cases with
  | [] => .ok []
  | (profile, budget) :: rest => do
    let result ← evaluateBudget variants profile budget
    let results ← evaluateCases variants rest
    .ok (result :: results)

def evaluateBudgets (profiles : List DeviceBudgetProfile) (variants : List PublishedVariant)
    : Except AssetError (List BudgetResult) :=
  evaluateCases variants (budgetCases profiles)

inductive Meter where
  | initialBytes
  | deferredBytes
  | onDemandBytes
  | decodedBytes
  | triangles
  | drawCalls
  | preloads
  deriving DecidableEq

def Meter.ceiling (meter : Meter) : Nat :=
  match meter with
  | .preloads => 2 ^ 32
  | _ => 2 ^ 64

def BudgetTotals.on (totals : BudgetTotals) (meter : Meter) : Nat :=
  match meter with
  | .initialBytes => totals.initialBytes
  | .deferredBytes => totals.deferredBytes
  | .onDemandBytes => totals.onDemandBytes
  | .decodedBytes => totals.decodedBytes
  | .triangles => totals.triangles
  | .drawCalls => totals.drawCalls
  | .preloads => totals.preloads

def TierBudget.limit (budget : TierBudget) (meter : Meter) : Nat :=
  match meter with
  | .initialBytes => budget.maxInitialBytes
  | .deferredBytes => budget.maxDeferredBytes
  | .onDemandBytes => budget.maxOnDemandBytes
  | .decodedBytes => budget.maxDecodedBytes
  | .triangles => budget.maxTriangles
  | .drawCalls => budget.maxDrawCalls
  | .preloads => budget.maxPreloads

def load (meter : Meter) (variant : PublishedVariant) : Nat :=
  match meter with
  | .initialBytes => if variant.policy.delivery = .initial then variant.bytes else 0
  | .deferredBytes => if variant.policy.delivery = .deferred then variant.bytes else 0
  | .onDemandBytes => if variant.policy.delivery = .onDemand then variant.bytes else 0
  | .decodedBytes => variant.estimatedDecodedBytes
  | .triangles => variant.estimatedTriangles
  | .drawCalls => variant.estimatedDrawCalls
  | .preloads => variant.policy.preload.toNat

def applicable (variants : List PublishedVariant) (tier : Tier) : List PublishedVariant :=
  variants.filter fun variant => variant.policy.tiers.contains tier

def worstCase (variants : List PublishedVariant) (tier : Tier) (meter : Meter) : Nat :=
  Grouped.worst PublishedVariant.selectionGroup (load meter) (applicable variants tier)

variable {variants : List PublishedVariant} {totals next : BudgetTotals} {variant : PublishedVariant} {meter : Meter}

def BudgetTotals.InRange (totals : BudgetTotals) : Prop :=
  ∀ meter, totals.on meter < meter.ceiling

theorem add_eq_ok {total value result : Nat} : add total value = .ok result ↔ result = total + value ∧ total + value < 2 ^ 64 := by
  unfold add
  split
  . next h =>
    simp only [Except.ok.injEq]
    exact ⟨fun hsame => ⟨hsame.symm, h⟩, fun hsame => hsame.1.symm⟩
  . next h => exact iff_of_false nofun (fun hsame => h hsame.2)

theorem addPreloads_eq_ok {total value result : Nat}
    : addPreloads total value = .ok result ↔ result = total + value ∧ total + value < 2 ^ 32 := by
  unfold addPreloads
  split
  . next h =>
    simp only [Except.ok.injEq]
    exact ⟨fun hsame => ⟨hsame.symm, h⟩, fun hsame => hsame.1.symm⟩
  . next h => exact iff_of_false nofun (fun hsame => h hsame.2)

theorem addTotals_ok {value : BudgetTotals} (h : addTotals totals value = .ok next)
    : ∀ meter, next.on meter = totals.on meter + value.on meter ∧ next.on meter < meter.ceiling := by
  unfold addTotals at h
  simp only [Except.bind_eq_ok, add_eq_ok, addPreloads_eq_ok, Except.ok.injEq] at h
  obtain ⟨_, ⟨rfl, h1⟩, _, ⟨rfl, h2⟩, _, ⟨rfl, h3⟩, _, ⟨rfl, h4⟩, _, ⟨rfl, h5⟩, _, ⟨rfl, h6⟩, _, ⟨rfl, h7⟩, rfl⟩ := h
  intro meter
  cases meter with
  | initialBytes => exact ⟨rfl, h1⟩
  | deferredBytes => exact ⟨rfl, h2⟩
  | onDemandBytes => exact ⟨rfl, h3⟩
  | decodedBytes => exact ⟨rfl, h4⟩
  | triangles => exact ⟨rfl, h5⟩
  | drawCalls => exact ⟨rfl, h6⟩
  | preloads => exact ⟨rfl, h7⟩

theorem addTotals_total {value : BudgetTotals} (h : ∀ meter, totals.on meter + value.on meter < meter.ceiling)
    : ∃ next, addTotals totals value = .ok next := by
  have h1 : totals.initialBytes + value.initialBytes < 2 ^ 64 := h .initialBytes
  have h2 : totals.deferredBytes + value.deferredBytes < 2 ^ 64 := h .deferredBytes
  have h3 : totals.onDemandBytes + value.onDemandBytes < 2 ^ 64 := h .onDemandBytes
  have h4 : totals.decodedBytes + value.decodedBytes < 2 ^ 64 := h .decodedBytes
  have h5 : totals.triangles + value.triangles < 2 ^ 64 := h .triangles
  have h6 : totals.drawCalls + value.drawCalls < 2 ^ 64 := h .drawCalls
  have h7 : totals.preloads + value.preloads < 2 ^ 32 := h .preloads
  unfold addTotals add addPreloads
  rw [if_pos h1, if_pos h2, if_pos h3, if_pos h4, if_pos h5, if_pos h6, if_pos h7]
  exact ⟨_, rfl⟩

theorem worstOf_on (worst : BudgetTotals) : (worstOf worst variant).on meter = max (worst.on meter) (load meter variant) := by
  unfold worstOf load
  cases hdelivery : variant.policy.delivery with
  | _ => cases meter <;> simp [BudgetTotals.on]

theorem foldl_worstOf_on (worst : BudgetTotals) (alternatives : List PublishedVariant)
    : (alternatives.foldl worstOf worst).on meter
      = max (worst.on meter) (Grouped.highest (alternatives.map (load meter))) := by
  induction alternatives generalizing worst with
  | nil => exact (Nat.max_zero _).symm
  | cons variant rest ih =>
    rw [List.foldl_cons, ih, worstOf_on, max_assoc]
    rfl

theorem on_default : ({} : BudgetTotals).on meter = 0 := by
  cases meter <;> rfl

theorem worstOf_default : (worstOf {} variant).on meter = load meter variant := by
  rw [worstOf_on, on_default, Nat.zero_max]

theorem add_zero {total : Nat} (h : total < 2 ^ 64) : add total 0 = .ok total := by
  unfold add
  rw [Nat.add_zero, if_pos h]

theorem accumulateVariant_eq (h : totals.InRange) : accumulateVariant totals variant = addTotals totals (worstOf {} variant) := by
  have hinitial : add totals.initialBytes 0 = .ok totals.initialBytes := add_zero (h .initialBytes)
  have hdeferred : add totals.deferredBytes 0 = .ok totals.deferredBytes := add_zero (h .deferredBytes)
  have honDemand : add totals.onDemandBytes 0 = .ok totals.onDemandBytes := add_zero (h .onDemandBytes)
  unfold accumulateVariant addTotals worstOf
  cases variant.policy.delivery with
  | initial =>
    simp only [Nat.zero_max, hdeferred, honDemand]
    cases add totals.initialBytes variant.bytes <;> rfl
  | deferred =>
    simp only [Nat.zero_max, hinitial, honDemand]
    cases add totals.deferredBytes variant.bytes <;> rfl
  | onDemand =>
    simp only [Nat.zero_max, hinitial, hdeferred]
    cases add totals.onDemandBytes variant.bytes <;> rfl

def pushAll (groups : Groups) (applicable : List PublishedVariant) : Groups :=
  match applicable with
  | [] => groups
  | variant :: rest =>
    match variant.selectionGroup with
    | some group => pushAll (groups.insert group ((groups.get? group).getD [] ++ [variant])) rest
    | none => pushAll groups rest

theorem loose_cons {items : List PublishedVariant}
    : Grouped.loose PublishedVariant.selectionGroup (load meter) (variant :: items)
      = (if variant.selectionGroup = none then load meter variant else 0)
        + Grouped.loose PublishedVariant.selectionGroup (load meter) items := by
  unfold Grouped.loose
  rw [List.filter_cons]
  cases hgroup : variant.selectionGroup with
  | none => rw [if_pos (decide_eq_true rfl), if_pos rfl, List.map_cons, List.sum_cons]
  | some group => rw [if_neg (by simp), if_neg nofun, Nat.zero_add]

theorem collect_ok {groups grouped : Groups} {items : List PublishedVariant} (hrange : totals.InRange)
    (h : collect totals groups items = .ok (next, grouped))
    : (∀ meter, next.on meter = totals.on meter + Grouped.loose PublishedVariant.selectionGroup (load meter) items)
      ∧ next.InRange ∧ grouped = pushAll groups items := by
  induction items generalizing totals groups with
  | nil =>
    cases h
    exact ⟨fun meter => rfl, hrange, rfl⟩
  | cons variant rest ih =>
    unfold collect at h
    unfold pushAll
    split at h
    . next group hgroup =>
      obtain ⟨hsum, hnext, hgrouped⟩ := ih hrange h
      refine ⟨?_, hnext, ?_⟩
      . intro meter
        rw [hsum, loose_cons, hgroup, if_neg nofun, Nat.zero_add]
      . exact hgrouped
    . next hgroup =>
      rw [Except.bind_eq_ok] at h
      obtain ⟨middle, hmiddle, hrest⟩ := h
      rw [accumulateVariant_eq hrange] at hmiddle
      have hadded := addTotals_ok hmiddle
      obtain ⟨hsum, hnext, hgrouped⟩ := ih (fun meter => (hadded meter).2) hrest
      refine ⟨?_, hnext, ?_⟩
      . intro meter
        rw [hsum, (hadded meter).1, worstOf_default, loose_cons, if_pos hgroup, Nat.add_assoc]
      . exact hgrouped

theorem collect_total {groups : Groups} {items : List PublishedVariant} (hrange : totals.InRange)
    (h : ∀ meter, totals.on meter + Grouped.loose PublishedVariant.selectionGroup (load meter) items < meter.ceiling)
    : ∃ collected, collect totals groups items = .ok collected := by
  induction items generalizing totals groups with
  | nil => exact ⟨_, rfl⟩
  | cons variant rest ih =>
    unfold collect
    split
    . next group hgroup =>
      apply ih hrange
      intro meter
      have hmeter := h meter
      rw [loose_cons, hgroup, if_neg nofun, Nat.zero_add] at hmeter
      exact hmeter
    . next hgroup =>
      have hsum : ∀ meter, totals.on meter + (worstOf {} variant).on meter
          + Grouped.loose PublishedVariant.selectionGroup (load meter) rest < meter.ceiling := by
        intro meter
        have hmeter := h meter
        rw [loose_cons, if_pos hgroup, ← Nat.add_assoc] at hmeter
        rw [worstOf_default]
        exact hmeter
      obtain ⟨middle, hmiddle⟩ := addTotals_total fun meter => Nat.lt_of_le_of_lt (Nat.le_add_right _ _) (hsum meter)
      have hadded := addTotals_ok hmiddle
      rw [accumulateVariant_eq hrange, hmiddle]
      apply ih (fun meter => (hadded meter).2)
      intro meter
      rw [(hadded meter).1]
      exact hsum meter

theorem addGroups_ok {groups : List (List PublishedVariant)} (hrange : totals.InRange)
    (h : addGroups totals groups = .ok next)
    : next.InRange ∧ ∀ meter, next.on meter
      = totals.on meter + (groups.map fun alternatives => Grouped.highest (alternatives.map (load meter))).sum := by
  induction groups generalizing totals with
  | nil =>
    cases h
    exact ⟨hrange, fun meter => rfl⟩
  | cons alternatives rest ih =>
    unfold addGroups at h
    rw [Except.bind_eq_ok] at h
    obtain ⟨middle, hmiddle, hrest⟩ := h
    have hadded := addTotals_ok hmiddle
    obtain ⟨hnext, hsum⟩ := ih (fun meter => (hadded meter).2) hrest
    refine ⟨hnext, ?_⟩
    intro meter
    rw [hsum, (hadded meter).1, foldl_worstOf_on, on_default, Nat.zero_max, List.map_cons, List.sum_cons, Nat.add_assoc]

theorem addGroups_total {groups : List (List PublishedVariant)} (h : ∀ meter, totals.on meter
      + (groups.map fun alternatives => Grouped.highest (alternatives.map (load meter))).sum < meter.ceiling)
    : ∃ next, addGroups totals groups = .ok next := by
  induction groups generalizing totals with
  | nil => exact ⟨_, rfl⟩
  | cons alternatives rest ih =>
    have hsum : ∀ meter, totals.on meter + (alternatives.foldl worstOf {}).on meter
        + (rest.map fun alternatives => Grouped.highest (alternatives.map (load meter))).sum < meter.ceiling := by
      intro meter
      have hmeter := h meter
      rw [List.map_cons, List.sum_cons, ← Nat.add_assoc] at hmeter
      rw [foldl_worstOf_on, on_default, Nat.zero_max]
      exact hmeter
    obtain ⟨middle, hmiddle⟩ := addTotals_total fun meter => Nat.lt_of_le_of_lt (Nat.le_add_right _ _) (hsum meter)
    have hadded := addTotals_ok hmiddle
    unfold addGroups
    rw [hmiddle]
    apply ih
    intro meter
    rw [(hadded meter).1]
    exact hsum meter

theorem get?_pushAll (groups : Groups) (items : List PublishedVariant) (group : String)
    : (pushAll groups items).get? group
      = if group ∈ items.filterMap PublishedVariant.selectionGroup then
          some ((groups.get? group).getD [] ++ items.filter (·.selectionGroup = some group))
        else
          groups.get? group := by
  induction items generalizing groups with
  | nil => rfl
  | cons variant rest ih =>
    unfold pushAll
    rw [List.filter_cons]
    cases hgroup : variant.selectionGroup with
    | none =>
      have hdrop : ¬ decide ((none : Option String) = some group) = true := by simp
      dsimp only
      rw [List.filterMap_cons_none hgroup, if_neg hdrop, ih]
    | some other =>
      dsimp only
      rw [List.filterMap_cons_some hgroup, ih, SortedMap.get?_insert]
      by_cases hsame : group = other
      . subst hsame
        have hkept : decide (some group = some group) = true := decide_eq_true rfl
        rw [if_pos rfl, Option.getD_some, if_pos List.mem_cons_self, if_pos hkept]
        split
        . rw [List.append_assoc, List.singleton_append]
        . next hnot =>
          have hnil : rest.filter (·.selectionGroup = some group) = [] := by
            rw [List.filter_eq_nil_iff]
            intro item hitem hsome
            exact hnot (List.mem_filterMap.mpr ⟨item, hitem, of_decide_eq_true hsome⟩)
          rw [hnil]
      . have hother : ¬ decide (some other = some group) = true := by
          rw [decide_eq_true_eq, Option.some.injEq]
          exact Ne.symm hsame
        have hmem : group ∈ other :: rest.filterMap PublishedVariant.selectionGroup
            ↔ group ∈ rest.filterMap PublishedVariant.selectionGroup := by
          rw [List.mem_cons]
          exact or_iff_right hsame
        simp only [hmem, if_neg hsame, if_neg hother]

theorem sum_groups (items : List PublishedVariant)
    : ((pushAll .empty items).values.map fun alternatives => Grouped.highest (alternatives.map (load meter))).sum
      = ∑ group ∈ Grouped.groups PublishedVariant.selectionGroup items,
        Grouped.member PublishedVariant.selectionGroup (load meter) items group := by
  have hkeys : (pushAll .empty items).keys.toFinset = Grouped.groups PublishedVariant.selectionGroup items := by
    apply Finset.ext
    intro group
    unfold Grouped.groups
    rw [List.mem_toFinset, List.mem_toFinset, SortedMap.mem_keys, get?_pushAll]
    split
    . next hmem => exact iff_of_true rfl hmem
    . next hmem => exact iff_of_false nofun hmem
  have hnodup : (pushAll .empty items).keys.Nodup := (SortedMap.keys_sorted _).imp ne_of_lt
  rw [← hkeys, List.sum_toFinset _ hnodup]
  unfold SortedMap.values SortedMap.keys
  rw [List.map_map, List.map_map]
  congr 1
  apply List.map_congr_left
  intro entry hentry
  have hget := SortedMap.get?_eq_some.mpr hentry
  rw [get?_pushAll, SortedMap.get?_empty, Option.getD_none, List.nil_append] at hget
  dsimp only [Function.comp_apply]
  unfold Grouped.member
  split at hget
  . rw [← Option.some.inj hget]
  . cases hget

theorem withinBudget_iff {budget : TierBudget}
    : withinBudget totals budget = true ↔ ∀ meter, totals.on meter ≤ budget.limit meter := by
  unfold withinBudget
  simp only [Bool.and_eq_true, decide_eq_true_eq]
  constructor
  . intro h meter
    cases meter <;> simp only [BudgetTotals.on, TierBudget.limit] <;> omega
  . intro h
    exact ⟨⟨⟨⟨⟨⟨h .initialBytes, h .deferredBytes⟩, h .onDemandBytes⟩, h .decodedBytes⟩, h .triangles⟩, h .drawCalls⟩,
      h .preloads⟩

theorem inRange_default : ({} : BudgetTotals).InRange := by
  intro meter
  cases meter <;> decide

theorem evaluateBudget_ok {profile : DeviceBudgetProfile} {budget : TierBudget} {result : BudgetResult}
    (h : evaluateBudget variants profile budget = .ok result)
    : result.profileId = profile.id ∧ result.tier = budget.tier ∧ result.pass = withinBudget result.totals budget
      ∧ ∀ meter, result.totals.on meter = worstCase variants budget.tier meter
        ∧ worstCase variants budget.tier meter < meter.ceiling := by
  unfold evaluateBudget at h
  simp only [Except.bind_eq_ok, Prod.exists] at h
  obtain ⟨collected, groups, hcollected, totals, hadded, hresult⟩ := h
  cases hresult
  obtain ⟨hloose, hrange, hgroups⟩ := collect_ok inRange_default hcollected
  obtain ⟨hnext, hsum⟩ := addGroups_ok hrange hadded
  refine ⟨rfl, rfl, rfl, ?_⟩
  intro meter
  have hworst : totals.on meter = worstCase variants budget.tier meter := by
    rw [hsum, hloose, on_default, Nat.zero_add, hgroups, sum_groups]
    rfl
  rw [← hworst]
  exact ⟨rfl, hnext meter⟩

theorem evaluateBudget_error {profile : DeviceBudgetProfile} {budget : TierBudget} {error : AssetError}
    (h : evaluateBudget variants profile budget = .error error)
    : ∃ meter : Meter, meter.ceiling ≤ worstCase variants budget.tier meter := by
  by_contra hnone
  have hall : ∀ meter : Meter, worstCase variants budget.tier meter < meter.ceiling := by
    intro meter
    exact Nat.lt_of_not_le fun hle => hnone ⟨meter, hle⟩
  obtain ⟨⟨collected, groups⟩, hcollected⟩ : ∃ collected, collect {} .empty (applicable variants budget.tier)
      = .ok collected := by
    apply collect_total inRange_default
    intro meter
    rw [on_default, Nat.zero_add]
    exact Nat.lt_of_le_of_lt (Nat.le_add_right _ _) (hall meter)
  obtain ⟨hloose, _, hgroups⟩ := collect_ok inRange_default hcollected
  obtain ⟨totals, hadded⟩ : ∃ totals, addGroups collected groups.values = .ok totals := by
    apply addGroups_total
    intro meter
    rw [hloose, on_default, Nat.zero_add, hgroups, sum_groups]
    exact hall meter
  unfold evaluateBudget at h
  unfold applicable at hcollected
  dsimp only at h
  rw [hcollected] at h
  change (do
    let totals ← addGroups collected groups.values
    .ok (BudgetResult.mk profile.id budget.tier (withinBudget totals budget) totals)) = .error error at h
  rw [hadded] at h
  cases h

structure Sound (variants : List PublishedVariant) (profile : DeviceBudgetProfile) (budget : TierBudget)
    (result : BudgetResult) : Prop where
  profile : result.profileId = profile.id
  tier : result.tier = budget.tier
  exact : ∀ meter, result.totals.on meter = worstCase variants budget.tier meter
    ∧ worstCase variants budget.tier meter < meter.ceiling
  pass : result.pass = true → ∀ (results : List BudgetResult) (constraints : RuntimeConstraints),
    constraints.tier = budget.tier → ∀ chosen, Grouped.Choice PublishedVariant.selectionGroup
      ((AdaptiveManifest.mk variants results).deliverable constraints) chosen →
    ∀ meter, (chosen.map (load meter)).sum ≤ budget.limit meter
  fail : result.pass = false → ∃ meter, budget.limit meter < worstCase variants budget.tier meter

theorem deliverable_sublist (manifest : AdaptiveManifest) (constraints : RuntimeConstraints)
    : (manifest.deliverable constraints).Sublist (applicable manifest.variants constraints.tier) :=
  List.filter_sublist.trans List.filter_sublist

theorem evaluateBudget_sound {profile : DeviceBudgetProfile} {budget : TierBudget} {result : BudgetResult}
    (h : evaluateBudget variants profile budget = .ok result)
    : Sound variants profile budget result := by
  obtain ⟨hprofile, htier, hpass, hexact⟩ := evaluateBudget_ok h
  constructor
  . exact hprofile
  . exact htier
  . exact hexact
  . intro hpassed results constraints hconstraints chosen hchosen meter
    rw [hpass, withinBudget_iff] at hpassed
    have hwithin := hpassed meter
    rw [(hexact meter).1] at hwithin
    apply Nat.le_trans _ hwithin
    apply Grouped.choice_le_worst
    apply hchosen.trans
    rw [← hconstraints]
    exact deliverable_sublist ⟨variants, results⟩ constraints
  . intro hfailed
    by_contra hnone
    have hwithin : withinBudget result.totals budget = true := by
      rw [withinBudget_iff]
      intro meter
      rw [(hexact meter).1]
      exact Nat.le_of_not_lt fun hlt => hnone ⟨meter, hlt⟩
    rw [hpass, hwithin] at hfailed
    cases hfailed

theorem evaluateCases_sound (variants : List PublishedVariant) (cases : List (DeviceBudgetProfile × TierBudget))
    : match evaluateCases variants cases with
      | .ok results => List.Forall₂ (fun each result => Sound variants each.1 each.2 result) cases results
      | .error _ => ∃ each ∈ cases, ∃ meter : Meter, meter.ceiling ≤ worstCase variants each.2.tier meter := by
  induction cases with
  | nil => exact .nil
  | cons each rest ih =>
    obtain ⟨profile, budget⟩ := each
    unfold evaluateCases
    cases hfirst : evaluateBudget variants profile budget with
    | error error => exact ⟨_, List.mem_cons_self, evaluateBudget_error hfirst⟩
    | ok result =>
      cases hrest : evaluateCases variants rest with
      | error error =>
        rw [hrest] at ih
        obtain ⟨each, hmem, hmeter⟩ := ih
        exact ⟨each, List.mem_cons_of_mem _ hmem, hmeter⟩
      | ok results =>
        rw [hrest] at ih
        exact .cons (evaluateBudget_sound hfirst) ih

/--
A budget that passes bounds what every client of its tier is delivered, under every choice of at most one variant of
each group; one that fails is exceeded by the worst case; and a sum that a counter cannot hold is an error.
-/
theorem evaluateBudgets_sound (profiles : List DeviceBudgetProfile) (variants : List PublishedVariant)
    : match evaluateBudgets profiles variants with
      | .ok results =>
        List.Forall₂ (fun each result => Sound variants each.1 each.2 result) (budgetCases profiles) results
      | .error _ => ∃ each ∈ budgetCases profiles, ∃ meter : Meter,
        meter.ceiling ≤ worstCase variants each.2.tier meter :=
  evaluateCases_sound variants (budgetCases profiles)

end Assets

end Pliego
