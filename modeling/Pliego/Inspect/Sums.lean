import Mathlib.Data.List.Forall2
import Mathlib.Data.List.Induction
import Pliego.Inspect.Files

/-!
What the sums of an inspection are of the exact ones, and what its loop over the assets has gathered.
-/

namespace Pliego

namespace Inspect

-- The largest value of 64 bits, at which a saturating sum stops.
def largest : Nat := 2 ^ 64 - 1

theorem toNat_saturatingAdd (a b : UInt64) : (saturatingAdd a b).toNat = min (a.toNat + b.toNat) largest := by
  unfold saturatingAdd largest
  split
  . next h =>
    rw [UInt64.toNat_add, Nat.mod_eq_of_lt h]
    omega
  . next h =>
    have hofNat : (UInt64.ofNat (2 ^ 64 - 1)).toNat = 2 ^ 64 - 1 := rfl
    rw [hofNat]
    omega

theorem toNat_le_largest (a : UInt64) : a.toNat ≤ largest := by
  have h := a.toNat_lt
  unfold largest
  omega

inductive Measure where
  | transferBytes
  | estimatedVramBytes
  | triangles
  | drawCalls

namespace Measure

def ofVariant (measure : Measure) (variant : Variant) : Nat :=
  match measure with
  | .transferBytes => variant.bytes.toNat
  | .estimatedVramBytes => (variant.estimatedVramBytes.getD 0).toNat
  | .triangles => variant.geometry.elim 0 (·.triangles.toNat)
  | .drawCalls => variant.geometry.elim 0 (·.drawCalls.toNat)

def ofTotals (measure : Measure) (totals : Totals) : UInt64 :=
  match measure with
  | .transferBytes => totals.transferBytes
  | .estimatedVramBytes => totals.estimatedVramBytes
  | .triangles => totals.triangles
  | .drawCalls => totals.drawCalls

def ofLimits (measure : Measure) (limits : AssetLimits) : Option UInt64 :=
  match measure with
  | .transferBytes => limits.maxTransferBytes
  | .estimatedVramBytes => limits.maxEstimatedVramBytes
  | .triangles => limits.maxTriangles
  | .drawCalls => limits.maxDrawCalls

def exact (measure : Measure) (variants : List Variant) : Nat := (variants.map measure.ofVariant).sum

theorem exact_append (measure : Measure) (variants more : List Variant)
    : measure.exact (variants ++ more) = measure.exact variants + measure.exact more := by
  unfold exact
  rw [List.map_append, List.sum_append]

theorem exact_singleton (measure : Measure) (variant : Variant)
    : measure.exact [variant] = measure.ofVariant variant := by
  simp [exact]

theorem ofTotals_zero (measure : Measure) : measure.ofTotals .zero = 0 := by
  cases measure <;> rfl

theorem ofTotals_add (measure : Measure) (totals : Totals) (variant : Variant)
    : (measure.ofTotals (totals.add variant)).toNat
        =
      min ((measure.ofTotals totals).toNat + measure.ofVariant variant) largest := by
  have hdrawn := toNat_le_largest totals.triangles
  have hcalled := toNat_le_largest totals.drawCalls
  cases measure with
  | transferBytes => apply toNat_saturatingAdd
  | estimatedVramBytes => apply toNat_saturatingAdd
  | triangles =>
    simp only [ofTotals, Totals.add, ofVariant]
    cases variant.geometry with
    | none => simp [hdrawn]
    | some geometry => apply toNat_saturatingAdd
  | drawCalls =>
    simp only [ofTotals, Totals.add, ofVariant]
    cases variant.geometry with
    | none => simp [hcalled]
    | some geometry => apply toNat_saturatingAdd

theorem ofTotals_add_of_eq {measure : Measure} {totals : Totals} {variants : List Variant}
    (h : (measure.ofTotals totals).toNat = min (measure.exact variants) largest) (variant : Variant)
    : (measure.ofTotals (totals.add variant)).toNat = min (measure.exact (variants ++ [variant])) largest := by
  rw [ofTotals_add, h, exact_append, exact_singleton]
  omega

theorem within_iff {totals : Totals} {limits : AssetLimits}
    : totals.within limits = true
        ↔
      ∀ measure : Measure, ∀ limit ∈ measure.ofLimits limits, (measure.ofTotals totals).toNat ≤ limit.toNat := by
  have hlimit : ∀ (value : UInt64) (limit : Option UInt64),
      withinLimit value limit = true ↔ ∀ maximum ∈ limit, value.toNat ≤ maximum.toNat := by
    intro value limit
    cases limit with
    | none => simp [withinLimit]
    | some maximum => simp [withinLimit, UInt64.le_iff_toNat_le]
  unfold Totals.within
  simp only [Bool.and_eq_true, hlimit]
  constructor
  . rintro ⟨⟨⟨hbytes, hvram⟩, htriangles⟩, hcalls⟩ measure
    cases measure with
    | transferBytes => exact hbytes
    | estimatedVramBytes => exact hvram
    | triangles => exact htriangles
    | drawCalls => exact hcalls
  . intro h
    exact ⟨⟨⟨h .transferBytes, h .estimatedVramBytes⟩, h .triangles⟩, h .drawCalls⟩

end Measure

theorem issueUnless_eq_nil {holds : Bool} {code message : String}
    : issueUnless holds code message = [] ↔ holds = true := by
  cases holds <;> simp [issueUnless]

def AssetManifest.variants (manifest : AssetManifest) : List Variant := manifest.assets.flatMap Asset.variants

-- The variant that an id stands for: where several have it, the last one.
def lookup (variants : List Variant) (id : String) : Option Variant :=
  variants.reverse.find? fun variant => variant.id = id

theorem lookup_append (variants : List Variant) (variant : Variant) (id : String)
    : lookup (variants ++ [variant]) id = if variant.id = id then some variant else lookup variants id := by
  unfold lookup
  rw [List.reverse_append, List.reverse_singleton, List.singleton_append, List.find?_cons]
  by_cases h : variant.id = id
  . rw [decide_eq_true h, if_pos h]
  . rw [decide_eq_false h, if_neg h]

theorem mem_of_lookup {variants : List Variant} {id : String} {variant : Variant}
    (h : lookup variants id = some variant) : variant ∈ variants ∧ variant.id = id := by
  unfold lookup at h
  have hid := List.find?_some h
  exact ⟨List.mem_reverse.mp (List.mem_of_find?_eq_some h), by simpa using hid⟩

theorem lookup_isSome {variants : List Variant} {id : String}
    : (lookup variants id).isSome = true ↔ ∃ variant ∈ variants, variant.id = id := by
  unfold lookup
  rw [List.find?_isSome]
  simp

theorem lookup_of_mem {variants : List Variant} (hnodup : (variants.map Variant.id).Nodup) {variant : Variant}
    (h : variant ∈ variants) : lookup variants variant.id = some variant := by
  cases hfound : lookup variants variant.id with
  | none =>
    have hsome := lookup_isSome.mpr ⟨variant, h, rfl⟩
    rw [hfound] at hsome
    cases hsome
  | some found =>
    obtain ⟨hmem, hid⟩ := mem_of_lookup hfound
    rw [List.inj_on_of_nodup_map hnodup hmem h hid]

theorem contains_insert_iff {set : SortedSet String} {k k' : String}
    : SortedSet.contains (set.insert k ()) k' = true ↔ set.contains k' = true ∨ k' = k := by
  unfold SortedSet.contains
  rw [SortedMap.get?_insert]
  split
  . next h => simp [h]
  . next h => simp [h]

def ofTier (tier : Tier) (variants : List Variant) : List Variant := variants.filter (·.tiers.contains tier)

theorem ofTier_append_singleton (tier : Tier) (variants : List Variant) (variant : Variant)
    : ofTier tier (variants ++ [variant])
        =
      if variant.tiers.contains tier then ofTier tier variants ++ [variant] else ofTier tier variants := by
  unfold ofTier
  rw [List.filter_append, List.filter_singleton]
  cases variant.tiers.contains tier with
  | true => rfl
  | false => apply List.append_nil

-- What the loop over the assets knows once it has passed some variants.
structure Gathered.Passed (gathered : Gathered) (variants : List Variant) : Prop where
  found : ∀ id, gathered.variants.get? id = lookup variants id
  ids : ∀ id, gathered.variantIds.contains id = true ↔ ∃ variant ∈ variants, variant.id = id
  paths : ∀ path, gathered.paths.contains path = true ↔ ∃ variant ∈ variants, variant.path = path
  total : gathered.totalBytes.toNat = min (Measure.transferBytes.exact variants) largest
  totals : ∀ (tier : Tier) (measure : Measure), (measure.ofTotals (gathered.tierTotals tier).toTotals).toNat
      = min (measure.exact (ofTier tier variants)) largest
  counts : ∀ tier, (gathered.tierTotals tier).variants = (ofTier tier variants).length
  relative : gathered.issues = [] → ∀ variant ∈ variants, isRelativePath variant.path = true
  nodupIds : gathered.issues = [] → (variants.map Variant.id).Nodup
  nodupPaths : gathered.issues = [] → (variants.map Variant.path).Nodup

namespace Gathered

theorem contains_uniqueTiers (variant : Variant) (tier : Tier)
    : (uniqueTiers variant).contains tier = variant.tiers.contains tier := by
  unfold uniqueTiers
  rw [Bool.eq_iff_iff, List.contains_iff_mem, List.contains_iff_mem, List.mem_filter, List.contains_iff_mem]
  cases tier <;> simp [Tier.all]

theorem passed_start : start.Passed [] where
  found _ := rfl
  ids id := by simp [start]
  paths path := by simp [start]
  total := rfl
  totals tier measure := by
    simp only [start, Measure.ofTotals_zero]
    rfl
  counts _ := rfl
  relative _ := by simp
  nodupIds _ := List.nodup_nil
  nodupPaths _ := List.nodup_nil

theorem exists_mem_append_singleton {items : List Variant} {item : Variant} {p : Variant → Prop}
    : (∃ other ∈ items ++ [item], p other) ↔ (∃ other ∈ items, p other) ∨ p item := by
  simp only [List.mem_append, List.mem_singleton, or_and_right, exists_or, exists_eq_left]

theorem nodup_append_singleton {items : List String} {item : String} (hnodup : items.Nodup) (hitem : item ∉ items)
    : (items ++ [item]).Nodup := by
  rw [List.nodup_append_comm, List.singleton_append, List.nodup_cons]
  exact ⟨hitem, hnodup⟩

variable {debug : String → String} {gathered : Gathered} {variants : List Variant}

theorem Passed.addVariant (h : gathered.Passed variants) (variant : Variant)
    : (gathered.addVariant debug variant).Passed (variants ++ [variant]) := by
  have hissues : (gathered.addVariant debug variant).issues = []
      → gathered.issues = [] ∧ isRelativePath variant.path = true ∧ gathered.variantIds.contains variant.id = false
        ∧ gathered.paths.contains variant.path = false := by
    intro hnil
    simp only [Gathered.addVariant, checkVariant, validateRelativePath, List.append_eq_nil_iff,
      issueUnless_eq_nil, Bool.not_eq_true'] at hnil
    obtain ⟨hbefore, ⟨⟨⟨⟨⟨⟨⟨-, hpath⟩, -⟩, hid⟩, hdeclared⟩, -⟩, -⟩, -⟩⟩ := hnil
    exact ⟨hbefore, hpath, hid, hdeclared⟩
  refine ⟨?_, ?_, ?_, ?_, ?_, ?_, ?_, ?_, ?_⟩
  . intro id
    rw [lookup_append]
    simp only [Gathered.addVariant, SortedMap.get?_insert, h.found]
    split
    . next hsame => rw [if_pos hsame.symm]
    . next hother => rw [if_neg (Ne.symm hother)]
  . intro id
    change SortedSet.contains (gathered.variantIds.insert variant.id ()) id = true ↔ _
    rw [contains_insert_iff, h.ids, exists_mem_append_singleton, @eq_comm _ id]
  . intro path
    change SortedSet.contains (gathered.paths.insert variant.path ()) path = true ↔ _
    rw [contains_insert_iff, h.paths, exists_mem_append_singleton, @eq_comm _ path]
  . simp only [Gathered.addVariant, toNat_saturatingAdd, h.total, Measure.exact_append, Measure.exact_singleton]
    simp only [Measure.ofVariant]
    omega
  . intro tier measure
    simp only [Gathered.addVariant, contains_uniqueTiers, ofTier_append_singleton]
    split
    . exact Measure.ofTotals_add_of_eq (h.totals tier measure) variant
    . exact h.totals tier measure
  . intro tier
    simp only [Gathered.addVariant, contains_uniqueTiers, ofTier_append_singleton]
    split
    . rw [List.length_append, List.length_singleton, h.counts]
    . exact h.counts tier
  . intro hnil other hother
    obtain ⟨hbefore, hpath, -⟩ := hissues hnil
    rw [List.mem_append, List.mem_singleton] at hother
    cases hother with
    | inl hold => exact h.relative hbefore other hold
    | inr hnew => exact hnew ▸ hpath
  . intro hnil
    obtain ⟨hbefore, -, hid, -⟩ := hissues hnil
    rw [List.map_append]
    apply nodup_append_singleton (h.nodupIds hbefore)
    intro hmem
    have hseen := (h.ids variant.id).mpr (List.mem_map.mp hmem)
    rw [hid] at hseen
    cases hseen
  . intro hnil
    obtain ⟨hbefore, -, -, hpath⟩ := hissues hnil
    rw [List.map_append]
    apply nodup_append_singleton (h.nodupPaths hbefore)
    intro hmem
    have hseen := (h.paths variant.path).mpr (List.mem_map.mp hmem)
    rw [hpath] at hseen
    cases hseen

theorem Passed.addVariants (h : gathered.Passed variants) (more : List Variant)
    : (more.foldl (Gathered.addVariant debug) gathered).Passed (variants ++ more) := by
  induction more generalizing gathered variants with
  | nil =>
    rw [List.append_nil]
    exact h
  | cons variant more ih =>
    rw [List.foldl_cons, List.append_cons]
    exact ih (h.addVariant variant)

theorem Passed.addAsset (h : gathered.Passed variants) (asset : Asset)
    : (gathered.addAsset debug asset).Passed (variants ++ asset.variants) := by
  unfold Gathered.addAsset
  apply Passed.addVariants
  -- Beside the variants an asset only adds to the issues and to the ids of the assets.
  have hissues : gathered.issues ++ checkAsset debug gathered asset = [] → gathered.issues = [] :=
    fun hnil => (List.append_eq_nil_iff.mp hnil).1
  exact ⟨h.found, h.ids, h.paths, h.total, h.totals, h.counts, fun hnil => h.relative (hissues hnil),
    fun hnil => h.nodupIds (hissues hnil), fun hnil => h.nodupPaths (hissues hnil)⟩

theorem passed_gather (debug : String → String) (manifest : AssetManifest)
    : (gather debug manifest.assets).Passed manifest.variants := by
  have hfold : ∀ (assets : List Asset) (gathered : Gathered) (variants : List Variant), gathered.Passed variants
      → (assets.foldl (addAsset debug) gathered).Passed (variants ++ assets.flatMap Asset.variants) := by
    intro assets
    induction assets with
    | nil =>
      intro gathered variants h
      simpa using h
    | cons asset assets ih =>
      intro gathered variants h
      rw [List.foldl_cons, List.flatMap_cons, ← List.append_assoc]
      exact ih _ _ (h.addAsset asset)
  have hstart := hfold manifest.assets start [] passed_start
  rwa [List.nil_append] at hstart

end Gathered

def AssetManifest.spentOn (manifest : AssetManifest) (budget : BudgetScope) : List Variant :=
  budget.variants.eraseDups.filterMap (lookup manifest.variants)

theorem eraseDups_append_singleton (items : List String) (item : String)
    : (items ++ [item]).eraseDups = if item ∈ items then items.eraseDups else items.eraseDups ++ [item] := by
  rw [List.eraseDups_append]
  by_cases h : item ∈ items
  . simp [h, List.removeAll]
  . simp [h, List.removeAll, List.eraseDups_cons]

-- What the loop over a budget knows once it has passed some ids.
structure Spending.Passed (variants : List Variant) (spending : Spending) (ids : List String) : Prop where
  seen : ∀ id, spending.seen.contains id = true ↔ id ∈ ids
  totals : ∀ measure : Measure, (measure.ofTotals spending.totals).toNat
      = min (measure.exact (ids.eraseDups.filterMap (lookup variants))) largest
  found : spending.issues = [] → ∀ id ∈ ids, (lookup variants id).isSome = true

section

variable {map : SortedMap String Variant} {variants : List Variant} (hmap : ∀ id, map.get? id = lookup variants id)

include hmap

theorem Spending.Passed.spend {spending : Spending} {ids : List String} (h : spending.Passed variants ids)
    (budget : BudgetScope) (id : String) : (spend map budget spending id).Passed variants (ids ++ [id]) := by
  have hseen : ∀ other, SortedSet.contains (spending.seen.insert id ()) other = true ↔ other ∈ ids ++ [id] := by
    intro other
    rw [contains_insert_iff, h.seen, List.mem_append, List.mem_singleton]
  unfold Inspect.spend
  by_cases hid : spending.seen.contains id = true
  . rw [if_pos hid]
    have hmem := (h.seen id).mp hid
    refine ⟨?_, ?_, ?_⟩
    . intro other
      rw [h.seen, List.mem_append, List.mem_singleton]
      constructor
      . exact .inl
      . rintro (hother | rfl)
        . exact hother
        . exact hmem
    . intro measure
      rw [eraseDups_append_singleton, if_pos hmem]
      exact h.totals measure
    . intro hnil
      simp at hnil
  . rw [if_neg hid]
    have hmem : id ∉ ids := fun hmem => hid ((h.seen id).mpr hmem)
    rw [hmap]
    cases hfound : lookup variants id with
    | none =>
      refine ⟨hseen, ?_, ?_⟩
      . intro measure
        rw [eraseDups_append_singleton, if_neg hmem, List.filterMap_append, List.filterMap_cons_none hfound,
          List.filterMap_nil, List.append_nil]
        exact h.totals measure
      . intro hnil
        simp at hnil
    | some variant =>
      refine ⟨hseen, ?_, ?_⟩
      . intro measure
        rw [eraseDups_append_singleton, if_neg hmem, List.filterMap_append, List.filterMap_cons_some hfound,
          List.filterMap_nil]
        exact Measure.ofTotals_add_of_eq (h.totals measure) variant
      . intro hnil other hother
        rw [List.mem_append, List.mem_singleton] at hother
        cases hother with
        | inl hold => exact h.found (List.append_eq_nil_iff.mp hnil).1 other hold
        | inr hnew => rw [hnew, hfound, Option.isSome_some]

theorem passed_spent (budget : BudgetScope) : (spent map budget).Passed variants budget.variants := by
  have hfold : ∀ ids : List String,
      (ids.foldl (spend map budget) ⟨[], .empty, .zero⟩).Passed variants ids := by
    intro ids
    induction ids using List.reverseRecOn with
    | nil =>
      refine ⟨fun id => by simp, ?_, fun _ => by simp⟩
      intro measure
      rw [List.foldl_nil, Measure.ofTotals_zero]
      rfl
    | append_singleton ids id ih =>
      rw [List.foldl_append, List.foldl_cons, List.foldl_nil]
      exact ih.spend hmap budget id
  exact hfold budget.variants

end

theorem foldl_addBudget (debug : String → String) (map : SortedMap String Variant) (budgets : List BudgetScope)
    (issues : List Issue) (ids : SortedSet String) (results : List BudgetResult)
    : (budgets.foldl (addBudget debug map) (issues, ids, results)).2.2 = results ++ budgets.map (budgetResult map)
        ∧
      ((budgets.foldl (addBudget debug map) (issues, ids, results)).1 = []
        → issues = [] ∧ ∀ budget ∈ budgets, (spent map budget).issues = []) := by
  induction budgets generalizing issues ids results with
  | nil => simp
  | cons budget budgets ih =>
    rw [List.foldl_cons]
    obtain ⟨hresults, hissues⟩ := ih (issues ++ checkBudget debug ids budget ++ (spent map budget).issues)
      (ids.insert budget.id ()) (results ++ [budgetResult map budget])
    constructor
    . rw [List.append_assoc results] at hresults
      exact hresults
    . intro hnil
      obtain ⟨hbefore, hlater⟩ := hissues hnil
      simp only [List.append_eq_nil_iff] at hbefore
      refine ⟨hbefore.1.1, ?_⟩
      intro other hother
      cases List.mem_cons.mp hother with
      | inl hfirst => exact hfirst ▸ hbefore.2
      | inr hrest => exact hlater other hrest

theorem checkBudgets_results (debug : String → String) (map : SortedMap String Variant) (budgets : List BudgetScope)
    : (checkBudgets debug map budgets).2.2 = budgets.map (budgetResult map) :=
  (foldl_addBudget debug map budgets [] .empty []).1

theorem checkBudgets_issues {debug : String → String} {map : SortedMap String Variant} {budgets : List BudgetScope}
    (h : (checkBudgets debug map budgets).1 = []) : ∀ budget ∈ budgets, (spent map budget).issues = [] :=
  ((foldl_addBudget debug map budgets [] .empty []).2 h).2

-- A limit of a budget, and what is spent of its measure.
inductive AssetManifest.Limits (manifest : AssetManifest) : Nat → Nat → Prop where
  | of {budget : BudgetScope} {limit : UInt64} (measure : Measure)
    : budget ∈ manifest.budgetScopes → limit ∈ measure.ofLimits budget.limits
      → Limits manifest limit.toNat (measure.exact (manifest.spentOn budget))

def AssetManifest.KeepsBudgets (manifest : AssetManifest) : Prop :=
  ∀ limit sum, manifest.Limits limit sum → sum ≤ limit

-- The saturating sums tell whether every budget is kept.
def AssetManifest.Comparable (manifest : AssetManifest) : Prop :=
  (∃ limit sum, manifest.Limits limit sum ∧ limit < largest ∧ limit < sum)
    ∨ ∀ sum, manifest.Limits largest sum → sum ≤ largest

theorem budgetsPass_iff (machine : Machine) (manifest : AssetManifest) (root : Option (List (OsName × Entry)))
    : (inspect machine manifest root).budgetsPass = true
        ↔
      ∀ limit sum, manifest.Limits limit sum → min sum largest ≤ limit := by
  have hresult : ∀ budget : BudgetScope,
      (budgetResult (gather machine.debug manifest.assets).variants budget).passed = true
        ↔ ∀ measure : Measure, ∀ limit ∈ measure.ofLimits budget.limits,
          min (measure.exact (manifest.spentOn budget)) largest ≤ limit.toNat := by
    intro budget
    have hpassed := passed_spent (Gathered.passed_gather machine.debug manifest).found budget
    unfold budgetResult
    dsimp only
    rw [Measure.within_iff]
    simp only [hpassed.totals, AssetManifest.spentOn]
  have hpass : (inspect machine manifest root).budgetsPass
      = (manifest.budgetScopes.map (budgetResult (gather machine.debug manifest.assets).variants)).all
        BudgetResult.passed := by
    rw [← checkBudgets_results machine.debug]
    rfl
  rw [hpass, List.all_map, List.all_eq_true]
  constructor
  . rintro h _ _ ⟨measure, hbudget, hlimit⟩
    exact (hresult _).mp (h _ hbudget) measure _ hlimit
  . intro h budget hbudget
    exact (hresult budget).mpr fun measure limit hlimit => h _ _ (.of measure hbudget hlimit)

theorem budgetsPass_exact (machine : Machine) (manifest : AssetManifest) (root : Option (List (OsName × Entry)))
    : ((inspect machine manifest root).budgetsPass = true ↔ manifest.KeepsBudgets) ↔ manifest.Comparable := by
  have hlargest : ∀ limit sum, manifest.Limits limit sum → limit ≤ largest := by
    rintro _ _ ⟨_, _, _⟩
    apply toNat_le_largest
  rw [budgetsPass_iff]
  unfold AssetManifest.KeepsBudgets AssetManifest.Comparable
  constructor
  . intro h
    by_cases hsome : ∃ limit sum, manifest.Limits limit sum ∧ limit < largest ∧ limit < sum
    . exact .inl hsome
    . refine .inr fun sum hsum => h.mp ?_ largest sum hsum
      intro limit sum hlimits
      have hle := hlargest limit sum hlimits
      have hnot : ¬ (limit < largest ∧ limit < sum) := fun hboth => hsome ⟨limit, sum, hlimits, hboth⟩
      omega
  . rintro (⟨limit, sum, hlimits, hlt, hover⟩ | hall)
    . constructor
      . intro h
        have hmin := h limit sum hlimits
        omega
      . intro h
        have hle := h limit sum hlimits
        omega
    . constructor
      . intro h limit sum hlimits
        have hmin := h limit sum hlimits
        have hle := hlargest limit sum hlimits
        by_cases hsame : limit = largest
        . rw [hsame] at hlimits ⊢
          exact hall sum hlimits
        . omega
      . intro h limit sum hlimits
        have hle := h limit sum hlimits
        omega

-- The sums of a report are the exact ones as far as these fit.
def InspectionReport.SumsOf (report : InspectionReport) (variants : List Variant) : Prop :=
  report.totalBytes.toNat = min (Measure.transferBytes.exact variants) largest
    ∧ ∀ tier, (report.tierTotals tier).variants = (ofTier tier variants).length
      ∧ ∀ measure : Measure, (measure.ofTotals (report.tierTotals tier).toTotals).toNat
        = min (measure.exact (ofTier tier variants)) largest

theorem inspect_sums (machine : Machine) (manifest : AssetManifest) (root : Option (List (OsName × Entry)))
    : (inspect machine manifest root).SumsOf manifest.variants := by
  have h := Gathered.passed_gather machine.debug manifest
  exact ⟨h.total, fun tier => ⟨h.counts tier, h.totals tier⟩⟩

/-! The targets of a baseline -/

def Reads (read : String → Except InspectError AssetManifest) (target : TargetReference) (manifest : AssetManifest)
    : Prop :=
  read target.manifest = .ok manifest ∧ manifest.work.id = target.id

-- The reports of targets that lead to manifests, each target under an id of its own.
def Inspected (machine : Machine) (read : String → Except InspectError AssetManifest) (ids : List String)
    (targets : List TargetReference) (reports : List InspectionReport) : Prop :=
  (targets.map TargetReference.id).Nodup ∧ (∀ target ∈ targets, target.id ∉ ids)
    ∧ ∃ manifests, List.Forall₂ (Reads read) targets manifests
      ∧ reports = manifests.map fun manifest => inspect machine manifest none

variable {machine : Machine} {read : String → Except InspectError AssetManifest}

theorem inspected_cons {ids : List String}
    {target : TargetReference} {rest : List TargetReference} {reports : List InspectionReport}
    : Inspected machine read ids (target :: rest) reports
        ↔
      target.id ∉ ids ∧ ∃ manifest others, Reads read target manifest
        ∧ Inspected machine read (target.id :: ids) rest others ∧ reports = inspect machine manifest none :: others := by
  unfold Inspected
  rw [List.map_cons, List.nodup_cons]
  constructor
  . rintro ⟨⟨hfirst, hnodup⟩, hfresh, manifests, hmanifests, rfl⟩
    cases hmanifests with
    | cons hread hrest =>
      refine ⟨hfresh target List.mem_cons_self, _, _, hread, ⟨hnodup, ?_, _, hrest, rfl⟩, rfl⟩
      intro other hother hmem
      cases List.mem_cons.mp hmem with
      | inl hsame => exact hfirst (hsame ▸ List.mem_map_of_mem hother)
      | inr hold => exact hfresh other (List.mem_cons_of_mem _ hother) hold
  . rintro ⟨hnew, manifest, _, hread, ⟨hnodup, hfresh, manifests, hrest, rfl⟩, rfl⟩
    refine ⟨⟨?_, hnodup⟩, ?_, manifest :: manifests, .cons hread hrest, rfl⟩
    . intro hmem
      obtain ⟨other, hother, hsame⟩ := List.mem_map.mp hmem
      exact hfresh other hother (hsame ▸ List.mem_cons_self)
    . intro other hother hmem
      cases List.mem_cons.mp hother with
      | inl hfirst => exact hnew (hfirst ▸ hmem)
      | inr hlater => exact hfresh other hlater (List.mem_cons_of_mem _ hmem)

theorem inspectTargets_ok {ids : List String} {targets : List TargetReference} {reports : List InspectionReport}
    : inspectTargets machine read ids targets = .ok reports ↔ Inspected machine read ids targets reports := by
  induction targets generalizing ids reports with
  | nil =>
    unfold inspectTargets Inspected
    simp [eq_comm]
  | cons target rest ih =>
    unfold inspectTargets
    rw [inspected_cons]
    by_cases hseen : ids.contains target.id = true
    . rw [if_pos hseen]
      exact iff_of_false nofun fun h => h.1 (List.contains_iff_mem.mp hseen)
    . rw [if_neg hseen]
      have hfresh : target.id ∉ ids := fun hmem => hseen (List.contains_iff_mem.mpr hmem)
      cases hread : read target.manifest with
      | error error =>
        apply iff_of_false nofun
        rintro ⟨-, manifest, _, hmanifest, -⟩
        cases hread.symm.trans hmanifest.1
      | ok manifest =>
        change (if manifest.work.id ≠ target.id then _ else _) = _ ↔ _
        by_cases hid : manifest.work.id = target.id
        . rw [if_neg (not_not.mpr hid)]
          cases hrest : inspectTargets machine read (target.id :: ids) rest with
          | error error =>
            apply iff_of_false nofun
            rintro ⟨-, _, others, -, hothers, -⟩
            cases hrest.symm.trans (ih.mpr hothers)
          | ok others =>
            constructor
            . intro h
              cases h
              exact ⟨hfresh, manifest, others, ⟨hread, hid⟩, ih.mp hrest, rfl⟩
            . rintro ⟨-, _, _, hmanifest, hothers, rfl⟩
              cases hread.symm.trans hmanifest.1
              cases hrest.symm.trans (ih.mpr hothers)
              rfl
        . rw [if_pos hid]
          apply iff_of_false nofun
          rintro ⟨-, _, _, hmanifest, -, -⟩
          cases hread.symm.trans hmanifest.1
          exact hid hmanifest.2

theorem checkedSum_eq (values : List UInt64) (sum : UInt64)
    : checkedSum values sum = none ∧ 2 ^ 64 ≤ sum.toNat + (values.map UInt64.toNat).sum
        ∨
      ∃ result, checkedSum values sum = some result ∧ result.toNat = sum.toNat + (values.map UInt64.toNat).sum := by
  induction values generalizing sum with
  | nil => exact .inr ⟨sum, rfl, by simp⟩
  | cons value rest ih =>
    unfold checkedSum
    rw [List.map_cons, List.sum_cons]
    split
    . next hfits =>
      have hadd : (sum + value).toNat = sum.toNat + value.toNat := by
        rw [UInt64.toNat_add, Nat.mod_eq_of_lt hfits]
      rw [← Nat.add_assoc, ← hadd]
      exact ih (sum + value)
    . next hover => exact .inl ⟨rfl, by omega⟩

-- The bytes that a manifest declares, and what its report states of them.
def AssetManifest.declaredBytes (manifest : AssetManifest) : Nat := Measure.transferBytes.exact manifest.variants

def AssetManifest.reportedBytes (manifest : AssetManifest) : Nat := min manifest.declaredBytes largest

-- The manifests of a target set whose targets can all be inspected.
def TargetSet.LeadsTo (targetSet : TargetSet) (plan : Except InspectError String)
    (read : String → Except InspectError AssetManifest) (manifests : List AssetManifest) : Prop :=
  (∃ digest, plan = .ok digest) ∧ (targetSet.targets.map TargetReference.id).Nodup
    ∧ List.Forall₂ (Reads read) targetSet.targets manifests

-- No addition panics, and the total is the exact sum whenever this fits.
def BaselineExact (machine : Machine) (plan : Except InspectError String)
    (read : String → Except InspectError AssetManifest) (targetSet : TargetSet) : Prop :=
  baseline machine plan read targetSet ≠ none
    ∧ ∀ report manifests, baseline machine plan read targetSet = some (.ok report)
      → targetSet.LeadsTo plan read manifests → (manifests.map AssetManifest.declaredBytes).sum ≤ largest
      → report.totalBytes.toNat = (manifests.map AssetManifest.declaredBytes).sum

theorem baseline_of_leadsTo {plan : Except InspectError String}
    {targetSet : TargetSet} {manifests : List AssetManifest} (h : targetSet.LeadsTo plan read manifests)
    : baseline machine plan read targetSet = none
          ∧ largest < (manifests.map AssetManifest.reportedBytes).sum
        ∨
      ∃ report, baseline machine plan read targetSet = some (.ok report)
        ∧ report.totalBytes.toNat = (manifests.map AssetManifest.reportedBytes).sum := by
  obtain ⟨⟨digest, rfl⟩, hnodup, hreads⟩ := h
  have hinspected : inspectTargets machine read [] targetSet.targets
      = .ok (manifests.map fun manifest => inspect machine manifest none) :=
    inspectTargets_ok.mpr ⟨hnodup, fun _ _ => List.not_mem_nil, manifests, hreads, rfl⟩
  have htotals : (((manifests.map fun manifest => inspect machine manifest none).map
      InspectionReport.totalBytes).map UInt64.toNat) = manifests.map AssetManifest.reportedBytes := by
    rw [List.map_map, List.map_map]
    apply List.map_congr_left
    intro manifest _
    exact (inspect_sums machine manifest none).1
  have hsum := checkedSum_eq ((manifests.map fun manifest => inspect machine manifest none).map
    InspectionReport.totalBytes) 0
  rw [htotals, UInt64.toNat_zero, Nat.zero_add] at hsum
  unfold baseline
  dsimp only
  rw [hinspected]
  dsimp only
  unfold totalled
  rcases hsum with ⟨hnone, hover⟩ | ⟨result, hsome, hresult⟩
  . rw [hnone]
    exact .inl ⟨rfl, by unfold largest; omega⟩
  . rw [hsome]
    exact .inr ⟨_, rfl, hresult⟩

theorem leadsTo_of_none {plan : Except InspectError String} {targetSet : TargetSet}
    (h : baseline machine plan read targetSet = none) : ∃ manifests, targetSet.LeadsTo plan read manifests := by
  unfold baseline at h
  cases plan with
  | error error => cases h
  | ok digest =>
    dsimp only at h
    cases hinspected : inspectTargets machine read [] targetSet.targets with
    | error error =>
      rw [hinspected] at h
      cases h
    | ok reports =>
      obtain ⟨hnodup, -, manifests, hreads, -⟩ := inspectTargets_ok.mp hinspected
      exact ⟨manifests, ⟨digest, rfl⟩, hnodup, hreads⟩

theorem sum_reported_le (manifests : List AssetManifest)
    : (manifests.map AssetManifest.reportedBytes).sum ≤ (manifests.map AssetManifest.declaredBytes).sum
        ∧ ((manifests.map AssetManifest.declaredBytes).sum ≤ largest
          → (manifests.map AssetManifest.reportedBytes).sum = (manifests.map AssetManifest.declaredBytes).sum) := by
  induction manifests with
  | nil => exact ⟨Nat.le_refl _, fun _ => rfl⟩
  | cons manifest rest ih =>
    obtain ⟨hle, heq⟩ := ih
    rw [List.map_cons, List.map_cons, List.sum_cons, List.sum_cons]
    unfold AssetManifest.reportedBytes at hle heq ⊢
    constructor
    . omega
    . intro hfits
      have heq := heq (by omega)
      omega

theorem baselineExact_iff {plan : Except InspectError String} {targetSet : TargetSet}
    : BaselineExact machine plan read targetSet
        ↔
      ∀ manifests, targetSet.LeadsTo plan read manifests
        → (manifests.map AssetManifest.reportedBytes).sum ≤ largest := by
  constructor
  . rintro ⟨hsome, -⟩ manifests hleads
    rcases baseline_of_leadsTo hleads with ⟨hnone, -⟩ | ⟨report, -, htotal⟩
    . exact absurd hnone hsome
    . rw [← htotal]
      apply toNat_le_largest
  . intro h
    constructor
    . intro hnone
      obtain ⟨manifests, hleads⟩ := leadsTo_of_none hnone
      have hle := h manifests hleads
      rcases baseline_of_leadsTo hleads with ⟨-, hover⟩ | ⟨report, hsome, -⟩
      . omega
      . cases hnone.symm.trans hsome
    . intro report manifests hreport hleads hfits
      rcases @baseline_of_leadsTo machine _ _ _ _ hleads with ⟨hnone, -⟩ | ⟨other, hother, htotal⟩
      . cases hnone.symm.trans hreport
      . cases hother.symm.trans hreport
        rw [htotal, (sum_reported_le manifests).2 hfits]

end Inspect

end Pliego
