import Pliego.Router.Resolve

/-!
The order in which routes, scopes and declarations are registered does not matter: the sealed graph is
the same for every order.
-/

namespace Pliego

open Bytes Text Sorting

namespace Router

variable {unicode : Unicode} {sha256 : Sha256}

namespace Registration

def declaration (registration : Registration) : Option (String × MiddlewareCapabilities) :=
  match registration with
  | .declareMiddleware id capabilities => some (id, capabilities)
  | _ => none

def preRouteId (registration : Registration) : Option String :=
  match registration with
  | .preRouteMiddleware id => some id
  | _ => none

def errorBoundaryId (registration : Registration) : Option String :=
  match registration with
  | .errorBoundary id => some id
  | _ => none

def scopeSpec (registration : Registration) : Option RouteScopeSpec :=
  match registration with
  | .scope spec => some spec
  | _ => none

def routeSpec (registration : Registration) : Option RouteSpec :=
  match registration with
  | .route spec => some spec
  | _ => none

end Registration

namespace RouteGraphBuilder

def registerAll (builder : RouteGraphBuilder) (registrations : List Registration)
    : Except RouteError RouteGraphBuilder :=
  registrations.foldlM register builder

def build (unicode : Unicode) (sha256 : Sha256) (builder : RouteGraphBuilder)
    (registrations : List Registration) : Except RouteError RouteGraph := do
  let builder ← builder.registerAll registrations
  builder.sealGraph unicode sha256

-- What `declareMiddleware` does to the declarations.
def declare (declarations : SortedMap String MiddlewareCapabilities)
    (declaration : String × MiddlewareCapabilities)
    : Except RouteError (SortedMap String MiddlewareCapabilities) := do
  validateBehaviorId declaration.1 .middleware
  if (declarations.get? declaration.1).isSome then
    .error (.duplicateMiddlewareDeclaration declaration.1)
  else
    .ok (declarations.insert declaration.1 declaration.2)

theorem declareMiddleware_ok {builder builder' : RouteGraphBuilder} {id : String}
    {capabilities : MiddlewareCapabilities}
    : builder.declareMiddleware id capabilities = .ok builder'
      ↔ ∃ declarations, declare builder.middlewareCapabilities (id, capabilities) = .ok declarations
        ∧ builder' = { builder with middlewareCapabilities := declarations } := by
  unfold declareMiddleware declare
  constructor
  . intro h
    obtain ⟨hid, h⟩ := Except.bind_unit_eq_ok.mp h
    split at h
    . cases h
    . next hfresh =>
      cases h
      exact ⟨_, Except.bind_unit_eq_ok.mpr ⟨hid, if_neg hfresh⟩, rfl⟩
  . rintro ⟨declarations, h, rfl⟩
    obtain ⟨hid, h⟩ := Except.bind_unit_eq_ok.mp h
    split at h
    . cases h
    . next hfresh =>
      cases h
      exact Except.bind_unit_eq_ok.mpr ⟨hid, if_neg hfresh⟩

theorem registerAll_ok {builder builder' : RouteGraphBuilder} {registrations : List Registration}
    : builder.registerAll registrations = .ok builder'
      ↔ builder'.maxRoutes = builder.maxRoutes
        ∧ builder'.routes = builder.routes ++ registrations.filterMap Registration.routeSpec
        ∧ builder'.scopes = builder.scopes ++ registrations.filterMap Registration.scopeSpec
        ∧ (registrations.filterMap Registration.preRouteId).foldlM pushMiddleware
          builder.preRouteMiddleware = .ok builder'.preRouteMiddleware
        ∧ (registrations.filterMap Registration.errorBoundaryId).foldlM pushErrorBoundary
          builder.errorBoundaries = .ok builder'.errorBoundaries
        ∧ (registrations.filterMap Registration.declaration).foldlM declare
          builder.middlewareCapabilities = .ok builder'.middlewareCapabilities := by
  unfold registerAll
  induction registrations generalizing builder with
  | nil =>
    simp only [List.foldlM_nil, List.filterMap_nil, List.append_nil, pure, Except.pure, Except.ok.injEq]
    constructor
    . rintro rfl
      simp
    . rintro ⟨h₁, h₂, h₃, h₄, h₅, h₆⟩
      cases builder
      cases builder'
      simp_all
  | cons registration registrations ih =>
    rw [List.foldlM_cons, Except.bind_eq_ok]
    simp only [ih]
    cases registration with
    | declareMiddleware id capabilities =>
      simp only [register, declareMiddleware_ok, Registration.routeSpec, Registration.scopeSpec,
        Registration.preRouteId, Registration.errorBoundaryId, Registration.declaration,
        List.filterMap_cons, List.foldlM_cons, Except.bind_eq_ok]
      constructor
      . rintro ⟨_, ⟨declarations, hdeclared, rfl⟩, h₁, h₂, h₃, h₄, h₅, h₆⟩
        exact ⟨h₁, h₂, h₃, h₄, h₅, declarations, hdeclared, h₆⟩
      . rintro ⟨h₁, h₂, h₃, h₄, h₅, declarations, hdeclared, h₆⟩
        exact ⟨_, ⟨declarations, hdeclared, rfl⟩, h₁, h₂, h₃, h₄, h₅, h₆⟩
    | preRouteMiddleware id =>
      simp only [register, withPreRouteMiddleware, Registration.routeSpec, Registration.scopeSpec,
        Registration.preRouteId, Registration.errorBoundaryId, Registration.declaration,
        List.filterMap_cons, List.foldlM_cons, Except.bind_eq_ok, Except.ok.injEq]
      constructor
      . rintro ⟨_, ⟨ids, hids, rfl⟩, h₁, h₂, h₃, h₄, h₅, h₆⟩
        exact ⟨h₁, h₂, h₃, ⟨ids, hids, h₄⟩, h₅, h₆⟩
      . rintro ⟨h₁, h₂, h₃, ⟨ids, hids, h₄⟩, h₅, h₆⟩
        exact ⟨_, ⟨ids, hids, rfl⟩, h₁, h₂, h₃, h₄, h₅, h₆⟩
    | errorBoundary id =>
      simp only [register, withErrorBoundary, Registration.routeSpec, Registration.scopeSpec,
        Registration.preRouteId, Registration.errorBoundaryId, Registration.declaration,
        List.filterMap_cons, List.foldlM_cons, Except.bind_eq_ok, Except.ok.injEq]
      constructor
      . rintro ⟨_, ⟨ids, hids, rfl⟩, h₁, h₂, h₃, h₄, h₅, h₆⟩
        exact ⟨h₁, h₂, h₃, h₄, ⟨ids, hids, h₅⟩, h₆⟩
      . rintro ⟨h₁, h₂, h₃, h₄, ⟨ids, hids, h₅⟩, h₆⟩
        exact ⟨_, ⟨ids, hids, rfl⟩, h₁, h₂, h₃, h₄, h₅, h₆⟩
    | scope spec =>
      simp only [register, withScope, Registration.routeSpec, Registration.scopeSpec,
        Registration.preRouteId, Registration.errorBoundaryId, Registration.declaration,
        List.filterMap_cons, Except.ok.injEq, exists_eq_left', List.append_assoc,
        List.singleton_append]
    | route spec =>
      simp only [register, withRoute, Registration.routeSpec, Registration.scopeSpec,
        Registration.preRouteId, Registration.errorBoundaryId, Registration.declaration,
        List.filterMap_cons, Except.ok.injEq, exists_eq_left', List.append_assoc,
        List.singleton_append]

theorem declare_comm {a b : String × MiddlewareCapabilities}
    {start next last : SortedMap String MiddlewareCapabilities} (ha : declare start a = .ok next)
    (hb : declare next b = .ok last)
    : ∃ other, declare start b = .ok other ∧ declare other a = .ok last := by
  unfold declare at ha hb ⊢
  obtain ⟨hvalidA, ha⟩ := Except.bind_unit_eq_ok.mp ha
  obtain ⟨hvalidB, hb⟩ := Except.bind_unit_eq_ok.mp hb
  split at ha
  . cases ha
  . next hfreshA =>
    cases ha
    split at hb
    . cases hb
    . next hfreshB =>
      cases hb
      rw [SortedMap.get?_insert] at hfreshB
      have hne : b.1 ≠ a.1 := by
        intro hsame
        rw [if_pos hsame] at hfreshB
        exact hfreshB rfl
      rw [if_neg hne] at hfreshB
      refine ⟨start.insert b.1 b.2, Except.bind_unit_eq_ok.mpr ⟨hvalidB, if_neg hfreshB⟩,
        Except.bind_unit_eq_ok.mpr ⟨hvalidA, ?_⟩⟩
      rw [SortedMap.get?_insert, if_neg hne.symm, if_neg hfreshA]
      congr 1
      apply SortedMap.ext
      intro k
      simp only [SortedMap.get?_insert]
      by_cases hkA : k = a.1
      . have hkB : k ≠ b.1 := fun h => hne (h.symm.trans hkA)
        simp [hkA, hne.symm]
      . simp [hkA]

theorem scopeMap_ok {scopes : List RouteScopeSpec} {map : ScopeMap} (h : scopeMap scopes = .ok map)
    : (scopes.map RouteScopeSpec.id).Nodup
      ∧ ∀ id scope, map.get? id = some scope ↔ scope ∈ scopes ∧ scope.id = id := by
  have hfold : ∀ {start : ScopeMap},
      scopes.foldlM (fun map scope =>
        if (map.get? scope.id).isSome then
          .error (.duplicateScopeId scope.id)
        else
          .ok (map.insert scope.id scope)) start = Except.ok (ε := RouteError) map →
      (scopes.map RouteScopeSpec.id).Nodup
        ∧ (∀ scope ∈ scopes, start.get? scope.id = none)
        ∧ ∀ id scope, map.get? id = some scope ↔
          start.get? id = some scope ∨ (scope ∈ scopes ∧ scope.id = id) := by
    clear h
    induction scopes with
    | nil =>
      intro start h
      cases h
      simp
    | cons first scopes ih =>
      intro start h
      rw [List.foldlM_cons] at h
      obtain ⟨next, hnext, h⟩ := Except.bind_eq_ok.mp h
      split at hnext
      . cases hnext
      . next hfresh =>
        cases hnext
        obtain ⟨hnodup, hnew, hget⟩ := ih h
        have hfresh : start.get? first.id = none := by simpa using hfresh
        have hother : ∀ scope ∈ scopes, scope.id ≠ first.id := by
          intro scope hscope hsame
          have hnone := hnew scope hscope
          rw [SortedMap.get?_insert, if_pos hsame] at hnone
          cases hnone
        refine ⟨?_, ?_, ?_⟩
        . rw [List.map_cons, List.nodup_cons, List.mem_map]
          refine ⟨?_, hnodup⟩
          rintro ⟨scope, hscope, hsame⟩
          exact hother scope hscope hsame
        . intro scope hscope
          cases List.mem_cons.mp hscope with
          | inl hsame => rw [hsame]; exact hfresh
          | inr hmem =>
            have hnone := hnew scope hmem
            rw [SortedMap.get?_insert, if_neg (hother scope hmem)] at hnone
            exact hnone
        . intro id scope
          rw [hget, SortedMap.get?_insert, List.mem_cons]
          by_cases hid : id = first.id
          . subst hid
            rw [if_pos rfl, hfresh]
            constructor
            . rintro (hsome | hmem)
              . cases hsome
                exact .inr ⟨.inl rfl, rfl⟩
              . exact .inr ⟨.inr hmem.1, hmem.2⟩
            . rintro (hsome | ⟨hsame | hmem, hid⟩)
              . cases hsome
              . exact .inl (by rw [hsame])
              . exact .inr ⟨hmem, hid⟩
          . rw [if_neg hid]
            constructor
            . rintro (hsome | hmem)
              . exact .inl hsome
              . exact .inr ⟨.inr hmem.1, hmem.2⟩
            . rintro (hsome | ⟨hsame | hmem, hsameId⟩)
              . exact .inl hsome
              . rw [hsame] at hsameId
                exact absurd hsameId.symm hid
              . exact .inr ⟨hmem, hsameId⟩
  obtain ⟨hnodup, _, hget⟩ := hfold h
  refine ⟨hnodup, ?_⟩
  intro id scope
  rw [hget]
  simp

theorem sealGraph_of_perm {builder builder' : RouteGraphBuilder} {graph : RouteGraph}
    (hmax : builder'.maxRoutes = builder.maxRoutes) (hroutes : builder.routes.Perm builder'.routes)
    (hscopes : builder.scopes.Perm builder'.scopes)
    (hpre : builder'.preRouteMiddleware = builder.preRouteMiddleware)
    (hboundaries : builder'.errorBoundaries = builder.errorBoundaries)
    (hdeclared : builder'.middlewareCapabilities = builder.middlewareCapabilities)
    (h : builder.sealGraph unicode sha256 = .ok graph)
    : builder'.sealGraph unicode sha256 = .ok graph := by
  have hsealed := sealGraph_ok h
  have hids : (builder.routes.map RouteSpec.id).Nodup :=
    (sortBy_perm.map RouteSpec.id).nodup_iff.mp (Pairwise.ids_nodup hsealed.apart)
  have hkeys : (builder.routes.map canonicalRouteOrder).Nodup := by
    apply List.Nodup.of_map (fun key : RouteMethod ×ₗ (String ×ₗ String) => (ofLex (ofLex key).2).2)
    rw [List.map_map]
    exact hids
  have hscopeIds : (builder.scopes.map RouteScopeSpec.id).Nodup := by
    obtain ⟨map, hmap, _⟩ := hsealed.chains
    rw [hsealed.scopes] at hmap
    exact (sortBy_perm.map RouteScopeSpec.id).nodup_iff.mp (scopeMap_ok hmap).1
  unfold sealGraph sealSorted at h ⊢
  rw [hmax, ← hroutes.length_eq, ← hscopes.length_eq, ← sortBy_eq_of_perm hroutes hkeys,
    ← sortBy_eq_of_perm hscopes hscopeIds, hpre, hboundaries, hdeclared]
  exact h

theorem build_of_perm {builder : RouteGraphBuilder} {registrations registrations' : List Registration}
    {graph : RouteGraph} (hperm : registrations.Perm registrations')
    (hpre : registrations.filterMap Registration.preRouteId
      = registrations'.filterMap Registration.preRouteId)
    (hboundaries : registrations.filterMap Registration.errorBoundaryId
      = registrations'.filterMap Registration.errorBoundaryId)
    (h : builder.build unicode sha256 registrations = .ok graph)
    : builder.build unicode sha256 registrations' = .ok graph := by
  obtain ⟨sealed, hsealed, h⟩ := Except.bind_eq_ok.mp h
  obtain ⟨h₁, h₂, h₃, h₄, h₅, h₆⟩ := registerAll_ok.mp hsealed
  have hdeclared := foldlM_perm (f := declare) (fun a b start next last => declare_comm)
    (hperm.filterMap Registration.declaration) h₆
  refine Except.bind_eq_ok.mpr ⟨
    { sealed with
      routes := builder.routes ++ registrations'.filterMap Registration.routeSpec
      scopes := builder.scopes ++ registrations'.filterMap Registration.scopeSpec },
    registerAll_ok.mpr ⟨h₁, rfl, rfl, hpre ▸ h₄, hboundaries ▸ h₅, hdeclared⟩, ?_⟩
  refine sealGraph_of_perm ?_ ?_ ?_ ?_ ?_ ?_ h <;> try rfl
  . rw [h₂]
    exact (hperm.filterMap Registration.routeSpec).append_left _
  . rw [h₃]
    exact (hperm.filterMap Registration.scopeSpec).append_left _

end RouteGraphBuilder

end Router

end Pliego
