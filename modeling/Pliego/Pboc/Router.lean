import Pliego.Pboc.Manifest
import Pliego.Router.Plain

/-!
The router that a host builds from a validated manifest.
-/

namespace Pliego

open Bytes Text Sorting

namespace Pboc

open Router

inductive PbocRouterError where
  | manifest (error : PbocError)
  | graph (error : RouteError)
  | invalidRequest
  | resolve (error : ResolveError)

structure PbocRouter where
  graph : RouteGraph
  routes : SortedMap String PbocRoute

structure PbocRouteMatch where
  route : PbocRoute
  parameters : SortedMap String String

def PbocRoute.dynamic (route : RouteSpec) (functionId : String) (renderMode : RenderMode)
    (requiredFeatures : List FeatureRequirement) : PbocRoute :=
  { id := route.id
    method := route.method.text
    pattern := route.pattern.canonical
    kind := .dynamic
    assetPath := none
    functionId := some functionId
    renderMode := renderMode
    cachePolicyId := route.cachePolicy
    requiredFeatures := requiredFeatures }

def PbocRoute.spec (unicode : Unicode) (route : PbocRoute) : Except RouteError RouteSpec := do
  let method ← RouteMethod.new route.method
  let spec ← RouteSpec.new unicode route.id method route.pattern
  match route.cachePolicyId with
  | some cachePolicy => spec.withCachePolicy cachePolicy
  | none => .ok spec

namespace PbocRouter

def push (unicode : Unicode) (state : RouteGraphBuilder × SortedMap String PbocRoute)
    (route : PbocRoute) : Except RouteError (RouteGraphBuilder × SortedMap String PbocRoute) := do
  let spec ← route.spec unicode
  .ok (state.1.withRoute spec, state.2.insert route.id route)

def new (unicode : Unicode) (sha256 : Sha256) (manifest : PbocManifest)
    : Except PbocRouterError PbocRouter := do
  (validateManifest unicode manifest).mapError .manifest
  let builder ← (RouteGraphBuilder.withMaxRoutes (max manifest.routes.length 1)).mapError .graph
  let (builder, routes) ←
    (manifest.routes.foldlM (push unicode) (builder, .empty)).mapError .graph
  let graph ← (builder.sealGraph unicode sha256).mapError .graph
  .ok ⟨graph, routes⟩

-- `none` where the map of the routes lacks the route that the graph has found.
def resolve (unicode : Unicode) (router : PbocRouter) (method path : String)
    : Option (Except PbocRouterError PbocRouteMatch) :=
  match RouteMethod.new method with
  | .error _ => some (.error .invalidRequest)
  | .ok method =>
    match router.graph.resolve unicode method path with
    | .error error => some (.error (.resolve error))
    | .ok found =>
      (router.routes.get? found.routeId).map (fun route => .ok ⟨route, found.parameters⟩)

end PbocRouter

section Construction

variable {unicode : Unicode} {sha256 : Sha256} {routes : List PbocRoute}

@[simp]
theorem mapError_ok {ε ε' α : Type} {x : Except ε α} {f : ε → ε'} {a : α}
    : x.mapError f = .ok a ↔ x = .ok a := by
  cases x <;> simp [Except.mapError]

theorem PbocRoute.spec_ok {route : PbocRoute} {spec : RouteSpec} (h : route.spec unicode = .ok spec)
    : spec.id = route.id ∧ spec.method.text = route.method ∧ spec.Plain
      ∧ RoutePattern.parse unicode route.pattern = .ok spec.pattern
      ∧ isRouteId route.id = true ∧ (∀ id ∈ route.cachePolicyId, isDataId id = true) := by
  unfold PbocRoute.spec at h
  obtain ⟨method, hmethod, h⟩ := Except.bind_eq_ok.mp h
  obtain ⟨plain, hplain, h⟩ := Except.bind_eq_ok.mp h
  have htext : method.text = route.method := by
    unfold RouteMethod.new at hmethod
    split at hmethod
    . cases hmethod
      rfl
    . cases hmethod
  unfold RouteSpec.new at hplain
  obtain ⟨hid, hplain⟩ := Except.bind_unit_eq_ok.mp hplain
  obtain ⟨pattern, hpattern, hplain⟩ := Except.bind_eq_ok.mp hplain
  cases hplain
  split at h
  . next cachePolicy hcache =>
    obtain ⟨hdata, h⟩ := Except.bind_unit_eq_ok.mp h
    cases h
    rw [hcache]
    exact ⟨rfl, htext, ⟨rfl, rfl, rfl, rfl⟩, hpattern, validateRouteId_ok.mp hid,
      by simpa using validateDataId_ok.mp hdata⟩
  . next hcache =>
    cases h
    rw [hcache]
    exact ⟨rfl, htext, ⟨rfl, rfl, rfl, rfl⟩, hpattern, validateRouteId_ok.mp hid, by simp⟩

def specs (unicode : Unicode) (routes : List PbocRoute) : List RouteSpec :=
  routes.filterMap (fun route => (route.spec unicode).toOption)

theorem foldlM_push {state : RouteGraphBuilder × SortedMap String PbocRoute}
    (h : ∀ route ∈ routes, ∃ spec, route.spec unicode = .ok spec)
    : routes.foldlM (PbocRouter.push unicode) state
      = .ok ({ state.1 with routes := state.1.routes ++ specs unicode routes },
        routes.foldl (fun map route => map.insert route.id route) state.2) := by
  induction routes generalizing state with
  | nil =>
    unfold specs
    rw [List.filterMap_nil, List.append_nil]
    rfl
  | cons route routes ih =>
    obtain ⟨spec, hspec⟩ := h route List.mem_cons_self
    have hstep : PbocRouter.push unicode state route
        = .ok (state.1.withRoute spec, state.2.insert route.id route) := by
      unfold PbocRouter.push
      rw [hspec]
      rfl
    have hcons : specs unicode (route :: routes) = spec :: specs unicode routes := by
      unfold specs
      rw [List.filterMap_cons, hspec]
      rfl
    rw [List.foldlM_cons, hstep]
    change routes.foldlM (PbocRouter.push unicode) _ = _
    rw [ih (fun other hother => h other (List.mem_cons_of_mem _ hother)), hcons]
    unfold RouteGraphBuilder.withRoute
    rw [List.foldl_cons, List.append_assoc]
    rfl

theorem foldlM_push_ok {state : RouteGraphBuilder × SortedMap String PbocRoute}
    {state' : RouteGraphBuilder × SortedMap String PbocRoute}
    (h : routes.foldlM (PbocRouter.push unicode) state = .ok state')
    : ∀ route ∈ routes, ∃ spec, route.spec unicode = .ok spec := by
  induction routes generalizing state with
  | nil => simp
  | cons route routes ih =>
    rw [List.foldlM_cons] at h
    obtain ⟨next, hnext, h⟩ := Except.bind_eq_ok.mp h
    obtain ⟨spec, hspec, _⟩ := Except.bind_eq_ok.mp hnext
    intro other hother
    cases List.mem_cons.mp hother with
    | inl hsame => exact ⟨spec, hsame ▸ hspec⟩
    | inr hmem => exact ih h other hmem

def routeMap (routes : List PbocRoute) : SortedMap String PbocRoute :=
  routes.foldl (fun map route => map.insert route.id route) .empty

def routerBuilder (unicode : Unicode) (routes : List PbocRoute) : RouteGraphBuilder :=
  { RouteGraphBuilder.new with maxRoutes := max routes.length 1, routes := specs unicode routes }

theorem mem_specs {spec : RouteSpec}
    : spec ∈ specs unicode routes ↔ ∃ route ∈ routes, route.spec unicode = .ok spec := by
  unfold specs
  rw [List.mem_filterMap]
  constructor
  . rintro ⟨route, hroute, hspec⟩
    exact ⟨route, hroute, Except.toOption_eq_some.mp hspec⟩
  . rintro ⟨route, hroute, hspec⟩
    exact ⟨route, hroute, Except.toOption_eq_some.mpr hspec⟩

theorem routerBuilder_plain : (routerBuilder unicode routes).Plain := by
  refine ⟨rfl, rfl, rfl, rfl, ?_⟩
  intro spec hspec
  obtain ⟨route, _, h⟩ := mem_specs.mp hspec
  exact (PbocRoute.spec_ok h).2.2.1

theorem length_specs_le : (specs unicode routes).length ≤ routes.length :=
  List.length_filterMap_le _ _

/--
A router is built exactly when the manifest is valid, its routes are few enough, each is a route of the
router's own grammar, and no two of them collide.
-/
theorem PbocRouter.new_ok_iff {manifest : PbocManifest} {router : PbocRouter}
    : PbocRouter.new unicode sha256 manifest = .ok router
      ↔ validateManifest unicode manifest = .ok ()
        ∧ manifest.routes.length ≤ defaultMaxRoutes
        ∧ (∀ route ∈ manifest.routes, ∃ spec, route.spec unicode = .ok spec)
        ∧ (routerBuilder unicode manifest.routes).sealGraph unicode sha256 = .ok router.graph
        ∧ router.routes = routeMap manifest.routes := by
  have hlimit : manifest.routes.length ≤ defaultMaxRoutes ↔
      RouteGraphBuilder.withMaxRoutes (max manifest.routes.length 1)
        = .ok { RouteGraphBuilder.new with maxRoutes := max manifest.routes.length 1 } := by
    unfold RouteGraphBuilder.withMaxRoutes
    have hmax : defaultMaxRoutes = 4096 := rfl
    split
    . next hbad =>
      simp only [Bool.or_eq_true, decide_eq_true_eq] at hbad
      constructor
      . omega
      . intro h
        cases h
    . next hgood =>
      simp only [Bool.or_eq_true, decide_eq_true_eq] at hgood
      constructor
      . intro _
        rfl
      . omega
  unfold PbocRouter.new
  constructor
  . intro h
    obtain ⟨⟨⟩, hvalid, h⟩ := Except.bind_eq_ok.mp h
    obtain ⟨builder, hbuilder, h⟩ := Except.bind_eq_ok.mp h
    obtain ⟨⟨builder', routes⟩, hpush, h⟩ := Except.bind_eq_ok.mp h
    obtain ⟨graph, hgraph, h⟩ := Except.bind_eq_ok.mp h
    cases h
    rw [mapError_ok] at hvalid hbuilder hpush hgraph
    have hnew : builder = { RouteGraphBuilder.new with maxRoutes := max manifest.routes.length 1 } := by
      unfold RouteGraphBuilder.withMaxRoutes at hbuilder
      split at hbuilder
      . cases hbuilder
      . cases hbuilder
        rfl
    subst hnew
    have hall := foldlM_push_ok hpush
    rw [foldlM_push hall] at hpush
    cases hpush
    exact ⟨hvalid, hlimit.mpr hbuilder, hall, hgraph, rfl⟩
  . rintro ⟨hvalid, hroom, hall, hgraph, hroutes⟩
    rw [hvalid, hlimit.mp hroom]
    change ((manifest.routes.foldlM (PbocRouter.push unicode) _).mapError _ >>= _) = _
    rw [foldlM_push hall]
    change ((RouteGraphBuilder.sealGraph _ _ _).mapError _ >>= _) = _
    change (((routerBuilder unicode manifest.routes).sealGraph unicode sha256).mapError _ >>= _) = _
    rw [hgraph]
    change Except.ok (PbocRouter.mk router.graph (routeMap manifest.routes)) = _
    rw [← hroutes]

end Construction

end Pboc

end Pliego
