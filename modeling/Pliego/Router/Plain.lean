import Pliego.Router.Resolve

/-!
Graphs without scopes, middleware and boundaries: when such a builder is sealed, and that the sealed graph
answers by the patterns of its routes alone.
-/

namespace Pliego

open Bytes Text Sorting

namespace Router

variable {unicode : Unicode} {sha256 : Sha256}

section Shapes

theorem intercalate_concat {c : Char} {pieces : List (List Char)} {last : List Char} (hne : pieces ≠ [])
    : [c].intercalate (pieces ++ [last]) = [c].intercalate pieces ++ c :: last := by
  induction pieces with
  | nil => exact absurd rfl hne
  | cons piece pieces ih =>
    cases pieces with
    | nil => simp
    | cons second pieces =>
      have hrest := ih (List.cons_ne_nil _ _)
      rw [List.cons_append, List.cons_append, List.intercalate_cons_cons, ← List.cons_append, hrest,
        List.intercalate_cons_cons]
      simp

theorem shapeKeys_nodup {pattern : RoutePattern} : (pattern.shapeKeys unicode).Nodup := by
  unfold RoutePattern.shapeKeys
  dsimp only
  split
  . next hend =>
    rw [List.nodup_cons]
    refine ⟨?_, List.nodup_singleton _⟩
    rw [List.mem_singleton]
    unfold RoutePattern.endsOptional at hend
    split at hend
    . next name hlast =>
      obtain ⟨front, hfront⟩ := List.getLast?_eq_some_iff.mp hlast
      have hmark : RoutePattern.shapePiece unicode (.optionalParameter name) = ":" := rfl
      rw [hfront, List.map_append, List.map_singleton, List.dropLast_concat, hmark]
      generalize front.map (RoutePattern.shapePiece unicode) = pieces
      -- the first shape is the longer one
      intro hsame
      have hlength := congrArg (fun text => text.toList.length) hsame
      unfold joinPath join at hlength
      by_cases hnil : pieces = []
      . rw [hnil] at hlength
        cases hlength
      . rw [if_neg (by simpa using hnil), List.map_append, List.map_singleton,
          intercalate_concat (by simpa using hnil)] at hlength
        simp at hlength
    . cases hend
  . exact List.nodup_singleton _

theorem RoutePattern.exists_shapeKey {pattern : RoutePattern}
    : ∃ shape, shape ∈ pattern.shapeKeys unicode := by
  unfold RoutePattern.shapeKeys
  dsimp only
  split
  . exact ⟨_, List.mem_cons_self⟩
  . exact ⟨_, List.mem_cons_self⟩

end Shapes

section Admission

variable {route : RouteSpec} {shapes : List String} {map : SortedMap String String}

theorem shapeKey_inj {method : RouteMethod} {a b : String}
    (h : RouteGraphBuilder.shapeKey method a = RouteGraphBuilder.shapeKey method b) : a = b := by
  unfold RouteGraphBuilder.shapeKey at h
  apply String.toList_inj.mp
  have hchars := congrArg String.toList h
  rw [String.toList_append, String.toList_append (s := method.text ++ " ")] at hchars
  exact List.append_cancel_left hchars

theorem foldlM_admitShape_of (hnodup : shapes.Nodup)
    (hfresh : ∀ shape ∈ shapes, map.get? (RouteGraphBuilder.shapeKey route.method shape) = none)
    : ∃ map', shapes.foldlM (RouteGraphBuilder.admitShape route) map = .ok map'
      ∧ ∀ key, map.get? key = none →
        (∀ shape ∈ shapes, key ≠ RouteGraphBuilder.shapeKey route.method shape) →
        map'.get? key = none := by
  induction shapes generalizing map with
  | nil => exact ⟨map, rfl, fun _ hkey _ => hkey⟩
  | cons shape shapes ih =>
    obtain ⟨hnot, hnodup⟩ := List.nodup_cons.mp hnodup
    have hstep : RouteGraphBuilder.admitShape route map shape
        = .ok (map.insert (RouteGraphBuilder.shapeKey route.method shape) route.id) := by
      unfold RouteGraphBuilder.admitShape
      rw [hfresh shape List.mem_cons_self]
    have hlater : ∀ other ∈ shapes, (map.insert (RouteGraphBuilder.shapeKey route.method shape)
        route.id).get? (RouteGraphBuilder.shapeKey route.method other) = none := by
      intro other hother
      rw [SortedMap.get?_insert, if_neg]
      . exact hfresh other (List.mem_cons_of_mem _ hother)
      . exact fun hsame => hnot (shapeKey_inj hsame ▸ hother)
    obtain ⟨map', hmap', hkeeps⟩ := ih hnodup hlater
    refine ⟨map', ?_, ?_⟩
    . rw [List.foldlM_cons, hstep]
      exact hmap'
    . intro key hkey hother
      apply hkeeps
      . rw [SortedMap.get?_insert, if_neg (hother shape List.mem_cons_self)]
        exact hkey
      . exact fun other hmem => hother other (List.mem_cons_of_mem _ hmem)

theorem foldlM_admitRoute_of {routes : List RouteSpec} {ids : List String}
    (hapart : routes.Pairwise (Apart unicode)) (hids : ∀ route ∈ routes, route.id ∉ ids)
    (hfresh : ∀ route ∈ routes, ∀ shape ∈ route.pattern.shapeKeys unicode,
      map.get? (RouteGraphBuilder.shapeKey route.method shape) = none)
    : ∃ admitted, routes.foldlM (RouteGraphBuilder.admitRoute unicode) (ids, map) = .ok admitted := by
  induction routes generalizing ids map with
  | nil => exact ⟨_, rfl⟩
  | cons route routes ih =>
    obtain ⟨hfirst, hapart⟩ := List.pairwise_cons.mp hapart
    have hnodup : (route.pattern.shapeKeys unicode).Nodup := shapeKeys_nodup
    obtain ⟨map', hmap', hkeeps⟩ := foldlM_admitShape_of hnodup (hfresh route List.mem_cons_self)
    have hstep : RouteGraphBuilder.admitRoute unicode (ids, map) route
        = .ok (ids ++ [route.id], map') := by
      unfold RouteGraphBuilder.admitRoute
      dsimp only
      rw [if_neg (hids route List.mem_cons_self), hmap']
      rfl
    rw [List.foldlM_cons, hstep]
    apply ih hapart
    . intro other hother hmem
      cases List.mem_append.mp hmem with
      | inl hold => exact hids other (List.mem_cons_of_mem _ hother) hold
      | inr hnew => exact (hfirst other hother).1 (List.mem_singleton.mp hnew).symm
    . intro other hother shape hshape
      apply hkeeps _ (hfresh other (List.mem_cons_of_mem _ hother) shape hshape)
      exact fun shape' hshape' hsame => (hfirst other hother).2 shape' hshape' shape hshape hsame.symm

theorem Apart.symm {a b : RouteSpec} (h : Apart unicode a b) : Apart unicode b a :=
  ⟨h.1.symm, fun shape hshape shape' hshape' hkey => h.2 shape' hshape' shape hshape hkey.symm⟩

end Admission

structure RouteSpec.Plain (route : RouteSpec) : Prop where
  scope : route.scope = none
  middleware : route.middleware = []
  errorBoundaries : route.errorBoundaries = []
  loaders : route.loaders = []

structure RouteGraphBuilder.Plain (builder : RouteGraphBuilder) : Prop where
  scopes : builder.scopes = []
  preRouteMiddleware : builder.preRouteMiddleware = []
  middlewareCapabilities : builder.middlewareCapabilities = .empty
  errorBoundaries : builder.errorBoundaries = []
  routes : ∀ route ∈ builder.routes, route.Plain

theorem foldlM_resolveRoute_of {routes : List RouteSpec} (hplain : ∀ route ∈ routes, route.Plain)
    {scopes : ScopeMap} {found : RouteGraphBuilder.RouteScopes}
    : ∃ found', routes.foldlM (RouteGraphBuilder.resolveRoute [] scopes) found = .ok found' := by
  induction routes generalizing found with
  | nil => exact ⟨_, rfl⟩
  | cons route routes ih =>
    have hroute := hplain route List.mem_cons_self
    have hstep : RouteGraphBuilder.resolveRoute [] scopes found route
        = .ok ⟨found.resolved.insert route.id .default, found.reached ++ []⟩ := by
      unfold RouteGraphBuilder.resolveRoute
      rw [hroute.scope, hroute.middleware, hroute.loaders, hroute.errorBoundaries]
      rfl
    rw [List.foldlM_cons, hstep]
    exact ih (fun other hother => hplain other (List.mem_cons_of_mem _ hother))

theorem RouteGraphBuilder.Plain.sealed {builder : RouteGraphBuilder} (h : builder.Plain)
    : (∃ graph, builder.sealGraph unicode sha256 = .ok graph)
      ↔ builder.routes.length ≤ builder.maxRoutes ∧ builder.routes.Pairwise (Apart unicode) := by
  constructor
  . rintro ⟨graph, hgraph⟩
    have hsealed := sealGraph_ok hgraph
    exact ⟨hsealed.room, hsealed.apart.perm sortBy_perm Apart.symm⟩
  rintro ⟨hroom, hapart⟩
  have hplain : ∀ route ∈ sortBy canonicalRouteOrder builder.routes, route.Plain :=
    fun route hroute => h.routes route (mem_sortBy.mp hroute)
  have hsorted : (sortBy canonicalRouteOrder builder.routes).Pairwise (Apart unicode) :=
    hapart.perm sortBy_perm.symm Apart.symm
  obtain ⟨found, hfound⟩ := @foldlM_resolveRoute_of _ hplain .empty ⟨.empty, []⟩
  obtain ⟨admitted, hadmitted⟩ := @foldlM_admitRoute_of _ .empty _ [] hsorted (by simp)
    (fun route _ shape _ => SortedMap.get?_empty _)
  have hmiddleware : RouteGraphBuilder.routeMiddleware
      (sortBy canonicalRouteOrder builder.routes) [] = SortedSet.ofList [] := by
    unfold RouteGraphBuilder.routeMiddleware
    have hnone : (sortBy canonicalRouteOrder builder.routes).flatMap RouteSpec.middleware = [] := by
      rw [List.flatMap_eq_nil_iff]
      exact fun route hroute => (hplain route hroute).middleware
    rw [hnone]
    rfl
  have hchecks : RouteGraphBuilder.checkMiddleware [] (SortedSet.ofList []) .empty = .ok () := by
    decide
  unfold RouteGraphBuilder.sealGraph RouteGraphBuilder.sealSorted
  rw [if_neg (Nat.not_lt.mpr hroom), h.scopes, if_neg (by decide)]
  have hsort : sortBy RouteScopeSpec.id [] = [] := rfl
  have hmap : RouteGraphBuilder.scopeMap [] = .ok .empty := rfl
  simp only [hsort, hmap, h.errorBoundaries, h.preRouteMiddleware, h.middlewareCapabilities, hfound,
    hadmitted, hmiddleware, hchecks, bind, Except.bind]
  exact ⟨_, rfl⟩

section Answers

-- The same identifier and method, and the same segments on the path.
structure RouteSpec.Alike (a b : RouteSpec) : Prop where
  id : a.id = b.id
  method : a.method = b.method
  pathSegments : a.pattern.pathSegments = b.pattern.pathSegments

theorem RouteSpec.Alike.matchAdmitted {a b : RouteSpec} (h : a.Alike b) (path : String)
    : a.pattern.matchAdmitted path = b.pattern.matchAdmitted path := by
  unfold RoutePattern.matchAdmitted
  rw [h.pathSegments]

namespace RouteGraph

def answer (unicode : Unicode) (graph : RouteGraph) (method : RouteMethod) (path : String)
    : Except ResolveError (String × SortedMap String String) :=
  (graph.resolve unicode method path).map (fun found => (found.routeId, found.parameters))

variable {graph graph' : RouteGraph} {f : RouteSpec → RouteSpec}

theorem mem_of_resolve {method : RouteMethod} {path : String} {found : RouteMatch}
    (h : graph.resolve unicode method path = .ok found)
    : ∃ route ∈ graph.routes, route.id = found.routeId := by
  have hresolve := h
  unfold resolve at h
  obtain ⟨hpath, h⟩ := Except.bind_unit_eq_ok.mp h
  obtain ⟨hnormal, _⟩ := Except.bind_unit_eq_ok.mp h
  rw [resolve_eq hpath hnormal] at hresolve
  split at hresolve
  . next route hwinner =>
    cases hresolve
    exact ⟨route, (winner_eq_some hwinner).1, rfl⟩
  . split at hresolve <;> cases hresolve

theorem winner_map (hroutes : graph'.routes = graph.routes.map f)
    (hf : ∀ route ∈ graph.routes, (f route).Alike route) (method : RouteMethod) (path : String)
    : graph'.winner method path = (graph.winner method path).map f := by
  unfold winner
  rw [hroutes, List.filter_map, List.find?_map]
  congr 1
  have hfilter : graph.routes.filter ((fun route => decide (route.method = method)) ∘ f)
      = graph.routes.filter (fun route => decide (route.method = method)) := by
    apply List.filter_congr
    intro route hroute
    rw [Function.comp_apply, (hf route hroute).method]
  rw [hfilter]
  apply List.find?_congr
  intro route hroute
  rw [Function.comp_apply, (hf route (List.mem_of_mem_filter hroute)).matchAdmitted]

theorem allowedMethods_map (hroutes : graph'.routes = graph.routes.map f)
    (hf : ∀ route ∈ graph.routes, (f route).Alike route) (path : String)
    : graph'.allowedMethods path = graph.allowedMethods path := by
  unfold allowedMethods
  rw [hroutes, List.filter_map, List.map_map]
  congr 1
  have hfilter : graph.routes.filter ((fun route => (route.pattern.matchAdmitted path).isSome) ∘ f)
      = graph.routes.filter (fun route => (route.pattern.matchAdmitted path).isSome) := by
    apply List.filter_congr
    intro route hroute
    rw [Function.comp_apply, (hf route hroute).matchAdmitted]
  rw [hfilter]
  apply List.map_congr_left
  intro route hroute
  exact (hf route (List.mem_of_mem_filter hroute)).method

theorem answer_map (hroutes : graph'.routes = graph.routes.map f)
    (hf : ∀ route ∈ graph.routes, (f route).Alike route) (method : RouteMethod) (path : String)
    : graph'.answer unicode method path = graph.answer unicode method path := by
  unfold answer
  cases hpath : validateRequestPath path with
  | error error =>
    unfold resolve
    rw [hpath]
    rfl
  | ok _ =>
    cases hnormal : validateRequestPath (unicode.nfc path) with
    | error error =>
      unfold resolve
      dsimp only
      rw [hpath, hnormal]
      rfl
    | ok _ =>
      rw [resolve_eq hpath hnormal, resolve_eq hpath hnormal, winner_map hroutes hf,
        allowedMethods_map hroutes hf]
      cases hwinner : graph.winner method (unicode.nfc path) with
      | none => rfl
      | some route =>
        have halike := hf route (winner_eq_some hwinner).1
        change Except.ok _ = Except.ok _
        unfold routeMatch
        dsimp only
        rw [halike.id, halike.matchAdmitted]

end RouteGraph

end Answers

end Router

end Pliego
