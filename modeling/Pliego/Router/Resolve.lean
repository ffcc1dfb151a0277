import Pliego.Router.Match

/-!
The resolution of a request by a sealed graph: the unique most specific match.
-/

namespace Pliego

open Bytes Text Sorting

namespace Router

variable {unicode : Unicode} {sha256 : Sha256}

structure RouteGraphBuilder.Valid (unicode : Unicode) (builder : RouteGraphBuilder) : Prop where
  routes : ∀ route ∈ builder.routes, route.Valid unicode
  scopes : ∀ scope ∈ builder.scopes, scope.Valid
  preRouteMiddleware : IdList isRouteId maxRouteMiddleware builder.preRouteMiddleware
  errorBoundaries : IdList isRouteId maxErrorBoundaries builder.errorBoundaries
  declarations : ∀ id capabilities, builder.middlewareCapabilities.get? id = some capabilities →
    isRouteId id = true

theorem RouteGraphBuilder.Built.valid (hslash : unicode.KeepsSlashes) {builder : RouteGraphBuilder}
    (h : builder.Built unicode) : builder.Valid unicode := by
  have hnew : RouteGraphBuilder.new.Valid unicode :=
    ⟨by simp [RouteGraphBuilder.new], by simp [RouteGraphBuilder.new], .nil, .nil,
      by simp [RouteGraphBuilder.new]⟩
  induction h with
  | new => exact hnew
  | withMaxRoutes h =>
    unfold RouteGraphBuilder.withMaxRoutes at h
    split at h
    . cases h
    . cases h
      exact { hnew with }
  | @register builder _ registration _ hregistration h ih =>
    cases registration with
    | declareMiddleware id capabilities =>
      obtain ⟨hid, h⟩ := Except.bind_unit_eq_ok.mp h
      split at h
      . cases h
      . cases h
        refine { ih with declarations := ?_ }
        intro other found hfound
        rw [SortedMap.get?_insert] at hfound
        split at hfound
        . next hsame => rw [hsame, validateBehaviorId_ok.mp hid]
        . exact ih.declarations other found hfound
    | preRouteMiddleware id =>
      obtain ⟨ids, hids, h⟩ := Except.bind_eq_ok.mp h
      cases h
      exact { ih with preRouteMiddleware := pushMiddleware_ok ih.preRouteMiddleware hids }
    | errorBoundary id =>
      obtain ⟨ids, hids, h⟩ := Except.bind_eq_ok.mp h
      cases h
      exact { ih with errorBoundaries := pushErrorBoundary_ok ih.errorBoundaries hids }
    | scope scope =>
      cases h
      refine { ih with scopes := ?_ }
      intro other hother
      cases List.mem_append.mp hother with
      | inl hold => exact ih.scopes other hold
      | inr hnew => exact List.mem_singleton.mp hnew ▸ RouteScopeSpec.Built.valid hregistration
    | route route =>
      cases h
      refine { ih with routes := ?_ }
      intro other hother
      cases List.mem_append.mp hother with
      | inl hold => exact ih.routes other hold
      | inr hnew =>
        exact List.mem_singleton.mp hnew ▸ RouteSpec.Built.valid hslash hregistration

section Admission

variable {route : RouteSpec} {shapes : List String} {map map' : SortedMap String String}

theorem foldlM_admitShape_ok (h : shapes.foldlM (RouteGraphBuilder.admitShape route) map = .ok map')
    : (∀ shape ∈ shapes, map.get? (RouteGraphBuilder.shapeKey route.method shape) = none
        ∧ (map'.get? (RouteGraphBuilder.shapeKey route.method shape)).isSome = true)
      ∧ ∀ key, (map.get? key).isSome = true → (map'.get? key).isSome = true := by
  induction shapes generalizing map with
  | nil =>
    cases h
    exact ⟨by simp, fun _ hkey => hkey⟩
  | cons shape shapes ih =>
    rw [List.foldlM_cons] at h
    obtain ⟨next, hnext, h⟩ := Except.bind_eq_ok.mp h
    unfold RouteGraphBuilder.admitShape at hnext
    split at hnext
    . cases hnext
    . next hfresh =>
      cases hnext
      obtain ⟨hshapes, hkeeps⟩ := ih h
      have hkeep : ∀ key, (map.get? key).isSome = true → (map'.get? key).isSome = true := by
        intro key hkey
        apply hkeeps
        rw [SortedMap.get?_insert]
        split
        . rfl
        . exact hkey
      refine ⟨?_, hkeep⟩
      intro other hother
      cases List.mem_cons.mp hother with
      | inl hsame =>
        rw [hsame]
        refine ⟨hfresh, hkeeps _ ?_⟩
        rw [SortedMap.get?_insert, if_pos rfl]
        rfl
      | inr hmem =>
        refine ⟨?_, (hshapes other hmem).2⟩
        have hnone := (hshapes other hmem).1
        rw [SortedMap.get?_insert] at hnone
        split at hnone
        . cases hnone
        . exact hnone

def Apart (unicode : Unicode) (a b : RouteSpec) : Prop :=
  a.id ≠ b.id ∧ ∀ shape ∈ a.pattern.shapeKeys unicode, ∀ shape' ∈ b.pattern.shapeKeys unicode,
    RouteGraphBuilder.shapeKey a.method shape ≠ RouteGraphBuilder.shapeKey b.method shape'

theorem foldlM_admitRoute_ok {routes : List RouteSpec} {ids ids' : List String}
    (h : routes.foldlM (RouteGraphBuilder.admitRoute unicode) (ids, map) = .ok (ids', map'))
    : routes.Pairwise (Apart unicode)
      ∧ (∀ route ∈ routes, route.id ∉ ids)
      ∧ ∀ route ∈ routes, ∀ shape ∈ route.pattern.shapeKeys unicode,
        map.get? (RouteGraphBuilder.shapeKey route.method shape) = none := by
  induction routes generalizing ids map with
  | nil => exact ⟨.nil, by simp, by simp⟩
  | cons route routes ih =>
    rw [List.foldlM_cons] at h
    obtain ⟨⟨ids₁, map₁⟩, hfirst, h⟩ := Except.bind_eq_ok.mp h
    unfold RouteGraphBuilder.admitRoute at hfirst
    dsimp only at hfirst
    split at hfirst
    . cases hfirst
    . next hfresh =>
      obtain ⟨next, hnext, hfirst⟩ := Except.bind_eq_ok.mp hfirst
      cases hfirst
      obtain ⟨hadmitted, hkeeps⟩ := foldlM_admitShape_ok hnext
      obtain ⟨hpairs, hids, hnone⟩ := ih h
      have hold : ∀ key, map₁.get? key = none → map.get? key = none := by
        intro key hkey
        cases hmap : map.get? key with
        | none => rfl
        | some _ =>
          have hsome := hkeeps key (by rw [hmap]; rfl)
          rw [hkey] at hsome
          cases hsome
      refine ⟨List.pairwise_cons.mpr ⟨?_, hpairs⟩, ?_, ?_⟩
      . intro other hother
        refine ⟨fun hsame => hids other hother (by simp [hsame]), ?_⟩
        intro shape hshape shape' hshape' hkey
        have hsome := (hadmitted shape hshape).2
        rw [hkey, hnone other hother shape' hshape'] at hsome
        cases hsome
      . intro other hother
        cases List.mem_cons.mp hother with
        | inl hsame => rw [hsame]; exact hfresh
        | inr hmem => exact fun hin => hids other hmem (List.mem_append_left _ hin)
      . intro other hother shape hshape
        cases List.mem_cons.mp hother with
        | inl hsame =>
          subst hsame
          exact (hadmitted shape hshape).1
        | inr hmem => exact hold _ (hnone other hmem shape hshape)

end Admission

section Sealing

variable {builder : RouteGraphBuilder} {graph : RouteGraph}

theorem foldlM_resolveRoute_ok {boundaries : List String} {scopes : ScopeMap}
    {routes : List RouteSpec} {found found' : RouteGraphBuilder.RouteScopes}
    (h : routes.foldlM (RouteGraphBuilder.resolveRoute boundaries scopes) found = .ok found')
    (hnodup : (routes.map RouteSpec.id).Nodup)
    : (∀ route ∈ routes, ∃ chain, resolveScopeChain route.scope scopes = .ok chain
        ∧ found'.resolved.get? route.id = some chain)
      ∧ ∀ id, id ∉ routes.map RouteSpec.id → found'.resolved.get? id = found.resolved.get? id := by
  induction routes generalizing found with
  | nil =>
    cases h
    exact ⟨by simp, fun _ _ => rfl⟩
  | cons route routes ih =>
    rw [List.foldlM_cons] at h
    obtain ⟨next, hnext, h⟩ := Except.bind_eq_ok.mp h
    rw [List.map_cons, List.nodup_cons] at hnodup
    obtain ⟨hroutes, hother⟩ := ih h hnodup.2
    have hstep : ∃ chain, resolveScopeChain route.scope scopes = .ok chain
        ∧ next.resolved = found.resolved.insert route.id chain := by
      unfold RouteGraphBuilder.resolveRoute at hnext
      obtain ⟨chain, hchain, hnext⟩ := Except.bind_eq_ok.mp hnext
      refine ⟨chain, hchain, ?_⟩
      split at hnext
      . cases hnext
      . obtain ⟨_, hnext⟩ := Except.bind_unit_eq_ok.mp hnext
        split at hnext
        . cases hnext
        . obtain ⟨_, hnext⟩ := Except.bind_unit_eq_ok.mp hnext
          split at hnext
          . cases hnext
          . obtain ⟨_, _, hnext⟩ := Except.bind_eq_ok.mp hnext
            cases hnext
            rfl
    obtain ⟨chain, hchain, hinsert⟩ := hstep
    refine ⟨?_, ?_⟩
    . intro other hmem
      cases List.mem_cons.mp hmem with
      | inl hsame =>
        subst hsame
        refine ⟨chain, hchain, ?_⟩
        rw [hother _ hnodup.1, hinsert, SortedMap.get?_insert, if_pos rfl]
      | inr hmem => exact hroutes other hmem
    . intro id hid
      rw [List.map_cons, List.mem_cons, not_or] at hid
      rw [hother id hid.2, hinsert, SortedMap.get?_insert, if_neg hid.1]

structure Sealed (unicode : Unicode) (sha256 : Sha256) (builder : RouteGraphBuilder)
    (graph : RouteGraph) : Prop where
  room : builder.routes.length ≤ builder.maxRoutes
  routes : graph.routes = sortBy matchOrder (sortBy canonicalRouteOrder builder.routes)
  scopes : graph.scopes = sortBy RouteScopeSpec.id builder.scopes
  apart : (sortBy canonicalRouteOrder builder.routes).Pairwise (Apart unicode)
  chains : ∃ scopes, RouteGraphBuilder.scopeMap graph.scopes = .ok scopes ∧
    ∀ route ∈ graph.routes, ∃ chain, resolveScopeChain route.scope scopes = .ok chain
      ∧ graph.resolvedScopes.get? route.id = some chain
  preRouteMiddleware : graph.preRouteMiddleware = builder.preRouteMiddleware
  middlewareCapabilities : graph.middlewareCapabilities = builder.middlewareCapabilities
  errorBoundaries : graph.errorBoundaries = builder.errorBoundaries
  digest : graph.digest = encodeHex (sha256 (graphPreimage
    (sortBy canonicalRouteOrder builder.routes) (sortBy RouteScopeSpec.id builder.scopes)
    builder.preRouteMiddleware builder.middlewareCapabilities builder.errorBoundaries)).bytes

theorem Pairwise.ids_nodup {routes : List RouteSpec} (h : routes.Pairwise (Apart unicode))
    : (routes.map RouteSpec.id).Nodup :=
  List.pairwise_map.mpr (h.imp (fun hapart => hapart.1))

theorem sealGraph_ok (h : builder.sealGraph unicode sha256 = .ok graph)
    : Sealed unicode sha256 builder graph := by
  unfold RouteGraphBuilder.sealGraph at h
  split at h
  . cases h
  . next hroom =>
    split at h
    . cases h
    . unfold RouteGraphBuilder.sealSorted at h
      obtain ⟨scopes, hscopes, h⟩ := Except.bind_eq_ok.mp h
      obtain ⟨⟨⟩, _, h⟩ := Except.bind_eq_ok.mp h
      obtain ⟨found, hfound, h⟩ := Except.bind_eq_ok.mp h
      obtain ⟨_, h⟩ := Except.bind_unit_eq_ok.mp h
      obtain ⟨⟨ids, shapes⟩, hadmitted, h⟩ := Except.bind_eq_ok.mp h
      obtain ⟨_, h⟩ := Except.bind_unit_eq_ok.mp h
      cases h
      have hapart := (foldlM_admitRoute_ok hadmitted).1
      have hchains := (foldlM_resolveRoute_ok hfound (Pairwise.ids_nodup hapart)).1
      exact ⟨Nat.not_lt.mp hroom, rfl, rfl, hapart,
        ⟨scopes, hscopes, fun route hroute => hchains route (mem_sortBy.mp hroute)⟩,
        rfl, rfl, rfl, rfl⟩

theorem Sealed.mem_routes (h : Sealed unicode sha256 builder graph) {route : RouteSpec}
    : route ∈ graph.routes ↔ route ∈ builder.routes := by
  rw [h.routes, mem_sortBy, mem_sortBy]

theorem Sealed.apart_of_ne (h : Sealed unicode sha256 builder graph) {a b : RouteSpec}
    (ha : a ∈ builder.routes) (hb : b ∈ builder.routes) (hne : a ≠ b) : Apart unicode a b := by
  have hsymm : Std.Symm (Apart unicode) := by
    constructor
    intro a b hab
    exact ⟨hab.1.symm, fun shape hshape shape' hshape' hkey =>
      hab.2 shape' hshape' shape hshape hkey.symm⟩
  exact h.apart.forall (mem_sortBy.mpr ha) (mem_sortBy.mpr hb) hne

end Sealing

section Requests

theorem validateRequestPath_ok {path : String} (h : validateRequestPath path = .ok ())
    : startsWith '/' path = true ∧ ∀ piece ∈ rawSegments path, piece ≠ "" ∧ '/' ∉ piece.toList := by
  unfold validateRequestPath at h
  split at h
  . cases h
  . next hshape =>
    simp only [Bool.or_eq_true, not_or, Bool.not_eq_true, Bool.and_eq_false_iff,
      decide_eq_false_iff_not, Bool.not_eq_false'] at hshape
    obtain ⟨⟨⟨⟨⟨⟨⟨⟨⟨⟨_, _⟩, hslash⟩, hend⟩, hpair⟩, _⟩, _⟩, _⟩, _⟩, _⟩, _⟩ := hshape
    refine ⟨hslash, ?_⟩
    intro piece hpiece
    refine ⟨?_, not_mem_of_mem_rawSegments hpiece⟩
    rintro rfl
    unfold rawSegments at hpiece
    split at hpiece
    . cases hpiece
    . next hroot =>
      unfold startsWith at hslash
      cases hchars : path.toList with
      | nil =>
        rw [hchars] at hslash
        cases hslash
      | cons first rest =>
        rw [hchars, List.head?_cons] at hslash
        have hfirst : first = '/' := by simpa using hslash
        subst hfirst
        rw [hchars, List.tail_cons] at hpiece
        unfold split at hpiece
        obtain ⟨chars, hmem, hempty⟩ := List.mem_map.mp hpiece
        have hnil : chars = [] := by
          have h := congrArg String.toList hempty
          rw [String.toList_ofList] at h
          exact h
        rw [hnil, String.toList_ofList] at hmem
        have htail : [] ∈ (path.toList.splitOn '/').tail := by
          rw [hchars, List.splitOn_cons_eq_if_modifyHead, if_pos (by simp)]
          exact hmem
        cases separators_of_empty_piece htail with
        | inl hdouble =>
          rw [hdouble] at hpair
          cases hpair
        | inr hlast =>
          cases hend with
          | inl hnot => exact hnot hroot
          | inr hnot =>
            unfold endsWith at hnot
            rw [hlast] at hnot
            simp at hnot

namespace RouteSpec

def Matches (route : RouteSpec) (path : String) : Prop :=
  (route.pattern.matchAdmitted path).isSome = true

theorem Matches.shape {a b : RouteSpec} {path : String} (ha : a.Matches path) (hb : b.Matches path)
    (hweight : a.pattern.specificity = b.pattern.specificity)
    : ∃ shape, shape ∈ a.pattern.shapeKeys unicode ∧ shape ∈ b.pattern.shapeKeys unicode := by
  obtain ⟨outA, houtA⟩ := Option.isSome_iff_exists.mp ha
  obtain ⟨outB, houtB⟩ := Option.isSome_iff_exists.mp hb
  have hpieces : a.pattern.pathSegments.map (RoutePattern.shapePiece unicode)
      = b.pattern.pathSegments.map (RoutePattern.shapePiece unicode) :=
    RoutePattern.shapePiece_of_matchSegments houtA houtB hweight
  have hfirst : ∀ pattern : RoutePattern,
      "/" ++ join '/' (pattern.pathSegments.map (RoutePattern.shapePiece unicode))
        ∈ pattern.shapeKeys unicode := by
    intro pattern
    unfold RoutePattern.shapeKeys
    dsimp only
    split <;> simp
  refine ⟨_, hfirst a.pattern, ?_⟩
  rw [hpieces]
  exact hfirst b.pattern

theorem substitute_of_match {route : RouteSpec} (hvalid : route.Valid unicode) {path : String}
    (hpath : validateRequestPath path = .ok ()) {parameters : SortedMap String String}
    (h : route.pattern.matchAdmitted path = some parameters)
    : substitute route.pattern.canonical parameters = path
      ∧ ∀ segment ∈ route.pattern.pathSegments, ∀ name ∈ segment.single, ∀ value,
        parameters.get? name = some value → value ≠ "" ∧ '/' ∉ value.toList := by
  obtain ⟨hstart, hpieces⟩ := validateRequestPath_ok hpath
  have hparsed := hvalid.pattern
  obtain ⟨hempty, hjoin, hsingle⟩ := RoutePattern.fill_of_matchSegments h hparsed.names_path
    (fun _ _ => SortedMap.get?_empty _)
  have hwell : ∀ segment ∈ route.pattern.pathSegments,
      segment.WellFormed unicode ∧ segment.consumesPath = true :=
    fun segment hsegment => ⟨hparsed.wellFormed_path segment hsegment,
      RoutePattern.consumesPath_of_mem hsegment⟩
  constructor
  . unfold substitute
    have hrender : rawSegments route.pattern.canonical
        = route.pattern.pathSegments.map Segment.render := by
      rw [hparsed.canonical]
      apply rawSegments_joinPath
      intro piece hpiece
      obtain ⟨segment, hsegment, rfl⟩ := List.mem_map.mp hpiece
      exact WellFormed.render (hwell segment hsegment).1 (hwell segment hsegment).2
    have hfill : (route.pattern.pathSegments.map Segment.render).filterMap (fillPiece parameters)
        = route.pattern.pathSegments.filterMap (Segment.fill parameters) := by
      rw [List.filterMap_map]
      apply List.filterMap_congr
      intro segment hsegment
      exact fillPiece_render (hwell segment hsegment).1 (hwell segment hsegment).2
    rw [hrender, hfill]
    calc joinPath (route.pattern.pathSegments.filterMap (Segment.fill parameters))
        = joinPath (rawSegments path) := by
          have hsame : (route.pattern.pathSegments.filterMap (Segment.fill parameters)).isEmpty
              = (rawSegments path).isEmpty := by
            rw [Bool.eq_iff_iff, List.isEmpty_iff, List.isEmpty_iff]
            exact hempty
          unfold joinPath
          rw [hjoin, hsame]
      _ = path := joinPath_rawSegments hstart
  . intro segment hsegment name hname value hvalue
    exact hpieces value (hsingle segment hsegment name hname value hvalue)

end RouteSpec

end Requests

section Resolution

variable {builder : RouteGraphBuilder} {graph : RouteGraph} {path : String}

namespace RouteGraph

def winner (graph : RouteGraph) (method : RouteMethod) (normalized : String) : Option RouteSpec :=
  (graph.routes.filter (fun route => route.method = method)).find?
    (fun route => (route.pattern.matchAdmitted normalized).isSome)

theorem winner_eq_none {method : RouteMethod} {normalized : String}
    : graph.winner method normalized = none
      ↔ ∀ route ∈ graph.routes, route.method = method → ¬ route.Matches normalized := by
  unfold winner
  rw [List.find?_eq_none]
  constructor
  . intro h route hroute hmethod
    exact h route (List.mem_filter.mpr ⟨hroute, decide_eq_true hmethod⟩)
  . intro h route hroute
    obtain ⟨hroute, hmethod⟩ := List.mem_filter.mp hroute
    exact h route hroute (of_decide_eq_true hmethod)

theorem winner_eq_some {method : RouteMethod} {normalized : String} {route : RouteSpec}
    (h : graph.winner method normalized = some route)
    : route ∈ graph.routes ∧ route.method = method ∧ route.Matches normalized := by
  unfold winner at h
  obtain ⟨hroute, hmethod⟩ := List.mem_filter.mp (List.mem_of_find?_eq_some h)
  have hmatch := List.find?_some h
  exact ⟨hroute, of_decide_eq_true hmethod, hmatch⟩

theorem resolve_eq (hpath : validateRequestPath path = .ok ())
    (hnormal : validateRequestPath (unicode.nfc path) = .ok ()) (method : RouteMethod)
    : graph.resolve unicode method path
      = match graph.winner method (unicode.nfc path) with
        | some route =>
          .ok (routeMatch ((graph.resolvedScopes.get? route.id).getD .default) route
            ((route.pattern.matchAdmitted (unicode.nfc path)).getD .empty))
        | none =>
          if (graph.allowedMethods (unicode.nfc path)).keys.isEmpty then
            .error .notFound
          else
            .error (.methodNotAllowed (graph.allowedMethods (unicode.nfc path)).keys) := by
  unfold resolve
  dsimp only
  rw [hpath, hnormal]
  rfl

theorem mem_allowedMethods {method : RouteMethod} {normalized : String}
    : method ∈ (graph.allowedMethods normalized).keys
      ↔ ∃ route ∈ graph.routes, route.method = method ∧ route.Matches normalized := by
  unfold allowedMethods
  rw [SortedSet.mem_keys_iff, SortedSet.contains_ofList, List.mem_map]
  constructor
  . rintro ⟨route, hroute, hmethod⟩
    obtain ⟨hroute, hmatch⟩ := List.mem_filter.mp hroute
    exact ⟨route, hroute, hmethod, hmatch⟩
  . rintro ⟨route, hroute, hmethod, hmatch⟩
    exact ⟨route, List.mem_filter.mpr ⟨hroute, hmatch⟩, hmethod⟩

theorem resolve_ok_iff (hpath : validateRequestPath path = .ok ())
    (hnormal : validateRequestPath (unicode.nfc path) = .ok ()) (method : RouteMethod)
    : (∃ found, graph.resolve unicode method path = .ok found)
      ↔ ∃ route ∈ graph.routes, route.method = method ∧ route.Matches (unicode.nfc path) := by
  rw [resolve_eq hpath hnormal]
  cases hwinner : graph.winner method (unicode.nfc path) with
  | some route => exact ⟨fun _ => ⟨route, winner_eq_some hwinner⟩, fun _ => ⟨_, rfl⟩⟩
  | none =>
    constructor
    . rintro ⟨found, hfound⟩
      dsimp only at hfound
      split at hfound <;> cases hfound
    . rintro ⟨route, hroute, hmethod, hmatch⟩
      exact absurd hmatch (winner_eq_none.mp hwinner route hroute hmethod)

end RouteGraph

theorem Sealed.winner_most_specific (h : Sealed unicode sha256 builder graph) {method : RouteMethod}
    {normalized : String} {route other : RouteSpec}
    (hwinner : graph.winner method normalized = some route) (hother : other ∈ builder.routes)
    (hmethod : other.method = method) (hmatch : other.Matches normalized) (hne : other ≠ route)
    : other.pattern.specificity < route.pattern.specificity := by
  obtain ⟨hroute, hmethod', hmatch'⟩ := RouteGraph.winner_eq_some hwinner
  have hsorted : (graph.routes.filter (fun route => route.method = method)).Pairwise
      (fun a b => matchOrder a ≤ matchOrder b) := by
    rw [h.routes]
    exact sortBy_sorted.filter _
  have hle : matchOrder route ≤ matchOrder other := by
    apply first_le hsorted hwinner _ hmatch
    exact List.mem_filter.mpr ⟨h.mem_routes.mpr hother, decide_eq_true hmethod⟩
  have hweight : other.pattern.specificity ≠ route.pattern.specificity := by
    intro hsame
    obtain ⟨shape, hshape, hshape'⟩ : ∃ shape, shape ∈ other.pattern.shapeKeys unicode
        ∧ shape ∈ route.pattern.shapeKeys unicode := RouteSpec.Matches.shape hmatch hmatch' hsame
    apply (h.apart_of_ne hother (h.mem_routes.mp hroute) hne).2 shape hshape shape hshape'
    rw [hmethod, hmethod']
  cases Prod.Lex.le_iff.mp hle with
  | inl hlt => exact OrderDual.toDual_lt_toDual.mp hlt
  | inr htie => exact absurd (OrderDual.toDual_inj.mp htie.1).symm hweight

theorem resolve_most_specific (hslash : unicode.KeepsSlashes) (hbuilt : builder.Built unicode)
    (hseal : builder.sealGraph unicode sha256 = .ok graph) (method : RouteMethod)
    (hpath : validateRequestPath path = .ok ()) (hnormal : validateRequestPath (unicode.nfc path) = .ok ())
    : ((∃ found, graph.resolve unicode method path = .ok found)
        ↔ ∃ route ∈ builder.routes, route.method = method ∧ route.Matches (unicode.nfc path))
      ∧ (∀ found, graph.resolve unicode method path = .ok found →
        ∃ route ∈ builder.routes,
          found.routeId = route.id
          ∧ found.method = method
          ∧ route.method = method
          ∧ found.pattern = route.pattern.canonical
          ∧ route.pattern.matchAdmitted (unicode.nfc path) = some found.parameters
          ∧ (∀ other ∈ builder.routes, other.method = method → other.Matches (unicode.nfc path) →
            other ≠ route → other.pattern.specificity < route.pattern.specificity)
          ∧ substitute found.pattern found.parameters = unicode.nfc path
          ∧ ∀ segment ∈ route.pattern.pathSegments, ∀ name ∈ segment.single, ∀ value,
            found.parameters.get? name = some value → value ≠ "" ∧ '/' ∉ value.toList)
      ∧ ∀ error, graph.resolve unicode method path = .error error →
        (error = .notFound ∧ ∀ method found, graph.resolve unicode method path ≠ .ok found)
        ∨ ∃ allowed, error = .methodNotAllowed allowed ∧ allowed ≠ []
          ∧ allowed.Pairwise (· < ·)
          ∧ ∀ method, method ∈ allowed ↔ ∃ found, graph.resolve unicode method path = .ok found := by
  have hsealed := sealGraph_ok hseal
  have hvalid := hbuilt.valid hslash
  have hok : ∀ method, (∃ found, graph.resolve unicode method path = .ok found)
      ↔ ∃ route ∈ graph.routes, route.method = method ∧ route.Matches (unicode.nfc path) :=
    RouteGraph.resolve_ok_iff hpath hnormal
  refine ⟨?_, ?_, ?_⟩
  . rw [hok]
    constructor
    . rintro ⟨route, hroute, h⟩
      exact ⟨route, hsealed.mem_routes.mp hroute, h⟩
    . rintro ⟨route, hroute, h⟩
      exact ⟨route, hsealed.mem_routes.mpr hroute, h⟩
  . intro found hfound
    rw [RouteGraph.resolve_eq hpath hnormal] at hfound
    split at hfound
    . next route hwinner =>
      cases hfound
      obtain ⟨hroute, hmethod, hmatch⟩ := RouteGraph.winner_eq_some hwinner
      obtain ⟨parameters, hparameters⟩ := Option.isSome_iff_exists.mp hmatch
      have hmem := hsealed.mem_routes.mp hroute
      obtain ⟨hsubstitute, hsingle⟩ :=
        RouteSpec.substitute_of_match (hvalid.routes route hmem) hnormal hparameters
      unfold RouteGraph.routeMatch
      dsimp only
      rw [hparameters, Option.getD_some]
      exact ⟨route, hmem, rfl, hmethod, hmethod, rfl, hparameters,
        fun other hother hsame hmatches hne =>
          hsealed.winner_most_specific hwinner hother hsame hmatches hne,
        hsubstitute, hsingle⟩
    . split at hfound <;> cases hfound
  . intro error herror
    have hallowed : ∀ method, method ∈ (graph.allowedMethods (unicode.nfc path)).keys ↔
        ∃ found, graph.resolve unicode method path = .ok found := by
      intro method
      rw [hok, RouteGraph.mem_allowedMethods]
    rw [RouteGraph.resolve_eq hpath hnormal] at herror
    split at herror
    . cases herror
    . split at herror
      . next hempty =>
        cases herror
        left
        refine ⟨rfl, ?_⟩
        intro method found hfound
        have hmem := (hallowed method).mpr ⟨found, hfound⟩
        rw [List.isEmpty_iff.mp hempty] at hmem
        cases hmem
      . next hsome =>
        cases herror
        right
        exact ⟨_, rfl, fun hnil => hsome (by rw [hnil]; rfl), SortedMap.keys_sorted _, hallowed⟩

end Resolution

section Samples

def charUnicode (f : Char → List Char) : Unicode :=
  ⟨mapChars f, id, String.map Char.toLower⟩

-- U+0958 is composed of two characters and excluded from composition.
def decomposed (c : Char) : List Char :=
  if c = '\u0958' then ['\u0915', '\u093C'] else [c]

def sampleUnicode : Unicode := charUnicode decomposed

theorem sampleUnicode_keepsSlashes : sampleUnicode.KeepsSlashes := by
  intro text
  apply split_mapChars
  . decide
  . intro d hd
    unfold decomposed
    split
    . decide
    . simpa using Ne.symm hd

theorem sampleUnicode_idempotent (text : String)
    : sampleUnicode.nfc (sampleUnicode.nfc text) = sampleUnicode.nfc text := by
  change mapChars decomposed (mapChars decomposed text) = mapChars decomposed text
  unfold mapChars
  rw [String.toList_ofList, List.flatMap_assoc]
  congr 2
  funext c
  unfold decomposed
  split
  . decide
  . next hc => simp [hc]

def sampleBuilder (routes : List (String × RouteMethod × String))
    : Except RouteError RouteGraphBuilder :=
  routes.foldlM (fun builder (id, method, pattern) => do
    let route ← RouteSpec.new sampleUnicode id method pattern
    .ok (builder.withRoute route)) .new

theorem sampleBuilder_built {routes : List (String × RouteMethod × String)}
    {builder : RouteGraphBuilder} (h : sampleBuilder routes = .ok builder)
    : builder.Built sampleUnicode := by
  unfold sampleBuilder at h
  have hstart : RouteGraphBuilder.new.Built sampleUnicode := .new
  generalize RouteGraphBuilder.new = start at h hstart
  induction routes generalizing start with
  | nil =>
    cases h
    exact hstart
  | cons first routes ih =>
    rw [List.foldlM_cons] at h
    obtain ⟨next, hnext, h⟩ := Except.bind_eq_ok.mp h
    obtain ⟨route, hroute, hnext⟩ := Except.bind_eq_ok.mp hnext
    cases hnext
    have hregistration : (Registration.route route).Built sampleUnicode := .new hroute
    exact ih _ h (.register hstart hregistration rfl)

def longPath : String := String.ofList ('/' :: List.replicate 341 '\u0958')

theorem length_longPath : (utf8 longPath).length = 1024 := by
  unfold longPath
  rw [utf8_ofList, List.length_flatMap, List.map_cons, List.map_replicate, List.sum_cons, List.sum_replicate]
  decide

theorem length_normalized : (utf8 (sampleUnicode.nfc longPath)).length = 2047 := by
  change (utf8 (mapChars decomposed longPath)).length = 2047
  unfold longPath mapChars
  rw [utf8_ofList, String.toList_ofList, List.flatMap_assoc, List.length_flatMap, List.map_cons,
    List.map_replicate, List.sum_cons, List.sum_replicate]
  decide

theorem rawSegments_longPath
    : rawSegments longPath = [String.ofList (List.replicate 341 '\u0958')] := by
  have hjoin : longPath = joinPath [String.ofList (List.replicate 341 '\u0958')] := by
    apply String.toList_inj.mp
    rw [toList_joinPath (List.cons_ne_nil _ _), join_singleton, String.toList_ofList]
    exact String.toList_ofList
  rw [hjoin]
  apply rawSegments_joinPath
  intro piece hpiece
  rw [List.mem_singleton.mp hpiece]
  refine ⟨by rw [String.toList_ofList]; decide +kernel, ?_⟩
  intro hempty
  have hchars := congrArg String.toList hempty
  rw [String.toList_ofList] at hchars
  cases hchars

theorem longPath_accepted : validateRequestPath longPath = .ok () := by
  have hlist : longPath.toList = '/' :: List.replicate 341 '\u0958' := String.toList_ofList
  have hne : ∀ text : String, text.toList.length < 342 → longPath ≠ text := by
    rintro text hlength rfl
    rw [hlist, List.length_cons, List.length_replicate] at hlength
    omega
  have hpieces : (rawSegments longPath).any (fun segment => segment = "." || segment = "..")
      = false := by
    have hpiece : ∀ text : String, text.toList.length < 341 →
        String.ofList (List.replicate 341 '\u0958') ≠ text := by
      rintro text hlength rfl
      rw [String.toList_ofList, List.length_replicate] at hlength
      omega
    rw [rawSegments_longPath, List.any_cons, decide_eq_false (hpiece "." (by decide)),
      decide_eq_false (hpiece ".." (by decide))]
    rfl
  unfold validateRequestPath startsWith endsWith contains
  rw [length_longPath, hpieces, hlist, decide_eq_false (hne "" (by decide)),
    decide_eq_true (hne "/" (by decide))]
  decide +kernel

theorem resolve_most_specific_users
    : ∃ builder graph found,
      sampleBuilder [("user", .get, "/users/:id"), ("me", .get, "/users/me")] = .ok builder
      ∧ builder.sealGraph sampleUnicode sha256Digest = .ok graph
      ∧ graph.resolve sampleUnicode .get "/users/me" = .ok found
      ∧ found.routeId = "me"
      ∧ substitute found.pattern found.parameters = "/users/me" := by
  have hran : ((sampleBuilder [("user", .get, "/users/:id"), ("me", .get, "/users/me")]).toOption.any
      (fun builder => (builder.sealGraph sampleUnicode sha256Digest).toOption.any (fun graph =>
        (graph.resolve sampleUnicode .get "/users/me").toOption.any (fun found =>
          found.routeId = "me")))) = true := by decide +kernel
  obtain ⟨builder, hbuilder, hran⟩ := (Option.any_eq_true _ _).mp hran
  obtain ⟨graph, hgraph, hran⟩ := (Option.any_eq_true _ _).mp hran
  obtain ⟨found, hfound, hran⟩ := (Option.any_eq_true _ _).mp hran
  rw [Except.toOption_eq_some] at hbuilder hgraph hfound
  have hpath : validateRequestPath "/users/me" = .ok () := by decide
  obtain ⟨_, hresolved, _⟩ := resolve_most_specific sampleUnicode_keepsSlashes
    (sampleBuilder_built hbuilder) hgraph .get hpath (by decide)
  obtain ⟨_, _, _, _, _, _, _, _, hsubstitute, _⟩ := hresolved found hfound
  exact ⟨builder, graph, found, hbuilder, hgraph, hfound, of_decide_eq_true hran, hsubstitute⟩

theorem normal_form_refused
    : sampleUnicode.KeepsSlashes
      ∧ (∀ text, sampleUnicode.nfc (sampleUnicode.nfc text) = sampleUnicode.nfc text)
      ∧ ∃ (builder : RouteGraphBuilder) (graph : RouteGraph), builder.Built sampleUnicode
        ∧ builder.sealGraph sampleUnicode sha256Digest = .ok graph
        ∧ validateRequestPath longPath = .ok ()
        ∧ (∃ route ∈ builder.routes, route.method = .get
          ∧ route.Matches (sampleUnicode.nfc longPath))
        ∧ graph.resolve sampleUnicode .get longPath = .error .invalidPath := by
  refine ⟨sampleUnicode_keepsSlashes, sampleUnicode_idempotent, ?_⟩
  have hran : ((sampleBuilder [("files", .get, "/*rest")]).toOption.any
      (fun builder => (builder.sealGraph sampleUnicode sha256Digest).toOption.isSome
        && builder.routes.map (fun route => (route.method, route.pattern.pathSegments))
          = [(RouteMethod.get, [Segment.catchAll "rest"])])) = true := by decide
  obtain ⟨builder, hbuilder, hran⟩ := (Option.any_eq_true _ _).mp hran
  rw [Bool.and_eq_true] at hran
  obtain ⟨graph, hgraph⟩ := Option.isSome_iff_exists.mp hran.1
  rw [Except.toOption_eq_some] at hbuilder hgraph
  have hroute : ∃ route ∈ builder.routes, (route.method, route.pattern.pathSegments)
      = (RouteMethod.get, [Segment.catchAll "rest"]) := by
    apply List.mem_map.mp
    rw [of_decide_eq_true hran.2]
    exact List.mem_singleton.mpr rfl
  obtain ⟨route, hroute, hsame⟩ := hroute
  obtain ⟨hmethod, hsegments⟩ := Prod.mk.inj hsame
  refine ⟨builder, graph, sampleBuilder_built hbuilder, hgraph, longPath_accepted,
    ⟨route, hroute, hmethod, ?_⟩, ?_⟩
  . have hinput : rawSegments (sampleUnicode.nfc longPath) ≠ [] := by
      unfold rawSegments
      rw [if_neg]
      . exact split_ne_nil
      . intro hroot
        have hlength := length_normalized
        rw [hroot] at hlength
        cases hlength
    unfold RouteSpec.Matches RoutePattern.matchAdmitted
    rw [hsegments]
    unfold RoutePattern.matchSegments
    rw [if_neg (by simpa using hinput)]
    rfl
  . have hlong : validateRequestPath (sampleUnicode.nfc longPath) = .error .invalidPath := by
      unfold validateRequestPath
      rw [length_normalized]
      simp [maxPatternBytes]
    unfold RouteGraph.resolve
    dsimp only
    rw [longPath_accepted, hlong]
    rfl

end Samples

end Router

end Pliego
