import Pliego.Pboc.Admission
import Pliego.Pboc.Router
import Pliego.Router.Canonical

/-!
The export of a sealed graph into a manifest, and when the router of the manifest answers like the graph.
-/

namespace Pliego

open Bytes Text Sorting

namespace Pboc

open Router

variable {unicode : Unicode} {sha256 : Sha256}

structure Choice where
  functionId : RouteSpec → String
  renderMode : RouteSpec → RenderMode
  requiredFeatures : RouteSpec → List FeatureRequirement

def exportRoute (choice : Choice) (route : RouteSpec) : PbocRoute :=
  .dynamic route (choice.functionId route) (choice.renderMode route) (choice.requiredFeatures route)

-- In the canonical order of a manifest.
def exportRoutes (choice : Choice) (graph : RouteGraph) : List PbocRoute :=
  sortBy routeOrder (graph.routes.map (exportRoute choice))

-- The manifest is valid but for the routes that are exported into it.
structure OtherwiseValid (unicode : Unicode) (manifest : PbocManifest) (choice : Choice)
    (graph : RouteGraph) : Prop where
  rest : validateManifest unicode { manifest with routes := [] } = .ok ()
  functions : ∀ route ∈ graph.routes, ∃ function ∈ manifest.functions,
    function.id = choice.functionId route ∧ choice.renderMode route ∈ function.renderModes
  cachePolicies : ∀ route ∈ graph.routes, ∀ id ∈ route.cachePolicy,
    id ∈ cacheIds manifest.cachePolicies
  features : ∀ route ∈ graph.routes,
    ascending ((choice.requiredFeatures route).map FeatureRequirement.id) = true
      ∧ ∀ feature ∈ choice.requiredFeatures route, validateFeature feature "route feature" = .ok ()
        ∧ feature.required = true
        ∧ ∃ declared ∈ manifest.capabilities,
          declared.id = feature.id ∧ declared.version = feature.version

def PbocRouter.answer (unicode : Unicode) (router : PbocRouter) (method path : String)
    : Option (Except PbocRouterError (String × SortedMap String String)) :=
  (router.resolve unicode method path).map
    (Except.map (fun found => (found.route.id, found.parameters)))

structure Exportable (route : RouteSpec) : Prop where
  method : (utf8 route.method.text).all isAsciiUppercase = true
  pattern : ∀ name, .optionalParameter name ∉ route.pattern.pathSegments
  length : (utf8 route.pattern.canonical).length ≤ maxPatternBytes

section Router

variable {manifest : PbocManifest} {router : PbocRouter}

theorem RouteMethod.new_text (method : RouteMethod) : RouteMethod.new method.text = .ok method := by
  unfold RouteMethod.new
  rw [dif_pos method.valid]

theorem foldl_insert_get? {routes : List PbocRoute} {map : SortedMap String PbocRoute}
    (hnodup : (routes.map PbocRoute.id).Nodup)
    : (∀ route ∈ routes, (routes.foldl (fun map route => map.insert route.id route) map).get? route.id
        = some route)
      ∧ ∀ id, id ∉ routes.map PbocRoute.id →
        (routes.foldl (fun map route => map.insert route.id route) map).get? id = map.get? id := by
  induction routes generalizing map with
  | nil => simp
  | cons route routes ih =>
    rw [List.map_cons, List.nodup_cons] at hnodup
    rw [List.foldl_cons]
    obtain ⟨hroutes, hother⟩ := @ih (map.insert route.id route) hnodup.2
    refine ⟨?_, ?_⟩
    . intro other hmem
      cases List.mem_cons.mp hmem with
      | inl hsame =>
        subst hsame
        rw [hother _ hnodup.1, SortedMap.get?_insert, if_pos rfl]
      | inr hmem => exact hroutes other hmem
    . intro id hid
      rw [List.map_cons, List.mem_cons, not_or] at hid
      rw [hother id hid.2, SortedMap.get?_insert, if_neg hid.1]

theorem routeMap_get? {routes : List PbocRoute} (hnodup : (routes.map PbocRoute.id).Nodup)
    {route : PbocRoute} (hroute : route ∈ routes) : (routeMap routes).get? route.id = some route :=
  (foldl_insert_get? hnodup).1 route hroute

theorem PbocRouter.answer_eq (h : PbocRouter.new unicode sha256 manifest = .ok router)
    (method : RouteMethod) (path : String)
    : router.answer unicode method.text path
      = some ((router.graph.answer unicode method path).mapError .resolve) := by
  obtain ⟨hvalid, _, hspecs, hgraph, hroutes⟩ := new_ok_iff.mp h
  have hids := (validateRoutes_ok_iff.mp (validateManifest_ok hvalid).2).2.1
  unfold PbocRouter.answer RouteGraph.answer resolve
  rw [RouteMethod.new_text]
  dsimp only
  cases hresolve : router.graph.resolve unicode method path with
  | error error => rfl
  | ok found =>
    obtain ⟨spec, hspec, hsame⟩ := RouteGraph.mem_of_resolve hresolve
    rw [(sealGraph_ok hgraph).mem_routes] at hspec
    obtain ⟨route, hroute, hok⟩ := mem_specs.mp hspec
    have hid := (PbocRoute.spec_ok hok).1
    have hget := routeMap_get? hids hroute
    rw [← hroutes, ← hid, hsame] at hget
    dsimp only
    rw [hget]
    change some (Except.ok (route.id, found.parameters)) = some (Except.ok (found.routeId, found.parameters))
    rw [← hid, hsame]

end Router

section Export

variable {manifest : PbocManifest} {choice : Choice} {builder : RouteGraphBuilder} {graph : RouteGraph}

def exportedSpec (route : RouteSpec) : RouteSpec :=
  { id := route.id
    method := route.method
    pattern := route.pattern.withoutGroups
    scope := none
    middleware := []
    errorBoundaries := []
    loaders := []
    actions := []
    cachePolicy := route.cachePolicy
    resources := [] }

theorem exportedSpec_alike {route : RouteSpec} : (exportedSpec route).Alike route :=
  ⟨rfl, rfl, RoutePattern.pathSegments_withoutGroups⟩

theorem shapeKeys_exportedSpec {route : RouteSpec}
    : (exportedSpec route).pattern.shapeKeys unicode = route.pattern.shapeKeys unicode := by
  unfold RoutePattern.shapeKeys
  rw [exportedSpec_alike.pathSegments]

theorem Apart.exported {a b : RouteSpec} (h : Apart unicode a b)
    : Apart unicode (exportedSpec a) (exportedSpec b) := by
  unfold Apart
  rw [shapeKeys_exportedSpec, shapeKeys_exportedSpec]
  exact h

theorem matchOrder_exportedSpec {route : RouteSpec}
    : matchOrder (exportedSpec route) = matchOrder route := by
  unfold matchOrder RoutePattern.specificity
  rw [exportedSpec_alike.pathSegments]
  rfl

theorem isDashed_byte_ascii {byte : UInt8}
    (h : (isAsciiLowercase byte || isAsciiDigit byte || byte == 45) = true) : byte.toNat < 128 := by
  revert byte
  decide +kernel

/--
A route identifier is a portable identifier.
-/
theorem boundedId_of_isRouteId {id : String} (h : isRouteId id = true)
    : boundedId id "route.id" = .ok () := by
  unfold isRouteId isDashed at h
  split at h
  . cases h
  . next first rest hbytes =>
    simp only [Bool.and_eq_true, decide_eq_true_eq, Bool.not_eq_true'] at h
    obtain ⟨⟨⟨⟨hlength, hfirst⟩, hrest⟩, hend⟩, hpair⟩ := h
    have hall : (utf8 id).all
        (fun byte => isAsciiLowercase byte || isAsciiDigit byte || byte == 45) = true := by
      rw [hbytes, List.all_cons, hfirst, hrest]
      rfl
    have hchars : ∀ c ∈ id.toList, c ≠ '.' ∧ isControl c = false := by
      intro c hc
      obtain ⟨hascii, hbyte⟩ := ascii_of_all (fun _ => isDashed_byte_ascii) hall hc
      have hcodes : ∀ code : Fin 128, (code.val < 32 ∨ code.val = 127 ∨ code.val = 46) →
          ¬ (isAsciiLowercase (UInt8.ofNat code.val) || isAsciiDigit (UInt8.ofNat code.val)
            || UInt8.ofNat code.val == 45) = true := by
        decide
      have hcode := hcodes ⟨c.toNat, hascii⟩
      constructor
      . rintro rfl
        exact hcode (.inr (.inr rfl)) hbyte
      . rw [← Bool.not_eq_true]
        intro hcontrol
        unfold isControl at hcontrol
        simp only [Bool.or_eq_true, Bool.and_eq_true, decide_eq_true_eq] at hcontrol
        apply hcode _ hbyte
        dsimp only
        omega
    have hdot : '.' ∉ id.toList := fun hmem => (hchars '.' hmem).1 rfl
    have hdots : containsPair '.' '.' id.toList = false := by
      rw [← List.append_nil id.toList, containsPair_append hdot]
      rfl
    have hcontrols : id.toList.any isControl = false :=
      List.any_eq_false.mpr (fun c hc => by simp [(hchars c hc).2])
    have hempty : id ≠ "" := by
      rintro rfl
      cases hbytes
    have hshort : (utf8 id).length ≤ 64 := hlength
    have hportable : isPortableId id = true := by
      unfold isPortableId
      rw [hbytes]
      dsimp only
      rw [← hbytes, hfirst, hend, not_endsWith hdot, hpair, hdots, decide_eq_true (by omega)]
      have hbroad : rest.all isPortableIdByte = true := by
        rw [List.all_eq_true] at hrest ⊢
        intro byte hbyte
        unfold isPortableIdByte
        rw [hrest byte hbyte, Bool.true_or]
      rw [hbroad]
      rfl
    have hbound : (utf8 id).length ≤ maxTextBytes := by
      unfold maxTextBytes
      omega
    unfold boundedId boundedText
    rw [Except.bind_unit_eq_ok, ensure_ok, ensure_ok, hcontrols]
    simp [hempty, hbound, hportable]

theorem requestPath_canonical (hunicode : unicode.Canonical) {route : RouteSpec}
    (hvalid : route.Valid unicode) (hexport : Exportable route)
    : isRequestPath route.pattern.canonical = true := by
  obtain ⟨hstart, hpair, hend⟩ := hvalid.pattern.canonical_shape
  have hnot : ∀ c, c ∈ ['\\', '%', '#'] ∨ isControl c = true →
      c ∉ route.pattern.canonical.toList :=
    fun c hc => hvalid.pattern.not_mem_canonical hunicode hc
  have hmark : '?' ∉ route.pattern.canonical.toList := by
    rw [hvalid.pattern.mark_mem_canonical]
    rintro ⟨name, hname⟩
    exact hexport.pattern name hname
  have hcontrols : route.pattern.canonical.toList.any isControl = false := by
    rw [List.any_eq_false]
    exact fun c hc hcontrol => hnot c (.inr hcontrol) hc
  have hempty : route.pattern.canonical ≠ "" := by
    intro hnone
    rw [hnone] at hstart
    cases hstart
  have hbound : (utf8 route.pattern.canonical).length ≤ maxTextBytes :=
    Nat.le_trans hexport.length (by decide)
  unfold isRequestPath
  rw [hstart, hpair, hcontrols, not_contains (hnot '\\' (by simp)), not_contains (hnot '%' (by simp)),
    not_contains hmark, not_contains (hnot '#' (by simp)),
    not_contains (hnot '\x00' (.inr (by decide))), decide_eq_true hbound, decide_eq_true hempty]
  by_cases hroot : route.pattern.canonical = "/"
  . simp [hroot]
  . simp [hend hroot]

theorem spec_exportRoute (hunicode : unicode.Canonical) {route : RouteSpec} (hvalid : route.Valid unicode)
    (hlength : (utf8 route.pattern.canonical).length ≤ maxPatternBytes)
    : (exportRoute choice route).spec unicode = .ok (exportedSpec route) := by
  have hnew : RouteSpec.new unicode route.id route.method route.pattern.canonical
      = .ok { exportedSpec route with cachePolicy := none } := by
    unfold RouteSpec.new
    rw [validateRouteId_ok.mpr hvalid.id, hvalid.pattern.reparse hunicode hlength]
    rfl
  unfold PbocRoute.spec exportRoute PbocRoute.dynamic
  dsimp only
  rw [RouteMethod.new_text]
  change (RouteSpec.new unicode route.id route.method route.pattern.canonical >>= _) = _
  rw [hnew]
  cases hcache : route.cachePolicy with
  | none =>
    unfold exportedSpec
    rw [hcache]
    rfl
  | some id =>
    change RouteSpec.withCachePolicy _ id = _
    unfold RouteSpec.withCachePolicy exportedSpec
    rw [validateDataId_ok.mpr (hvalid.cachePolicy id hcache), hcache]
    rfl

theorem routeValid_exportRoute (hunicode : unicode.Canonical)
    (hrest : OtherwiseValid unicode manifest choice graph) {route : RouteSpec}
    (hroute : route ∈ graph.routes) (hvalid : route.Valid unicode) (hexport : Exportable route)
    : RouteValid manifest.references (exportRoute choice route) := by
  have hmethod : isUppercaseMethod route.method.text = true := by
    have htoken := route.method.valid
    unfold isMethod at htoken
    simp only [Bool.and_eq_true] at htoken
    unfold isUppercaseMethod
    rw [htoken.1.1.1, htoken.1.1.2, hexport.method]
    rfl
  obtain ⟨function, hfunction, hid, hmode⟩ := hrest.functions route hroute
  have hfind : manifest.functions.find? (fun candidate => decide (candidate.id = choice.functionId route))
      = some function := by
    have hchecked := (validateManifest_ok hrest.rest).1.functions
    obtain ⟨hids, _⟩ := Except.bind_unit_eq_ok.mp hchecked
    have hnodup := (ids_ascending hids).imp (fun hlt => ne_of_lt hlt)
    rw [← hid]
    exact find?_eq_some_of_mem hnodup hfunction
  refine ⟨boundedId_of_isRouteId hvalid.id, hmethod,
    requestPath_canonical hunicode hvalid hexport, ?_, hrest.cachePolicies route hroute, ?_⟩
  . unfold validateRouteTarget exportRoute PbocRoute.dynamic
    simp only [PbocManifest.references]
    rw [hfind]
    exact ensure_ok.mpr (by simpa using hmode)
  . obtain ⟨horder, hfeatures⟩ := hrest.features route hroute
    unfold validateRouteFeatures
    rw [Except.bind_unit_eq_ok]
    refine ⟨ensure_ok.mpr horder, Except.forM_eq_ok.mpr ?_⟩
    intro feature hfeature
    obtain ⟨hvalid, hrequired, declared, hdeclared, hsame⟩ := hfeatures feature hfeature
    rw [Except.bind_unit_eq_ok, Except.bind_unit_eq_ok, ensure_ok, ensure_ok]
    refine ⟨hvalid, hrequired, List.any_eq_true.mpr ⟨declared, hdeclared, ?_⟩⟩
    simpa using hsame

theorem maxRoutes_le (hbuilt : builder.Built unicode) : builder.maxRoutes ≤ defaultMaxRoutes := by
  induction hbuilt with
  | new => exact Nat.le_refl _
  | withMaxRoutes h =>
    unfold RouteGraphBuilder.withMaxRoutes at h
    split at h
    . cases h
    . next hroom =>
      cases h
      simp only [Bool.or_eq_true, decide_eq_true_eq, not_or, not_lt] at hroom
      exact hroom.2
  | @register builder _ registration _ _ h ih =>
    cases registration with
    | declareMiddleware id capabilities =>
      obtain ⟨_, h⟩ := Except.bind_unit_eq_ok.mp h
      split at h
      . cases h
      . cases h
        exact ih
    | preRouteMiddleware id =>
      obtain ⟨_, _, h⟩ := Except.bind_eq_ok.mp h
      cases h
      exact ih
    | errorBoundary id =>
      obtain ⟨_, _, h⟩ := Except.bind_eq_ok.mp h
      cases h
      exact ih
    | scope scope =>
      cases h
      exact ih
    | route route =>
      cases h
      exact ih

theorem exportRoutes_eq
    : exportRoutes choice graph
      = (sortBy (fun route => routeOrder (exportRoute choice route)) graph.routes).map
        (exportRoute choice) :=
  sortBy_map

theorem mem_exportRoutes {route : PbocRoute}
    : route ∈ exportRoutes choice graph ↔ ∃ source ∈ graph.routes, exportRoute choice source = route := by
  unfold exportRoutes
  rw [mem_sortBy, List.mem_map]

theorem specs_exportRoutes (hunicode : unicode.Canonical)
    (hroutes : ∀ route ∈ graph.routes, route.Valid unicode ∧ Exportable route)
    : specs unicode (exportRoutes choice graph)
      = (sortBy (fun route => routeOrder (exportRoute choice route)) graph.routes).map exportedSpec := by
  unfold specs
  rw [exportRoutes_eq, List.filterMap_map, ← List.filterMap_eq_map]
  apply List.filterMap_congr
  intro route hroute
  obtain ⟨hvalid, hexport⟩ := hroutes route (mem_sortBy.mp hroute)
  rw [Function.comp_apply, spec_exportRoute hunicode hvalid hexport.length]
  rfl

/--
The new graph has the routes of the old one, in the same order.
-/
theorem routes_of_sealed (hunicode : unicode.Canonical)
    (hseal : builder.sealGraph unicode sha256 = .ok graph) {graph' : RouteGraph}
    (hroutes : ∀ route ∈ graph.routes, route.Valid unicode ∧ Exportable route)
    (hseal' : (routerBuilder unicode (exportRoutes choice graph)).sealGraph unicode sha256 = .ok graph')
    : graph'.routes = graph.routes.map exportedSpec := by
  have hsealed := sealGraph_ok hseal
  have hbuilder : (routerBuilder unicode (exportRoutes choice graph)).routes
      = (sortBy (fun route => routeOrder (exportRoute choice route)) graph.routes).map exportedSpec :=
    specs_exportRoutes hunicode hroutes
  have hperm : (sortBy canonicalRouteOrder
      ((sortBy (fun route => routeOrder (exportRoute choice route)) graph.routes).map exportedSpec)).Perm
      (graph.routes.map exportedSpec) :=
    sortBy_perm.trans (sortBy_perm.map _)
  have hkeys : ((graph.routes.map exportedSpec).map matchOrder).Nodup := by
    have hids : (graph.routes.map RouteSpec.id).Nodup := by
      have hapart : graph.routes.Pairwise (Apart unicode) := by
        rw [hsealed.routes]
        exact hsealed.apart.perm sortBy_perm.symm Apart.symm
      exact Pairwise.ids_nodup hapart
    apply List.Nodup.of_map (fun key => (ofLex (ofLex key).2).2)
    rw [List.map_map, List.map_map]
    exact hids
  rw [(sealGraph_ok hseal').routes, hbuilder,
    sortBy_eq_of_perm hperm ((hperm.map matchOrder).nodup_iff.mpr hkeys), sortBy_map]
  congr 1
  calc sortBy (fun route => matchOrder (exportedSpec route)) graph.routes
      = sortBy matchOrder graph.routes := by
        congr 1
        funext route
        exact matchOrder_exportedSpec
    _ = graph.routes := by rw [hsealed.routes, sortBy_sortBy]

theorem validateRoutes_exportRoutes (hunicode : unicode.Canonical)
    (hseal : builder.sealGraph unicode sha256 = .ok graph) (hrest : OtherwiseValid unicode manifest choice graph)
    (hroutes : ∀ route ∈ graph.routes, route.Valid unicode ∧ Exportable route)
    : validateRoutes manifest.references (exportRoutes choice graph) = .ok () := by
  have hsealed := sealGraph_ok hseal
  have hapart : graph.routes.Pairwise (Apart unicode) := by
    rw [hsealed.routes]
    exact hsealed.apart.perm sortBy_perm.symm Apart.symm
  have hperm : (exportRoutes choice graph).Perm (graph.routes.map (exportRoute choice)) := sortBy_perm
  have hids : ((exportRoutes choice graph).map PbocRoute.id).Nodup := by
    rw [(hperm.map PbocRoute.id).nodup_iff, List.map_map]
    exact Pairwise.ids_nodup hapart
  refine validateRoutes_ok_iff.mpr ⟨?_, hids, ?_, ?_⟩
  . intro route hroute
    obtain ⟨source, hsource, rfl⟩ := mem_exportRoutes.mp hroute
    exact routeValid_exportRoute hunicode hrest hsource (hroutes source hsource).1
      (hroutes source hsource).2
  . rw [(hperm.map routeKey).nodup_iff, List.map_map]
    apply List.pairwise_map.mpr
    apply List.Pairwise.imp_of_mem _ hapart
    intro a b ha hb hab hkey
    obtain ⟨hmethod, hpattern⟩ := Prod.mk.inj hkey
    -- routes of one spelling have the same segments, and so the same shapes
    have hsame : a.pattern.withoutGroups = b.pattern.withoutGroups := by
      have hparse := (hroutes a ha).1.pattern.reparse hunicode (hroutes a ha).2.length
      rw [show a.pattern.canonical = b.pattern.canonical from hpattern,
        (hroutes b hb).1.pattern.reparse hunicode (hroutes b hb).2.length] at hparse
      exact (Except.ok.inj hparse).symm
    have hexists : ∃ shape, shape ∈ a.pattern.shapeKeys unicode := RoutePattern.exists_shapeKey
    obtain ⟨shape, hshape⟩ := hexists
    apply hab.2 shape hshape shape
    . have hkeys : b.pattern.shapeKeys unicode = a.pattern.shapeKeys unicode := by
        calc b.pattern.shapeKeys unicode
            = b.pattern.withoutGroups.shapeKeys unicode := shapeKeys_exportedSpec.symm
          _ = a.pattern.withoutGroups.shapeKeys unicode := by rw [hsame]
          _ = a.pattern.shapeKeys unicode := shapeKeys_exportedSpec
      rw [hkeys]
      exact hshape
    . rw [RouteMethod.ext hmethod]
  . have hkeys : ((exportRoutes choice graph).map routeOrder).Nodup := by
      apply List.Nodup.of_map (fun key => (ofLex (ofLex key).2).2)
      rw [List.map_map]
      exact hids
    have hsorted : ((exportRoutes choice graph).map routeOrder).Pairwise (· ≤ ·) :=
      List.pairwise_map.mpr sortBy_sorted
    exact (hsorted.and hkeys).imp (fun h => lt_of_le_of_ne h.1 h.2)

theorem routing_preserved_iff (hunicode : unicode.Canonical) (hbuilt : builder.Built unicode)
    (hseal : builder.sealGraph unicode sha256 = .ok graph) (hrest : OtherwiseValid unicode manifest choice graph)
    : (validateManifest unicode { manifest with routes := exportRoutes choice graph } = .ok ()
        ∧ ∃ router,
          PbocRouter.new unicode sha256 { manifest with routes := exportRoutes choice graph }
            = .ok router
          ∧ ∀ method path, router.answer unicode (RouteMethod.text method) path
            = some ((graph.answer unicode method path).mapError .resolve))
      ↔ ∀ route ∈ builder.routes, Exportable route := by
  have hsealed := sealGraph_ok hseal
  have hvalid := hbuilt.valid hunicode.keepsSlashes
  constructor
  . rintro ⟨hmanifest, router, hrouter, _⟩ route hroute
    have hgraph := hsealed.mem_routes.mpr hroute
    have hmem : exportRoute choice route ∈ exportRoutes choice graph :=
      mem_exportRoutes.mpr ⟨route, hgraph, rfl⟩
    have hchecked := (validateRoutes_ok_iff.mp (validateManifest_ok hmanifest).2).1 _ hmem
    obtain ⟨_, _, hspecs, _, _⟩ := PbocRouter.new_ok_iff.mp hrouter
    obtain ⟨spec, hspec⟩ := hspecs _ hmem
    have hparsed := hvalid.routes route hroute
    refine ⟨?_, ?_, ?_⟩
    . have hmethod := hchecked.method
      unfold isUppercaseMethod at hmethod
      rw [Bool.and_eq_true] at hmethod
      exact hmethod.2
    . intro name hname
      have hmark := hparsed.pattern.mark_mem_canonical.mpr ⟨name, hname⟩
      have hpattern := hchecked.pattern
      unfold isRequestPath contains at hpattern
      simp only [Bool.and_eq_true, Bool.not_eq_true', List.contains_eq_mem, decide_eq_false_iff_not] at hpattern
      exact hpattern.1.1.1.2 hmark
    . obtain ⟨_, _, _, hparse, _⟩ := PbocRoute.spec_ok hspec
      unfold RoutePattern.parse at hparse
      obtain ⟨henvelope, _⟩ := Except.bind_unit_eq_ok.mp hparse
      exact (validatePatternEnvelope_ok henvelope).1
  . intro hexport
    have hroutes : ∀ route ∈ graph.routes, route.Valid unicode ∧ Exportable route := by
      intro route hroute
      have hmem := hsealed.mem_routes.mp hroute
      exact ⟨hvalid.routes route hmem, hexport route hmem⟩
    have hlength : (exportRoutes choice graph).length ≤ defaultMaxRoutes := by
      unfold exportRoutes
      rw [length_sortBy, List.length_map, hsealed.routes, length_sortBy, length_sortBy]
      exact Nat.le_trans hsealed.room (maxRoutes_le hbuilt)
    have hmanifest : validateManifest unicode
        { manifest with routes := exportRoutes choice graph } = .ok () :=
      validateManifest_with_routes.mpr ⟨hrest.rest, Nat.le_trans hlength (by decide),
        validateRoutes_exportRoutes hunicode hseal hrest hroutes⟩
    have hspecs : ∀ route ∈ exportRoutes choice graph, ∃ spec, route.spec unicode = .ok spec := by
      intro route hroute
      obtain ⟨source, hsource, rfl⟩ := mem_exportRoutes.mp hroute
      exact ⟨_, spec_exportRoute hunicode (hroutes source hsource).1 (hroutes source hsource).2.length⟩
    have hapart : (specs unicode (exportRoutes choice graph)).Pairwise (Apart unicode) := by
      rw [specs_exportRoutes hunicode hroutes, List.pairwise_map]
      apply List.Pairwise.imp Apart.exported
      apply List.Pairwise.perm _ sortBy_perm.symm Apart.symm
      rw [hsealed.routes]
      exact hsealed.apart.perm sortBy_perm.symm Apart.symm
    obtain ⟨graph', hgraph'⟩ := routerBuilder_plain.sealed.mpr
      ⟨Nat.le_trans length_specs_le (Nat.le_max_left _ _), hapart⟩
    have hrouter : PbocRouter.new unicode sha256
        { manifest with routes := exportRoutes choice graph }
        = .ok ⟨graph', routeMap (exportRoutes choice graph)⟩ :=
      PbocRouter.new_ok_iff.mpr ⟨hmanifest, hlength, hspecs, hgraph', rfl⟩
    refine ⟨hmanifest, _, hrouter, ?_⟩
    intro method path
    rw [PbocRouter.answer_eq hrouter, RouteGraph.answer_map
      (routes_of_sealed hunicode hseal hroutes hgraph') (fun _ _ => exportedSpec_alike)]

end Export

section Samples

theorem sampleUnicode_canonical : sampleUnicode.Canonical := by
  have hchars : ∀ {text : String} {c : Char}, c ∈ (sampleUnicode.nfc text).toList →
      c ∈ text.toList ∨ c = '\u0915' ∨ c = '\u093C' := by
    intro text c hc
    change c ∈ (mapChars decomposed text).toList at hc
    unfold mapChars at hc
    rw [String.toList_ofList, List.mem_flatMap] at hc
    obtain ⟨d, hd, hc⟩ := hc
    unfold decomposed at hc
    split at hc
    . right
      simpa using hc
    . left
      rw [List.mem_singleton.mp hc]
      exact hd
  refine ⟨sampleUnicode_keepsSlashes, sampleUnicode_idempotent, ?_, ?_⟩
  . intro text c hspecial hc
    rcases hchars hc with hmem | rfl | rfl
    . exact hmem
    . exact absurd hspecial (by decide)
    . exact absurd hspecial (by decide)
  . intro text hblank
    rw [List.any_eq_false] at hblank ⊢
    intro c hc
    rcases hchars hc with hmem | rfl | rfl
    . exact hblank c hmem
    . decide
    . decide

def sampleDigest : String := "0000000000000000000000000000000000000000000000000000000000000000"

def sampleRevision : String := "0000000000000000000000000000000000000000"

def sampleManifest : PbocManifest :=
  { schema := pbocSchema
    framework := ⟨"pliegors", "1.0.0", sampleRevision⟩
    build := {
      applicationId := "app"
      releaseId := "release"
      routeGraphSha256 := sampleDigest
      runtimeContractSha256 := sampleDigest
      artifactLedgerSha256 := sampleDigest
      provenance := ⟨"server", "server", sampleRevision⟩ }
    compatibility := ⟨1, 1, "state", none, true⟩
    capabilities := []
    artifacts := [⟨"server", 1, sampleDigest, .nativeExecutable, "application/octet-stream"⟩]
    targets := [⟨"oci", .nativeOci, ["server"], [], []⟩]
    assets := []
    routes := []
    functions := [⟨"handler", "main", [.complete], 1, [], []⟩]
    cachePolicies := []
    permissions := []
    secretReferences := []
    telemetryHooks := [] }

def sampleChoice : Choice := ⟨fun _ => "handler", fun _ => .complete, fun _ => []⟩

theorem sampleManifest_valid : validateManifest sampleUnicode sampleManifest = .ok () := by
  decide +kernel

theorem sampleManifest_otherwiseValid {graph : RouteGraph}
    (hcache : ∀ route ∈ graph.routes, route.cachePolicy = none)
    : OtherwiseValid sampleUnicode sampleManifest sampleChoice graph := by
  refine ⟨sampleManifest_valid, ?_, ?_, ?_⟩
  . exact fun route _ => ⟨_, List.mem_singleton.mpr rfl, rfl, List.mem_singleton.mpr rfl⟩
  . intro route hroute id hid
    rw [hcache route hroute] at hid
    cases hid
  . exact fun route _ => ⟨rfl, by simp [sampleChoice]⟩

theorem routing_preserved_users
    : ∃ builder graph, sampleBuilder [("user", .get, "/users/:id"), ("me", .post, "/users/(all)/me")]
        = .ok builder
      ∧ builder.sealGraph sampleUnicode sha256Digest = .ok graph
      ∧ ∃ router, PbocRouter.new sampleUnicode sha256Digest
          { sampleManifest with routes := exportRoutes sampleChoice graph } = .ok router
        ∧ ∀ method path, router.answer sampleUnicode (RouteMethod.text method) path
          = some ((graph.answer sampleUnicode method path).mapError .resolve) := by
  have hran : ((sampleBuilder
      [("user", .get, "/users/:id"), ("me", .post, "/users/(all)/me")]).toOption.any (fun builder =>
        (builder.sealGraph sampleUnicode sha256Digest).toOption.isSome
        && builder.routes.map (fun route => (route.method, route.pattern.canonical,
            route.pattern.pathSegments, route.cachePolicy))
          = [(RouteMethod.get, "/users/:id", [Segment.literal "users", .parameter "id"], none),
            (.post, "/users/me", [Segment.literal "users", .literal "me"], none)])) = true := by
    decide +kernel
  obtain ⟨builder, hbuilder, hran⟩ := (Option.any_eq_true _ _).mp hran
  rw [Bool.and_eq_true] at hran
  obtain ⟨graph, hgraph⟩ := Option.isSome_iff_exists.mp hran.1
  rw [Except.toOption_eq_some] at hbuilder hgraph
  have hroutes := of_decide_eq_true hran.2
  have hexport : ∀ route ∈ builder.routes, Exportable route ∧ route.cachePolicy = none := by
    intro route hroute
    have hmem := List.mem_map_of_mem (f := fun route : RouteSpec => (route.method,
      route.pattern.canonical, route.pattern.pathSegments, route.cachePolicy)) hroute
    rw [hroutes] at hmem
    simp only [List.mem_cons, List.not_mem_nil, or_false, Prod.mk.injEq] at hmem
    rcases hmem with ⟨hmethod, hcanonical, hpath, hcache⟩ | ⟨hmethod, hcanonical, hpath, hcache⟩
    . refine ⟨⟨?_, ?_, ?_⟩, hcache⟩
      . rw [hmethod]
        decide
      . rw [hpath]
        simp
      . rw [hcanonical]
        decide
    . refine ⟨⟨?_, ?_, ?_⟩, hcache⟩
      . rw [hmethod]
        decide
      . rw [hpath]
        simp
      . rw [hcanonical]
        decide
  have hcache : ∀ route ∈ graph.routes, route.cachePolicy = none := fun route hroute =>
    (hexport route ((sealGraph_ok hgraph).mem_routes.mp hroute)).2
  have hrest := sampleManifest_otherwiseValid hcache
  have hpreserved := (routing_preserved_iff sampleUnicode_canonical (sampleBuilder_built hbuilder)
    hgraph hrest).mpr (fun route hroute => (hexport route hroute).1)
  exact ⟨builder, graph, hbuilder, hgraph, hpreserved.2⟩

/--
The canonical spelling of an optional parameter is refused by the grammar of the manifest.
-/
theorem optional_parameter_refused
    : sampleUnicode.Canonical
      ∧ ∃ builder graph, RouteGraphBuilder.Built sampleUnicode builder
        ∧ sampleBuilder [("user", .get, "/:id?")] = .ok builder
        ∧ builder.sealGraph sampleUnicode sha256Digest = .ok graph
        ∧ OtherwiseValid sampleUnicode sampleManifest sampleChoice graph
        ∧ validateManifest sampleUnicode
          { sampleManifest with routes := exportRoutes sampleChoice graph }
          = .error (.invalid "route.pattern is not a canonical request path: /:id?") := by
  have hran : ((sampleBuilder [("user", .get, "/:id?")]).toOption.any (fun builder =>
      (builder.sealGraph sampleUnicode sha256Digest).toOption.any (fun graph =>
        decide (graph.routes.map RouteSpec.cachePolicy = [none])
        && decide (validateManifest sampleUnicode
          { sampleManifest with routes := exportRoutes sampleChoice graph }
          = .error (.invalid "route.pattern is not a canonical request path: /:id?"))))) = true := by
    decide +kernel
  obtain ⟨builder, hbuilder, hran⟩ := (Option.any_eq_true _ _).mp hran
  obtain ⟨graph, hgraph, hran⟩ := (Option.any_eq_true _ _).mp hran
  rw [Except.toOption_eq_some] at hbuilder hgraph
  rw [Bool.and_eq_true] at hran
  have hcache : ∀ route ∈ graph.routes, route.cachePolicy = none := by
    intro route hroute
    have hmem := List.mem_map_of_mem (f := RouteSpec.cachePolicy) hroute
    rw [of_decide_eq_true hran.1] at hmem
    exact List.mem_singleton.mp hmem
  exact ⟨sampleUnicode_canonical, builder, graph, sampleBuilder_built hbuilder, hbuilder, hgraph,
    sampleManifest_otherwiseValid hcache, of_decide_eq_true hran.2⟩

end Samples

end Pboc

end Pliego
