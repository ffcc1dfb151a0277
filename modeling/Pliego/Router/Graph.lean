import Pliego.Lib.Sorting
import Pliego.Router.Spec

/-!
The route graph of `pliego-router`: its builder, the checks that seal it, the digest and the resolution of a
request.
-/

namespace Pliego

open Bytes Text Sorting

namespace Router

inductive MiddlewareCapability where
  | rewritePath
  | redirect
  | reject
  | readBody
  | mutateResponseHeaders
  deriving DecidableEq, Repr

namespace MiddlewareCapability

def asStr (capability : MiddlewareCapability) : String :=
  match capability with
  | .rewritePath => "rewrite-path"
  | .redirect => "redirect"
  | .reject => "reject"
  | .readBody => "read-body"
  | .mutateResponseHeaders => "mutate-response-headers"

def all : List MiddlewareCapability :=
  [.rewritePath, .redirect, .reject, .readBody, .mutateResponseHeaders]

end MiddlewareCapability

abbrev MiddlewareCapabilities := Finset MiddlewareCapability

def MiddlewareCapabilities.iter (capabilities : MiddlewareCapabilities)
    : List MiddlewareCapability :=
  MiddlewareCapability.all.filter (fun capability => capability ∈ capabilities)

structure RouteGraphBuilder where
  maxRoutes : Nat
  routes : List RouteSpec
  scopes : List RouteScopeSpec
  preRouteMiddleware : List String
  middlewareCapabilities : SortedMap String MiddlewareCapabilities
  errorBoundaries : List String

structure ResolvedScopeChain where
  ids : List String
  layouts : List String
  middleware : List String
  errorBoundaries : List String
  loaders : List String
  resources : SortedMap String (SortedSet String)
  deriving DecidableEq

namespace ResolvedScopeChain

def default : ResolvedScopeChain := ⟨[], [], [], [], [], .empty⟩

end ResolvedScopeChain

abbrev ScopeMap := SortedMap String RouteScopeSpec

-- From the leaf to the root. A chain without a cycle is no longer than the number of scopes.
def chainFrom (scopes : ScopeMap) (fuel : Nat) (current : String) (seen : List String)
    : Except RouteError (List RouteScopeSpec) :=
  match fuel with
  | 0 => .error (.scopeCycle current)
  | fuel + 1 =>
    if current ∈ seen then
      .error (.scopeCycle current)
    else
      match scopes.get? current with
      | none => .error (.unknownScope current)
      | some scope =>
        match scope.parent with
        | none => .ok [scope]
        | some parent => do
          let rest ← chainFrom scopes fuel parent (current :: seen)
          .ok (scope :: rest)

def inheritIds (duplicate : String → RouteError) (inherited ids : List String)
    : Except RouteError (List String) :=
  ids.foldlM
    (fun inherited id =>
      if id ∈ inherited then .error (duplicate id) else .ok (inherited ++ [id]))
    inherited

def extendResources (requirements : SortedMap String (SortedSet String))
    (resources : List RouteResourceSpec) : SortedMap String (SortedSet String) :=
  resources.foldl
    (fun requirements resource =>
      requirements.insert resource.id
        (((requirements.get? resource.id).getD .empty).extend resource.capabilities.keys))
    requirements

def ResolvedScopeChain.inherit (resolved : ResolvedScopeChain) (scope : RouteScopeSpec)
    : Except RouteError ResolvedScopeChain := do
  let middleware ← inheritIds .duplicateInheritedMiddleware resolved.middleware scope.middleware
  let errorBoundaries ← inheritIds .duplicateInheritedErrorBoundary resolved.errorBoundaries
    scope.errorBoundaries
  let loaders ← inheritIds .duplicateInheritedLoader resolved.loaders scope.loaders
  .ok {
    ids := resolved.ids ++ [scope.id]
    layouts := if scope.kind = .layout then resolved.layouts ++ [scope.id] else resolved.layouts
    middleware := middleware
    errorBoundaries := errorBoundaries
    loaders := loaders
    resources := extendResources resolved.resources scope.resources }

def resolveScopeChain (leaf : Option String) (scopes : ScopeMap)
    : Except RouteError ResolvedScopeChain :=
  match leaf with
  | none => .ok .default
  | some leaf => do
    let chain ← chainFrom scopes (scopes.len + 1) leaf []
    if chain.length > maxScopeDepth then
      .error (.tooManyScopes chain.length maxScopeDepth)
    else
      chain.reverse.foldlM ResolvedScopeChain.inherit .default

def canonicalRouteOrder (route : RouteSpec) : RouteMethod ×ₗ (String ×ₗ String) :=
  toLex (route.method, toLex (route.pattern.authored, route.id))

-- The more specific pattern comes first.
def matchOrder (route : RouteSpec) : (List Nat)ᵒᵈ ×ₗ (String ×ₗ String) :=
  toLex (OrderDual.toDual route.pattern.specificity,
    toLex (route.pattern.canonical, route.id))

def digestValue (value : String) : List UInt8 := lenPrefixed (utf8 value)

def digestSequence (label : String) (values : List String) : List UInt8 :=
  digestValue label ++ beBytes 8 values.length ++ values.flatMap digestValue

def digestResources (label : String) (resources : List RouteResourceSpec) : List UInt8 :=
  digestValue label ++ beBytes 8 resources.length
    ++ (sortBy RouteResourceSpec.id resources).flatMap (fun resource =>
      digestValue resource.id
        ++ digestSequence "resource-capabilities" resource.capabilities.keys)

def digestDeclaration (declaration : String × MiddlewareCapabilities) : List UInt8 :=
  digestValue declaration.1
    ++ digestSequence "middleware-capabilities"
      (declaration.2.iter.map MiddlewareCapability.asStr)

def digestScope (scope : RouteScopeSpec) : List UInt8 :=
  [scope.id, scope.kind.asStr, scope.parent.getD ""].flatMap digestValue
    ++ digestSequence "scope-middleware" scope.middleware
    ++ digestSequence "scope-error-boundaries" scope.errorBoundaries
    ++ digestSequence "scope-loaders" scope.loaders
    ++ digestResources "scope-resources" scope.resources

def digestRoute (route : RouteSpec) : List UInt8 :=
  [route.method.text, route.id, route.pattern.authored, route.pattern.canonical,
      route.scope.getD ""].flatMap digestValue
    ++ digestSequence "middleware" route.middleware
    ++ digestSequence "route-error-boundaries" route.errorBoundaries
    ++ digestSequence "route-loaders" route.loaders
    ++ digestSequence "route-actions" route.actions
    ++ digestSequence "route-cache-policy" route.cachePolicy.toList
    ++ digestResources "route-resources" route.resources

def graphPreimage (routes : List RouteSpec) (scopes : List RouteScopeSpec) (preRouteMiddleware : List String)
    (middlewareCapabilities : SortedMap String MiddlewareCapabilities)
    (errorBoundaries : List String) : List UInt8 :=
  utf8 "pliego-route-graph-v6" ++ [0]
    ++ digestSequence "pre-route-middleware" preRouteMiddleware
    ++ digestSequence "root-error-boundaries" errorBoundaries
    ++ middlewareCapabilities.entries.flatMap digestDeclaration
    ++ scopes.flatMap digestScope
    ++ routes.flatMap digestRoute

structure RouteGraph where
  routes : List RouteSpec
  scopes : List RouteScopeSpec
  resolvedScopes : SortedMap String ResolvedScopeChain
  routeMiddleware : SortedSet String
  allErrorBoundaries : SortedSet String
  preRouteMiddleware : List String
  middlewareCapabilities : SortedMap String MiddlewareCapabilities
  errorBoundaries : List String
  digest : String

namespace RouteGraphBuilder

def new : RouteGraphBuilder := ⟨defaultMaxRoutes, [], [], [], .empty, []⟩

def withMaxRoutes (maxRoutes : Nat) : Except RouteError RouteGraphBuilder :=
  if maxRoutes = 0 || maxRoutes > defaultMaxRoutes then
    .error (.invalidRouteLimit maxRoutes)
  else
    .ok { new with maxRoutes := maxRoutes }

def declareMiddleware (builder : RouteGraphBuilder) (id : String)
    (capabilities : MiddlewareCapabilities) : Except RouteError RouteGraphBuilder := do
  validateBehaviorId id .middleware
  if (builder.middlewareCapabilities.get? id).isSome then
    .error (.duplicateMiddlewareDeclaration id)
  else
    .ok { builder with
      middlewareCapabilities := builder.middlewareCapabilities.insert id capabilities }

def withPreRouteMiddleware (builder : RouteGraphBuilder) (id : String)
    : Except RouteError RouteGraphBuilder := do
  let ids ← pushMiddleware builder.preRouteMiddleware id
  .ok { builder with preRouteMiddleware := ids }

def withErrorBoundary (builder : RouteGraphBuilder) (id : String)
    : Except RouteError RouteGraphBuilder := do
  let ids ← pushErrorBoundary builder.errorBoundaries id
  .ok { builder with errorBoundaries := ids }

def withScope (builder : RouteGraphBuilder) (scope : RouteScopeSpec) : RouteGraphBuilder :=
  { builder with scopes := builder.scopes ++ [scope] }

def withRoute (builder : RouteGraphBuilder) (route : RouteSpec) : RouteGraphBuilder :=
  { builder with routes := builder.routes ++ [route] }

end RouteGraphBuilder

inductive Registration where
  | declareMiddleware (id : String) (capabilities : MiddlewareCapabilities)
  | preRouteMiddleware (id : String)
  | errorBoundary (id : String)
  | scope (spec : RouteScopeSpec)
  | route (spec : RouteSpec)

def Registration.Built (unicode : Unicode) (registration : Registration) : Prop :=
  match registration with
  | .scope spec => spec.Built
  | .route spec => spec.Built unicode
  | _ => True

namespace RouteGraphBuilder

def register (builder : RouteGraphBuilder) (registration : Registration)
    : Except RouteError RouteGraphBuilder :=
  match registration with
  | .declareMiddleware id capabilities => builder.declareMiddleware id capabilities
  | .preRouteMiddleware id => builder.withPreRouteMiddleware id
  | .errorBoundary id => builder.withErrorBoundary id
  | .scope spec => .ok (builder.withScope spec)
  | .route spec => .ok (builder.withRoute spec)

inductive Built (unicode : Unicode) : RouteGraphBuilder → Prop where
  | new : Built unicode new
  | withMaxRoutes {maxRoutes : Nat} {builder : RouteGraphBuilder}
    (h : withMaxRoutes maxRoutes = .ok builder) : Built unicode builder
  | register {builder builder' : RouteGraphBuilder} {registration : Registration}
    (hbuilt : Built unicode builder) (hregistration : registration.Built unicode)
    (h : builder.register registration = .ok builder') : Built unicode builder'

def scopeMap (scopes : List RouteScopeSpec) : Except RouteError ScopeMap :=
  scopes.foldlM
    (fun map scope =>
      if (map.get? scope.id).isSome then
        .error (.duplicateScopeId scope.id)
      else
        .ok (map.insert scope.id scope))
    .empty

-- The first of `ids` that satisfies `p` is refused.
def refuse (p : String → Bool) (error : String → RouteError) (ids : List String)
    : Except RouteError Unit :=
  match ids.find? p with
  | some id => .error (error id)
  | none => .ok ()

structure RouteScopes where
  resolved : SortedMap String ResolvedScopeChain
  reached : List String

def resolveRoute (errorBoundaries : List String) (scopes : ScopeMap) (found : RouteScopes)
    (route : RouteSpec) : Except RouteError RouteScopes := do
  let resolved ← resolveScopeChain route.scope scopes
  if resolved.middleware.length + route.middleware.length > maxRouteMiddleware then
    .error (.tooManyMiddleware maxRouteMiddleware)
  else
    refuse (fun id => id ∈ resolved.middleware) .duplicateInheritedMiddleware route.middleware
    if resolved.loaders.length + route.loaders.length > maxRouteLoaders then
      .error (.tooManyLoaders maxRouteLoaders)
    else
      refuse (fun id => id ∈ resolved.loaders) .duplicateInheritedLoader route.loaders
      if errorBoundaries.length + resolved.errorBoundaries.length + route.errorBoundaries.length
          > maxErrorBoundaries then
        .error (.tooManyErrorBoundaries maxErrorBoundaries)
      else
        let _ ← inheritIds .duplicateInheritedErrorBoundary []
          (errorBoundaries ++ resolved.errorBoundaries ++ route.errorBoundaries)
        .ok {
          resolved := found.resolved.insert route.id resolved
          reached := found.reached ++ resolved.ids }

def shapeKey (method : RouteMethod) (shape : String) : String := method.text ++ " " ++ shape

def admitShape (route : RouteSpec) (shapes : SortedMap String String) (shape : String)
    : Except RouteError (SortedMap String String) :=
  match shapes.get? (shapeKey route.method shape) with
  | some existing => .error (.routeCollision route.method shape existing route.id)
  | none => .ok (shapes.insert (shapeKey route.method shape) route.id)

def admitRoute (unicode : Unicode) (admitted : List String × SortedMap String String)
    (route : RouteSpec) : Except RouteError (List String × SortedMap String String) := do
  if route.id ∈ admitted.1 then
    .error (.duplicateRouteId route.id)
  else
    let shapes ← (route.pattern.shapeKeys unicode).foldlM (admitShape route) admitted.2
    .ok (admitted.1 ++ [route.id], shapes)

def routeMiddleware (routes : List RouteSpec) (scopes : List RouteScopeSpec) : SortedSet String :=
  .ofList (routes.flatMap RouteSpec.middleware ++ scopes.flatMap RouteScopeSpec.middleware)

def checkMiddleware (preRouteMiddleware : List String) (routeMiddleware : SortedSet String)
    (middlewareCapabilities : SortedMap String MiddlewareCapabilities)
    : Except RouteError Unit := do
  refuse routeMiddleware.contains .middlewarePhaseConflict preRouteMiddleware
  let referenced := routeMiddleware.extend preRouteMiddleware
  refuse (fun id => !(middlewareCapabilities.get? id).isSome) .missingMiddlewareDeclaration
    referenced.keys
  refuse (fun id => !referenced.contains id) .unreferencedMiddlewareDeclaration
    middlewareCapabilities.keys

-- `routes` and `scopes` are sorted.
def sealSorted (unicode : Unicode) (sha256 : Sha256) (builder : RouteGraphBuilder)
    (routes : List RouteSpec) (scopes : List RouteScopeSpec) : Except RouteError RouteGraph := do
  let scopeMap ← scopeMap scopes
  scopes.forM (fun scope => do
    let _ ← resolveScopeChain (some scope.id) scopeMap
    .ok ())
  let found ← routes.foldlM (resolveRoute builder.errorBoundaries scopeMap) ⟨.empty, []⟩
  refuse (fun id => id ∉ found.reached) .unreferencedScope (scopes.map RouteScopeSpec.id)
  let _ ← routes.foldlM (admitRoute unicode) ([], .empty)
  let routeMiddleware := routeMiddleware routes scopes
  checkMiddleware builder.preRouteMiddleware routeMiddleware builder.middlewareCapabilities
  .ok {
    routes := sortBy matchOrder routes
    scopes := scopes
    resolvedScopes := found.resolved
    routeMiddleware := routeMiddleware
    allErrorBoundaries := .ofList (builder.errorBoundaries
      ++ scopes.flatMap RouteScopeSpec.errorBoundaries
      ++ routes.flatMap RouteSpec.errorBoundaries)
    preRouteMiddleware := builder.preRouteMiddleware
    middlewareCapabilities := builder.middlewareCapabilities
    errorBoundaries := builder.errorBoundaries
    digest := encodeHex (sha256 (graphPreimage routes scopes builder.preRouteMiddleware
      builder.middlewareCapabilities builder.errorBoundaries)).bytes }

def sealGraph (unicode : Unicode) (sha256 : Sha256) (builder : RouteGraphBuilder)
    : Except RouteError RouteGraph :=
  if builder.routes.length > builder.maxRoutes then
    .error (.tooManyRoutes builder.routes.length builder.maxRoutes)
  else if builder.scopes.length > defaultMaxScopes then
    .error (.tooManyScopes builder.scopes.length defaultMaxScopes)
  else
    sealSorted unicode sha256 builder (sortBy canonicalRouteOrder builder.routes)
      (sortBy RouteScopeSpec.id builder.scopes)

end RouteGraphBuilder

inductive ResolveError where
  | invalidPath
  | notFound
  | methodNotAllowed (allowed : List RouteMethod)
  deriving DecidableEq

structure RouteMatch where
  routeId : String
  method : RouteMethod
  pattern : String
  parameters : SortedMap String String
  scopes : List String
  layouts : List String
  middleware : List String
  errorBoundaries : List String
  loaders : List String
  actions : List String
  cachePolicy : Option String
  resources : SortedMap String (SortedSet String)
  deriving DecidableEq

def validateRequestPath (path : String) : Except ResolveError Unit :=
  if path = "" || (utf8 path).length > maxPatternBytes || !startsWith '/' path
      || (path ≠ "/" && endsWith '/' path) || containsPair '/' '/' path.toList
      || contains path '\\' || contains path '%' || contains path '?' || contains path '#'
      || contains path '\x00' || path.toList.any isControl then
    .error .invalidPath
  else if (rawSegments path).any (fun segment => segment = "." || segment = "..") then
    .error .invalidPath
  else
    .ok ()

namespace RouteGraph

def routeMatch (inherited : ResolvedScopeChain) (route : RouteSpec)
    (parameters : SortedMap String String) : RouteMatch :=
  { routeId := route.id
    method := route.method
    pattern := route.pattern.canonical
    parameters := parameters
    scopes := inherited.ids
    layouts := inherited.layouts
    middleware := inherited.middleware ++ route.middleware
    errorBoundaries := inherited.errorBoundaries ++ route.errorBoundaries
    loaders := inherited.loaders ++ route.loaders
    actions := route.actions
    cachePolicy := route.cachePolicy
    resources := extendResources inherited.resources route.resources }

def allowedMethods (graph : RouteGraph) (normalized : String) : SortedSet RouteMethod :=
  .ofList ((graph.routes.filter (fun route =>
    (route.pattern.matchAdmitted normalized).isSome)).map RouteSpec.method)

def resolve (unicode : Unicode) (graph : RouteGraph) (method : RouteMethod) (path : String)
    : Except ResolveError RouteMatch := do
  validateRequestPath path
  let normalized := unicode.nfc path
  validateRequestPath normalized
  match (graph.routes.filter (fun route => route.method = method)).find?
      (fun route => (route.pattern.matchAdmitted normalized).isSome) with
  | some route =>
    -- a sealed graph holds the chain of each of its routes, and the route was found by its match
    let inherited := (graph.resolvedScopes.get? route.id).getD .default
    let parameters := (route.pattern.matchAdmitted normalized).getD .empty
    .ok (routeMatch inherited route parameters)
  | none =>
    let allowed := graph.allowedMethods normalized
    if allowed.keys.isEmpty then
      .error .notFound
    else
      .error (.methodNotAllowed allowed.keys)

end RouteGraph

end Router

end Pliego
