import Pliego.Router.Order

/-!
The digest of a sealed graph is read back in one way only, up to the order in which a route or scope lists its
resources.
-/

namespace Pliego

open Bytes Text Sorting

namespace Router

variable {unicode : Unicode} {sha256 : Sha256}

variable {x y : List UInt8} {id : String}

theorem digestValue_inj {a b : String} (ha : (utf8 a).length < 256 ^ 8)
    (hb : (utf8 b).length < 256 ^ 8) (h : digestValue a ++ x = digestValue b ++ y)
    : a = b ∧ x = y := by
  obtain ⟨hsame, hrest⟩ := lenPrefixed_append_inj ha hb h
  exact ⟨utf8_inj hsame, hrest⟩

structure Fits (values : List String) : Prop where
  length : values.length < 256 ^ 8
  values : ∀ value ∈ values, (utf8 value).length < 256 ^ 8

theorem digestSequence_inj {label : String} {as bs : List String} (ha : Fits as)
    (hb : Fits bs) (h : digestSequence label as ++ x = digestSequence label bs ++ y)
    : as = bs ∧ x = y := by
  unfold digestSequence at h
  simp only [List.append_assoc] at h
  obtain ⟨hcount, hvalues⟩ := beBytes_append_inj ha.length hb.length (List.append_cancel_left h)
  obtain ⟨hsame, hrest⟩ := entries_inj_of_length (R := Eq) hcount
    (fun a hmem b hmem' x y => digestValue_inj (ha.values a hmem) (hb.values b hmem')) hvalues
  exact ⟨List.forall₂_eq_eq_eq ▸ hsame, hrest⟩

theorem isDashed_ok {maximum : Nat} (h : isDashed maximum id = true)
    : (utf8 id).length ≤ maximum ∧ id ≠ "" ∧ ∃ byte ∈ utf8 id, isAsciiLowercase byte = true := by
  unfold isDashed at h
  split at h
  . cases h
  . next first rest hbytes =>
    simp only [Bool.and_eq_true, decide_eq_true_eq] at h
    refine ⟨h.1.1.1.1, ?_, first, ?_, h.1.1.1.2⟩
    . rintro rfl
      cases hbytes
    . rw [hbytes]
      exact List.mem_cons_self

theorem IdList.fits {maximum bound : Nat} {ids : List String}
    (h : IdList (isDashed bound) maximum ids) (hmaximum : maximum < 256 ^ 8) (hbound : bound < 256 ^ 8)
    : Fits ids :=
  ⟨h.length.trans_lt hmaximum,
    fun id hid => (isDashed_ok (h.valid id hid)).1.trans_lt hbound⟩

theorem length_routeId (h : isRouteId id = true) : (utf8 id).length < 256 ^ 8 :=
  (isDashed_ok h).1.trans_lt (by decide)

theorem length_dataId (h : isDataId id = true) : (utf8 id).length < 256 ^ 8 :=
  (isDashed_ok h).1.trans_lt (by decide)

theorem digestResources_inj {label : String} {as bs : List RouteResourceSpec}
    (ha : ResourceList as) (hb : ResourceList bs)
    (h : digestResources label as ++ x = digestResources label bs ++ y) : as.Perm bs ∧ x = y := by
  have hshort : ∀ {resources : List RouteResourceSpec}, ResourceList resources →
      resources.length < 256 ^ 8 :=
    fun hresources => hresources.length.trans_lt (by decide)
  unfold digestResources at h
  simp only [List.append_assoc] at h
  obtain ⟨hcount, hvalues⟩ := beBytes_append_inj (hshort ha) (hshort hb) (List.append_cancel_left h)
  obtain ⟨hsame, hrest⟩ := entries_inj_of_length (R := Eq)
    (by rw [length_sortBy, length_sortBy, hcount]) (by
      intro a hmem b hmem' x y hentry
      have hvalid := ha.valid a (mem_sortBy.mp hmem)
      have hvalid' := hb.valid b (mem_sortBy.mp hmem')
      simp only [List.append_assoc] at hentry
      obtain ⟨hid, hentry⟩ := digestValue_inj (length_dataId hvalid.id) (length_dataId hvalid'.id)
        hentry
      obtain ⟨hkeys, hentry⟩ := digestSequence_inj
        (hvalid.capabilities.fits (by decide) (by decide))
        (hvalid'.capabilities.fits (by decide) (by decide)) hentry
      have hcapabilities := SortedSet.keys_inj hkeys
      refine ⟨?_, hentry⟩
      cases a
      cases b
      cases hid
      cases hcapabilities
      rfl) hvalues
  rw [List.forall₂_eq_eq_eq] at hsame
  exact ⟨(sortBy_perm.symm.trans (List.Perm.of_eq hsame)).trans sortBy_perm, hrest⟩

theorem eq_of_getD_eq {a b : Option String} (ha : ∀ id ∈ a, id ≠ "") (hb : ∀ id ∈ b, id ≠ "")
    (h : a.getD "" = b.getD "") : a = b := by
  cases a with
  | none =>
    cases b with
    | none => rfl
    | some id => exact absurd h.symm (hb id rfl)
  | some id =>
    cases b with
    | none => exact absurd h (ha id rfl)
    | some other => exact congrArg some h

theorem length_getD {a : Option String} (ha : ∀ id ∈ a, isRouteId id = true)
    : (utf8 (a.getD "")).length < 256 ^ 8 := by
  cases a with
  | none => decide
  | some id => exact length_routeId (ha id rfl)

-- Equal up to the order of the resources.
structure RouteScopeSpec.Same (a b : RouteScopeSpec) : Prop where
  id : a.id = b.id
  kind : a.kind = b.kind
  parent : a.parent = b.parent
  middleware : a.middleware = b.middleware
  errorBoundaries : a.errorBoundaries = b.errorBoundaries
  loaders : a.loaders = b.loaders
  resources : a.resources.Perm b.resources

structure RouteSpec.Same (a b : RouteSpec) : Prop where
  id : a.id = b.id
  method : a.method = b.method
  pattern : a.pattern = b.pattern
  scope : a.scope = b.scope
  middleware : a.middleware = b.middleware
  errorBoundaries : a.errorBoundaries = b.errorBoundaries
  loaders : a.loaders = b.loaders
  actions : a.actions = b.actions
  cachePolicy : a.cachePolicy = b.cachePolicy
  resources : a.resources.Perm b.resources

theorem digestDeclaration_inj {a b : String × MiddlewareCapabilities}
    (ha : isRouteId a.1 = true) (hb : isRouteId b.1 = true)
    (h : digestDeclaration a ++ x = digestDeclaration b ++ y) : a = b ∧ x = y := by
  have hfits : ∀ capabilities : MiddlewareCapabilities,
      Fits (capabilities.iter.map MiddlewareCapability.asStr) := by
    intro capabilities
    constructor
    . have hle := List.length_filter_le (fun capability => decide (capability ∈ capabilities))
        MiddlewareCapability.all
      rw [List.length_map]
      exact hle.trans_lt (by decide)
    . intro value hvalue
      obtain ⟨capability, _, rfl⟩ := List.mem_map.mp hvalue
      cases capability <;> decide
  have hasStr : Function.Injective MiddlewareCapability.asStr := by
    intro c d hsame
    cases c <;> cases d <;> first | rfl | exact absurd hsame (by decide)
  unfold digestDeclaration at h
  simp only [List.append_assoc] at h
  obtain ⟨hid, h⟩ := digestValue_inj (length_routeId ha) (length_routeId hb) h
  obtain ⟨hnames, h⟩ := digestSequence_inj (hfits a.2) (hfits b.2) h
  have hiter := List.map_injective_iff.mpr hasStr hnames
  refine ⟨Prod.ext hid ?_, h⟩
  ext capability
  have hmem : ∀ capabilities : MiddlewareCapabilities,
      capability ∈ capabilities.iter ↔ capability ∈ capabilities := by
    intro capabilities
    unfold MiddlewareCapabilities.iter
    rw [List.mem_filter, decide_eq_true_eq]
    have hall : capability ∈ MiddlewareCapability.all := by cases capability <;> decide
    exact and_iff_right hall
  rw [← hmem, hiter, hmem]

theorem RouteScopeKind.asStr_length (kind : RouteScopeKind)
    : (utf8 kind.asStr).length < 256 ^ 8 := by
  cases kind <;> decide

theorem digestScope_inj {a b : RouteScopeSpec} (ha : a.Valid) (hb : b.Valid)
    (h : digestScope a ++ x = digestScope b ++ y) : a.Same b ∧ x = y := by
  unfold digestScope at h
  simp only [List.flatMap_cons, List.flatMap_nil, List.append_assoc, List.nil_append] at h
  obtain ⟨hid, h⟩ := digestValue_inj (length_routeId ha.id) (length_routeId hb.id) h
  obtain ⟨hkind, h⟩ := digestValue_inj a.kind.asStr_length b.kind.asStr_length h
  obtain ⟨hparent, h⟩ := digestValue_inj (length_getD ha.parent) (length_getD hb.parent) h
  obtain ⟨hmiddleware, h⟩ := digestSequence_inj (ha.middleware.fits (by decide) (by decide))
    (hb.middleware.fits (by decide) (by decide)) h
  obtain ⟨hboundaries, h⟩ := digestSequence_inj (ha.errorBoundaries.fits (by decide) (by decide))
    (hb.errorBoundaries.fits (by decide) (by decide)) h
  obtain ⟨hloaders, h⟩ := digestSequence_inj (ha.loaders.fits (by decide) (by decide))
    (hb.loaders.fits (by decide) (by decide)) h
  obtain ⟨hresources, h⟩ := digestResources_inj ha.resources hb.resources h
  have hsameKind : a.kind = b.kind := by
    cases hka : a.kind <;> cases hkb : b.kind <;>
      first | rfl | exact absurd hkind (by rw [hka, hkb]; decide)
  exact ⟨⟨hid, hsameKind, eq_of_getD_eq (fun id hmem => (isDashed_ok (ha.parent id hmem)).2.1)
    (fun id hmem => (isDashed_ok (hb.parent id hmem)).2.1) hparent, hmiddleware, hboundaries, hloaders,
    hresources⟩, h⟩

theorem RouteMethod.length (method : RouteMethod) : (utf8 method.text).length < 256 ^ 8 := by
  have hvalid := method.valid
  unfold isMethod at hvalid
  simp only [Bool.and_eq_true, decide_eq_true_eq] at hvalid
  exact hvalid.1.1.2.trans_lt (by decide)

theorem RoutePattern.Parsed.length {pattern : RoutePattern} (h : pattern.Parsed unicode)
    : (utf8 pattern.authored).length < 256 ^ 8 := by
  have hparsed := h.parsed
  unfold RoutePattern.parse at hparsed
  obtain ⟨henvelope, _⟩ := Except.bind_unit_eq_ok.mp hparsed
  unfold validatePatternEnvelope at henvelope
  split at henvelope
  . cases henvelope
  . next hshape =>
    simp only [Bool.or_eq_true, not_or, decide_eq_true_eq, not_lt] at hshape
    exact hshape.1.2.trans_lt (by decide)

theorem digestRoute_inj {a b : RouteSpec} (ha : a.Valid unicode)
    (hb : b.Valid unicode) (h : digestRoute a ++ x = digestRoute b ++ y) : a.Same b ∧ x = y := by
  have hfits : ∀ {cachePolicy : Option String}, (∀ id ∈ cachePolicy, isDataId id = true) →
      Fits cachePolicy.toList := by
    intro cachePolicy hvalid
    cases cachePolicy with
    | none => exact ⟨by decide, by simp⟩
    | some id => exact ⟨by simp, by simpa using length_dataId (hvalid id rfl)⟩
  unfold digestRoute at h
  simp only [List.flatMap_cons, List.flatMap_nil, List.append_assoc, List.nil_append] at h
  obtain ⟨hmethod, h⟩ := digestValue_inj a.method.length b.method.length h
  obtain ⟨hid, h⟩ := digestValue_inj (length_routeId ha.id) (length_routeId hb.id) h
  obtain ⟨hauthored, h⟩ := digestValue_inj ha.pattern.length hb.pattern.length h
  have hpattern : a.pattern = b.pattern := by
    have hparsed := ha.pattern.parsed
    rw [hauthored, hb.pattern.parsed] at hparsed
    exact (Except.ok.inj hparsed).symm
  rw [hpattern] at h
  replace h := List.append_cancel_left h
  obtain ⟨hscope, h⟩ := digestValue_inj (length_getD ha.scope) (length_getD hb.scope) h
  obtain ⟨hmiddleware, h⟩ := digestSequence_inj (ha.middleware.fits (by decide) (by decide))
    (hb.middleware.fits (by decide) (by decide)) h
  obtain ⟨hboundaries, h⟩ := digestSequence_inj (ha.errorBoundaries.fits (by decide) (by decide))
    (hb.errorBoundaries.fits (by decide) (by decide)) h
  obtain ⟨hloaders, h⟩ := digestSequence_inj (ha.loaders.fits (by decide) (by decide))
    (hb.loaders.fits (by decide) (by decide)) h
  obtain ⟨hactions, h⟩ := digestSequence_inj (ha.actions.fits (by decide) (by decide))
    (hb.actions.fits (by decide) (by decide)) h
  obtain ⟨hcache, h⟩ := digestSequence_inj (hfits ha.cachePolicy) (hfits hb.cachePolicy) h
  obtain ⟨hresources, h⟩ := digestResources_inj ha.resources hb.resources h
  have hsameCache : a.cachePolicy = b.cachePolicy := by
    cases hca : a.cachePolicy <;> cases hcb : b.cachePolicy <;> simp_all
  exact ⟨⟨hid, RouteMethod.ext hmethod, hpattern,
    eq_of_getD_eq (fun id hmem => (isDashed_ok (ha.scope id hmem)).2.1)
      (fun id hmem => (isDashed_ok (hb.scope id hmem)).2.1) hscope,
    hmiddleware, hboundaries, hloaders, hactions, hsameCache, hresources⟩, h⟩

theorem method_ne_id {method : RouteMethod} (h : isRouteId id = true)
    : method.text ≠ id := by
  intro hsame
  obtain ⟨_, _, byte, hbyte, hlower⟩ := isDashed_ok h
  have hvalid := method.valid
  unfold isMethod at hvalid
  rw [Bool.and_eq_true, Bool.not_eq_true', hsame] at hvalid
  exact List.any_eq_false.mp hvalid.2 byte hbyte hlower

theorem digestRoute_ne_digestScope {route : RouteSpec} {scope : RouteScopeSpec}
    (hscope : scope.Valid) : digestRoute route ++ x ≠ digestScope scope ++ y := by
  intro h
  unfold digestRoute digestScope at h
  simp only [List.flatMap_cons, List.append_assoc] at h
  exact method_ne_id hscope.id
    (digestValue_inj route.method.length (length_routeId hscope.id) h).1

theorem digestRoute_ne_digestDeclaration {route : RouteSpec} {declaration : String × MiddlewareCapabilities}
    (hid : isRouteId declaration.1 = true)
    : digestRoute route ++ x ≠ digestDeclaration declaration ++ y := by
  intro h
  unfold digestRoute digestDeclaration at h
  simp only [List.flatMap_cons, List.append_assoc] at h
  exact method_ne_id hid (digestValue_inj route.method.length (length_routeId hid) h).1

theorem digestScope_ne_digestDeclaration {scope : RouteScopeSpec}
    {declaration : String × MiddlewareCapabilities} (hscope : scope.Valid) (hid : isRouteId declaration.1 = true)
    : digestScope scope ++ x ≠ digestDeclaration declaration ++ y := by
  intro h
  unfold digestScope digestDeclaration digestSequence at h
  simp only [List.flatMap_cons, List.append_assoc] at h
  obtain ⟨_, h⟩ := digestValue_inj (length_routeId hscope.id) (length_routeId hid) h
  have hkind := (digestValue_inj scope.kind.asStr_length (by decide) h).1
  cases hk : scope.kind <;> exact absurd hkind (by rw [hk]; decide)

theorem flatMap_ne {α : Type} {entry : α → List UInt8} {as : List α} {start rest : List UInt8}
    (hentry : ∀ a ∈ as, ∀ x y, entry a ++ x ≠ start ++ y) (hrest : ∀ y, rest ≠ start ++ y)
    (y : List UInt8) : as.flatMap entry ++ rest ≠ start ++ y := by
  cases as with
  | nil => exact hrest y
  | cons a as =>
    rw [List.flatMap_cons, List.append_assoc]
    exact hentry a List.mem_cons_self _ y

theorem digestValue_append_ne_nil (value : String) (x : List UInt8) : digestValue value ++ x ≠ [] := by
  intro h
  exact lenPrefixed_ne_nil _ (List.append_eq_nil_iff.mp h).1

section Preimage

variable {builder builder' : RouteGraphBuilder}

namespace RouteGraphBuilder

def preimage (builder : RouteGraphBuilder) : List UInt8 :=
  graphPreimage (sortBy canonicalRouteOrder builder.routes)
    (sortBy RouteScopeSpec.id builder.scopes) builder.preRouteMiddleware
    builder.middlewareCapabilities builder.errorBoundaries

-- Equal up to the order of resources and up to what sorting removes.
structure Same (builder builder' : RouteGraphBuilder) : Prop where
  preRouteMiddleware : builder.preRouteMiddleware = builder'.preRouteMiddleware
  errorBoundaries : builder.errorBoundaries = builder'.errorBoundaries
  middlewareCapabilities : builder.middlewareCapabilities = builder'.middlewareCapabilities
  scopes : List.Forall₂ RouteScopeSpec.Same (sortBy RouteScopeSpec.id builder.scopes)
    (sortBy RouteScopeSpec.id builder'.scopes)
  routes : List.Forall₂ RouteSpec.Same (sortBy canonicalRouteOrder builder.routes)
    (sortBy canonicalRouteOrder builder'.routes)

theorem Valid.same_of_preimage (hvalid : builder.Valid unicode) (hvalid' : builder'.Valid unicode)
    (h : builder.preimage = builder'.preimage) : builder.Same builder' := by
  have hroute : ∀ {builder : RouteGraphBuilder}, builder.Valid unicode →
      ∀ route ∈ sortBy canonicalRouteOrder builder.routes, route.Valid unicode :=
    fun hvalid route hmem => hvalid.routes route (mem_sortBy.mp hmem)
  have hscope : ∀ {builder : RouteGraphBuilder}, builder.Valid unicode →
      ∀ scope ∈ sortBy RouteScopeSpec.id builder.scopes, scope.Valid :=
    fun hvalid scope hmem => hvalid.scopes scope (mem_sortBy.mp hmem)
  have hdeclared : ∀ {builder : RouteGraphBuilder}, builder.Valid unicode →
      ∀ declaration ∈ builder.middlewareCapabilities.entries, isRouteId declaration.1 = true :=
    fun hvalid declaration hmem =>
      hvalid.declarations declaration.1 declaration.2 (SortedMap.get?_eq_some.mpr hmem)
  have hroutesScope : ∀ {routes : List RouteSpec} {scope : RouteScopeSpec}, scope.Valid →
      ∀ z, routes.flatMap digestRoute ++ [] ≠ digestScope scope ++ z := by
    intro routes scope hvalid z
    apply flatMap_ne
    . intro route _ x y
      exact digestRoute_ne_digestScope hvalid
    . intro y hnil
      unfold digestScope at hnil
      simp only [List.flatMap_cons, List.append_assoc] at hnil
      exact digestValue_append_ne_nil _ _ hnil.symm
  have hrestDeclared : ∀ {builder : RouteGraphBuilder}, builder.Valid unicode →
      ∀ {declaration : String × MiddlewareCapabilities}, isRouteId declaration.1 = true →
      ∀ z, (sortBy RouteScopeSpec.id builder.scopes).flatMap digestScope
        ++ ((sortBy canonicalRouteOrder builder.routes).flatMap digestRoute ++ [])
          ≠ digestDeclaration declaration ++ z := by
    intro builder hvalid declaration hid z
    apply flatMap_ne
    . intro scope hmem x y
      exact digestScope_ne_digestDeclaration (hscope hvalid scope hmem) hid
    . intro y
      apply flatMap_ne
      . intro route _ x y
        exact digestRoute_ne_digestDeclaration hid
      . intro y hnil
        unfold digestDeclaration at hnil
        rw [List.append_assoc] at hnil
        exact digestValue_append_ne_nil _ _ hnil.symm
  unfold preimage graphPreimage at h
  rw [← List.append_nil ((sortBy canonicalRouteOrder builder.routes).flatMap digestRoute),
    ← List.append_nil ((sortBy canonicalRouteOrder builder'.routes).flatMap digestRoute)] at h
  simp only [List.append_assoc] at h
  obtain ⟨hpre, h⟩ := digestSequence_inj (hvalid.preRouteMiddleware.fits (by decide) (by decide))
    (hvalid'.preRouteMiddleware.fits (by decide) (by decide))
    (List.append_cancel_left (List.append_cancel_left h))
  obtain ⟨hboundaries, h⟩ := digestSequence_inj (hvalid.errorBoundaries.fits (by decide) (by decide))
    (hvalid'.errorBoundaries.fits (by decide) (by decide)) h
  obtain ⟨hentries, h⟩ := entries_inj_of_end (R := Eq)
    (fun a ha b hb x y => digestDeclaration_inj (hdeclared hvalid a ha) (hdeclared hvalid' b hb))
    (fun b hb => hrestDeclared hvalid (hdeclared hvalid' b hb))
    (fun a ha => hrestDeclared hvalid' (hdeclared hvalid a ha)) h
  obtain ⟨hscopes, h⟩ := entries_inj_of_end (R := RouteScopeSpec.Same)
    (fun a ha b hb x y => digestScope_inj (hscope hvalid a ha) (hscope hvalid' b hb))
    (fun b hb => hroutesScope (hscope hvalid' b hb))
    (fun a ha => hroutesScope (hscope hvalid a ha)) h
  have hrouteNil : ∀ (route : RouteSpec) (z : List UInt8), [] ≠ digestRoute route ++ z := by
    intro route z hnil
    unfold digestRoute at hnil
    simp only [List.flatMap_cons, List.append_assoc] at hnil
    exact digestValue_append_ne_nil _ _ hnil.symm
  obtain ⟨hroutes, _⟩ := entries_inj_of_end (R := RouteSpec.Same)
    (fun a ha b hb x y => digestRoute_inj (hroute hvalid a ha) (hroute hvalid' b hb))
    (fun b _ => hrouteNil b) (fun a _ => hrouteNil a) h
  refine ⟨hpre, hboundaries, ?_, hscopes, hroutes⟩
  rw [List.forall₂_eq_eq_eq] at hentries
  apply SortedMap.ext
  intro id
  unfold SortedMap.get?
  rw [hentries]

end RouteGraphBuilder

end Preimage

section Behaviour

theorem extendResources_perm {requirements : SortedMap String (SortedSet String)}
    {as bs : List RouteResourceSpec} (h : as.Perm bs)
    : extendResources requirements as = extendResources requirements bs := by
  unfold extendResources
  apply h.foldl_eq'
  intro a _ b _ requirements
  apply SortedMap.ext
  intro id
  simp only [SortedMap.get?_insert]
  by_cases hab : a.id = b.id
  . simp only [hab, if_true]
    split
    . congr 1
      apply SortedSet.ext_contains
      intro capability
      simp only [Option.getD_some, SortedSet.contains_extend]
      tauto
    . rfl
  . simp only [hab, Ne.symm hab, if_false]
    by_cases hidA : id = a.id
    . simp [hidA, hab]
    . simp [hidA]

theorem ResolvedScopeChain.inherit_same {resolved : ResolvedScopeChain} {a b : RouteScopeSpec}
    (h : a.Same b) : resolved.inherit a = resolved.inherit b := by
  unfold ResolvedScopeChain.inherit
  rw [h.id, h.kind, h.middleware, h.errorBoundaries, h.loaders, extendResources_perm h.resources]

theorem foldlM_inherit_same {resolved : ResolvedScopeChain} {as bs : List RouteScopeSpec}
    (h : List.Forall₂ RouteScopeSpec.Same as bs)
    : as.foldlM ResolvedScopeChain.inherit resolved
      = bs.foldlM ResolvedScopeChain.inherit resolved := by
  induction h generalizing resolved with
  | nil => rfl
  | cons hfirst _ ih =>
    rw [List.foldlM_cons, List.foldlM_cons, ResolvedScopeChain.inherit_same hfirst]
    congr 1
    funext next
    exact ih

def ScopeMap.Same (a b : ScopeMap) : Prop :=
  ∀ id, Option.Rel RouteScopeSpec.Same (a.get? id) (b.get? id)

variable {a b : ScopeMap}

theorem chainFrom_same (h : ScopeMap.Same a b) {fuel : Nat} {current : String}
    {seen : List String} {chain : List RouteScopeSpec} (ha : chainFrom a fuel current seen = .ok chain)
    : ∃ chain', chainFrom b fuel current seen = .ok chain'
      ∧ List.Forall₂ RouteScopeSpec.Same chain chain' := by
  induction fuel generalizing current seen chain with
  | zero => cases ha
  | succ fuel ih =>
    unfold chainFrom at ha ⊢
    split at ha
    . cases ha
    . next hfresh =>
      rw [if_neg hfresh]
      have hcurrent := h current
      cases hfound : a.get? current with
      | none =>
        rw [hfound] at ha
        cases ha
      | some scope =>
        rw [hfound] at ha hcurrent
        cases hother : b.get? current with
        | none =>
          rw [hother] at hcurrent
          cases hcurrent
        | some scope' =>
          rw [hother] at hcurrent
          cases hcurrent with
          | some hsame =>
            dsimp only at ha ⊢
            rw [← hsame.parent]
            split at ha
            . cases ha
              exact ⟨[scope'], rfl, .cons hsame .nil⟩
            . obtain ⟨rest, hrest, ha⟩ := Except.bind_eq_ok.mp ha
              cases ha
              obtain ⟨rest', hrest', htail⟩ := ih hrest
              exact ⟨scope' :: rest', Except.bind_eq_ok.mpr ⟨rest', hrest', rfl⟩, .cons hsame htail⟩

theorem ScopeMap.Same.len_eq (h : ScopeMap.Same a b) : a.len = b.len := by
  have hkeys : a.keys.Perm b.keys := by
    apply (List.perm_ext_iff_of_nodup _ _).mpr
    . intro id
      rw [SortedMap.mem_keys, SortedMap.mem_keys]
      have hid := h id
      cases ha : a.get? id <;> cases hb : b.get? id <;> rw [ha, hb] at hid
      . cases hid
      . cases hid
      . rfl
    . exact a.keys_sorted.imp (fun hlt => ne_of_lt hlt)
    . exact b.keys_sorted.imp (fun hlt => ne_of_lt hlt)
  have hlength := hkeys.length_eq
  unfold SortedMap.keys at hlength
  rw [List.length_map, List.length_map] at hlength
  exact hlength

theorem resolveScopeChain_same (h : ScopeMap.Same a b) {leaf : Option String}
    {resolved resolved' : ResolvedScopeChain} (ha : resolveScopeChain leaf a = .ok resolved)
    (hb : resolveScopeChain leaf b = .ok resolved') : resolved = resolved' := by
  cases leaf with
  | none =>
    cases ha
    cases hb
    rfl
  | some leaf =>
    obtain ⟨chain, hchain, ha⟩ := Except.bind_eq_ok.mp ha
    obtain ⟨chain', hchain', hsame⟩ := chainFrom_same h hchain
    rw [h.len_eq] at hchain'
    obtain ⟨_, hother, hb⟩ := Except.bind_eq_ok.mp hb
    rw [hchain'] at hother
    cases hother
    rw [← hsame.length_eq] at hb
    split at ha
    . cases ha
    . next hdepth =>
      rw [if_neg hdepth, ← foldlM_inherit_same (List.rel_reverse hsame), ha] at hb
      exact Except.ok.inj hb

theorem scopeMap_same {as bs : List RouteScopeSpec} (h : List.Forall₂ RouteScopeSpec.Same as bs)
    (ha : RouteGraphBuilder.scopeMap as = .ok a)
    (hb : RouteGraphBuilder.scopeMap bs = .ok b) : ScopeMap.Same a b := by
  have hgetA := (RouteGraphBuilder.scopeMap_ok ha).2
  obtain ⟨hnodup, hgetB⟩ := RouteGraphBuilder.scopeMap_ok hb
  -- a scope on one side has a partner of the same identifier on the other
  have hpartner : (∀ scope ∈ as, ∃ scope' ∈ bs, scope.Same scope')
      ∧ ∀ scope' ∈ bs, ∃ scope ∈ as, scope.Same scope' := by
    clear hgetA hgetB ha hb hnodup
    induction h with
    | nil => simp
    | cons hfirst _ ih =>
      simp only [List.mem_cons, forall_eq_or_imp, exists_eq_or_imp]
      exact ⟨⟨.inl hfirst, fun scope hscope => .inr (ih.1 scope hscope)⟩,
        ⟨.inl hfirst, fun scope hscope => .inr (ih.2 scope hscope)⟩⟩
  intro id
  cases hfound : a.get? id with
  | none =>
    cases hother : b.get? id with
    | none => exact .none
    | some scope' =>
      obtain ⟨hmem, hid⟩ := (hgetB id scope').mp hother
      obtain ⟨scope, hscope, hsame⟩ := hpartner.2 scope' hmem
      rw [(hgetA id scope).mpr ⟨hscope, hsame.id.trans hid⟩] at hfound
      cases hfound
  | some scope =>
    obtain ⟨hmem, hid⟩ := (hgetA id scope).mp hfound
    obtain ⟨scope', hscope', hsame⟩ := hpartner.1 scope hmem
    rw [(hgetB id scope').mpr ⟨hscope', hsame.id.symm.trans hid⟩]
    exact .some hsame

variable {builder builder' : RouteGraphBuilder} {graph graph' : RouteGraph}

theorem matchOrder_same {a b : RouteSpec} (h : a.Same b) : matchOrder a = matchOrder b := by
  unfold matchOrder
  rw [h.pattern, h.id]

theorem winner_same {as bs : List RouteSpec} (h : List.Forall₂ RouteSpec.Same as bs)
    (method : RouteMethod) (normalized : String)
    : Option.Rel RouteSpec.Same
      ((as.filter (fun route => route.method = method)).find?
        (fun route => (route.pattern.matchAdmitted normalized).isSome))
      ((bs.filter (fun route => route.method = method)).find?
        (fun route => (route.pattern.matchAdmitted normalized).isSome)) := by
  induction h with
  | nil => exact .none
  | @cons a b as bs hfirst _ ih =>
    rw [List.filter_cons, List.filter_cons, hfirst.method]
    split
    . rw [List.find?_cons, List.find?_cons, hfirst.pattern]
      split
      . exact .some hfirst
      . exact ih
    . exact ih

theorem allowedMethods_same (h : List.Forall₂ RouteSpec.Same graph.routes graph'.routes) (normalized : String)
    : graph.allowedMethods normalized = graph'.allowedMethods normalized := by
  have hmethods : ∀ {as bs : List RouteSpec}, List.Forall₂ RouteSpec.Same as bs →
      (as.filter (fun route => (route.pattern.matchAdmitted normalized).isSome)).map RouteSpec.method
        = (bs.filter (fun route => (route.pattern.matchAdmitted normalized).isSome)).map
          RouteSpec.method := by
    intro as bs h
    induction h with
    | nil => rfl
    | cons hfirst _ ih =>
      rw [List.filter_cons, List.filter_cons, hfirst.pattern]
      split
      . rw [List.map_cons, List.map_cons, ih, hfirst.method]
      . exact ih
  unfold RouteGraph.allowedMethods
  rw [hmethods h]

theorem resolve_same (hsealed : Sealed unicode sha256 builder graph)
    (hsealed' : Sealed unicode sha256 builder' graph') (h : builder.Same builder')
    (method : RouteMethod) (path : String)
    : graph.resolve unicode method path = graph'.resolve unicode method path := by
  have hroutes : List.Forall₂ RouteSpec.Same graph.routes graph'.routes := by
    rw [hsealed.routes, hsealed'.routes]
    exact forall₂_sortBy matchOrder_same h.routes
  have hchain : ∀ {a b : RouteSpec}, a ∈ graph.routes → b ∈ graph'.routes → a.Same b →
      graph.resolvedScopes.get? a.id = graph'.resolvedScopes.get? b.id := by
    intro a b ha hb hsame
    obtain ⟨scopes, hscopes, hchains⟩ := hsealed.chains
    obtain ⟨scopes', hscopes', hchains'⟩ := hsealed'.chains
    obtain ⟨chain, hresolved, hget⟩ := hchains a ha
    obtain ⟨chain', hresolved', hget'⟩ := hchains' b hb
    rw [hsealed.scopes] at hscopes
    rw [hsealed'.scopes] at hscopes'
    rw [← hsame.scope] at hresolved'
    rw [hget, hget', resolveScopeChain_same (scopeMap_same h.scopes hscopes hscopes') hresolved
      hresolved']
  unfold RouteGraph.resolve
  congr 1
  funext _
  dsimp only
  congr 1
  funext _
  have hwinner := winner_same hroutes method (unicode.nfc path)
  have hfound : ∀ {graph : RouteGraph} {route : RouteSpec},
      (graph.routes.filter (fun route => route.method = method)).find?
        (fun route => (route.pattern.matchAdmitted (unicode.nfc path)).isSome) = some route →
      route ∈ graph.routes :=
    fun hfound => (List.mem_filter.mp (List.mem_of_find?_eq_some hfound)).1
  revert hwinner
  generalize ha : (graph.routes.filter (fun route => route.method = method)).find?
    (fun route => (route.pattern.matchAdmitted (unicode.nfc path)).isSome) = first
  generalize hb : (graph'.routes.filter (fun route => route.method = method)).find?
    (fun route => (route.pattern.matchAdmitted (unicode.nfc path)).isSome) = second
  intro hwinner
  cases hwinner with
  | none =>
    dsimp only
    rw [allowedMethods_same hroutes]
  | @some a b hsame =>
    dsimp only
    rw [hchain (hfound ha) (hfound hb) hsame]
    unfold RouteGraph.routeMatch
    rw [hsame.id, hsame.method, hsame.pattern, hsame.middleware, hsame.errorBoundaries,
      hsame.loaders, hsame.actions, hsame.cachePolicy, extendResources_perm hsame.resources]

theorem digest_identifies_routing
    : (∀ (builder : RouteGraphBuilder) registrations registrations',
        registrations.Perm registrations' →
        registrations.filterMap Registration.preRouteId
          = registrations'.filterMap Registration.preRouteId →
        registrations.filterMap Registration.errorBoundaryId
          = registrations'.filterMap Registration.errorBoundaryId →
        ∀ graph, builder.build unicode sha256 registrations = .ok graph
          ↔ builder.build unicode sha256 registrations' = .ok graph)
      ∧ (unicode.KeepsSlashes → ∀ (builder builder' : RouteGraphBuilder) graph graph',
        builder.Built unicode → builder'.Built unicode →
        builder.sealGraph unicode sha256 = .ok graph →
        builder'.sealGraph unicode sha256 = .ok graph' →
        Set.InjOn sha256 {builder.preimage, builder'.preimage} →
        graph.digest = graph'.digest →
        List.Forall₂ RouteSpec.Same graph.routes graph'.routes
          ∧ List.Forall₂ RouteScopeSpec.Same graph.scopes graph'.scopes
          ∧ graph.middlewareCapabilities = graph'.middlewareCapabilities
          ∧ graph.preRouteMiddleware = graph'.preRouteMiddleware
          ∧ graph.errorBoundaries = graph'.errorBoundaries
          ∧ ∀ method path, graph.resolve unicode method path = graph'.resolve unicode method path) := by
  constructor
  . intro builder registrations registrations' hperm hpre hboundaries graph
    exact ⟨RouteGraphBuilder.build_of_perm hperm hpre hboundaries,
      RouteGraphBuilder.build_of_perm hperm.symm hpre.symm hboundaries.symm⟩
  . intro hslash builder builder' graph graph' hbuilt hbuilt' hseal hseal' hsha hdigest
    have hsealed := sealGraph_ok hseal
    have hsealed' := sealGraph_ok hseal'
    rw [hsealed.digest, hsealed'.digest] at hdigest
    have hpreimage : builder.preimage = builder'.preimage :=
      hsha (.inl rfl) (.inr rfl) (Hash.ext (encodeHex_inj hdigest))
    have hsame := (hbuilt.valid hslash).same_of_preimage (hbuilt'.valid hslash) hpreimage
    refine ⟨?_, ?_, ?_, ?_, ?_, resolve_same hsealed hsealed' hsame⟩
    . rw [hsealed.routes, hsealed'.routes]
      exact forall₂_sortBy matchOrder_same hsame.routes
    . rw [hsealed.scopes, hsealed'.scopes]
      exact hsame.scopes
    . rw [hsealed.middlewareCapabilities, hsealed'.middlewareCapabilities]
      exact hsame.middlewareCapabilities
    . rw [hsealed.preRouteMiddleware, hsealed'.preRouteMiddleware]
      exact hsame.preRouteMiddleware
    . rw [hsealed.errorBoundaries, hsealed'.errorBoundaries]
      exact hsame.errorBoundaries

theorem digest_identifies_routing_users
    : ∃ builder builder' graph graph',
      sampleBuilder [("user", .get, "/users/:id"), ("me", .get, "/users/me")] = .ok builder
      ∧ sampleBuilder [("me", .get, "/users/me"), ("user", .get, "/users/:id")] = .ok builder'
      ∧ builder.sealGraph sampleUnicode sha256Digest = .ok graph
      ∧ builder'.sealGraph sampleUnicode sha256Digest = .ok graph'
      ∧ graph.digest = graph'.digest
      ∧ graph.resolve sampleUnicode .get "/users/7" = graph'.resolve sampleUnicode .get "/users/7" := by
  have hran : ((sampleBuilder [("user", .get, "/users/:id"), ("me", .get, "/users/me")]).toOption.any
      (fun builder =>
        (sampleBuilder [("me", .get, "/users/me"), ("user", .get, "/users/:id")]).toOption.any
          (fun builder' => builder.preimage = builder'.preimage
            && (builder.sealGraph sampleUnicode sha256Digest).toOption.isSome
            && (builder'.sealGraph sampleUnicode sha256Digest).toOption.isSome))) = true := by
    decide +kernel
  obtain ⟨builder, hbuilder, hran⟩ := (Option.any_eq_true _ _).mp hran
  obtain ⟨builder', hbuilder', hran⟩ := (Option.any_eq_true _ _).mp hran
  rw [Bool.and_eq_true, Bool.and_eq_true, decide_eq_true_eq] at hran
  obtain ⟨⟨hpreimage, hgraph⟩, hgraph'⟩ := hran
  obtain ⟨graph, hgraph⟩ := Option.isSome_iff_exists.mp hgraph
  obtain ⟨graph', hgraph'⟩ := Option.isSome_iff_exists.mp hgraph'
  rw [Except.toOption_eq_some] at hbuilder hbuilder' hgraph hgraph'
  have hinj : Set.InjOn sha256Digest {builder.preimage, builder'.preimage} := by
    rw [← hpreimage, Set.pair_eq_singleton]
    exact Set.injOn_singleton _ _
  have hdigest : graph.digest = graph'.digest := by
    rw [(sealGraph_ok hgraph).digest, (sealGraph_ok hgraph').digest]
    exact congrArg (fun bytes => encodeHex (sha256Digest bytes).bytes) hpreimage
  have hsame := digest_identifies_routing.2 sampleUnicode_keepsSlashes builder builder' graph graph'
    (sampleBuilder_built hbuilder) (sampleBuilder_built hbuilder') hgraph hgraph' hinj hdigest
  exact ⟨builder, builder', graph, graph', hbuilder, hbuilder', hgraph, hgraph', hdigest,
    hsame.2.2.2.2.2 .get "/users/7"⟩

end Behaviour

end Router

end Pliego
