import Pliego.Pboc.Manifest

/-!
What an accepted manifest is known to satisfy.
-/

namespace Pliego

open Bytes Text Sorting

namespace Pboc

open Router (Unicode)

variable {unicode : Unicode} {references : RouteReferences} {routes : List PbocRoute}

structure RouteValid (references : RouteReferences) (route : PbocRoute) : Prop where
  id : boundedId route.id "route.id" = .ok ()
  method : isUppercaseMethod route.method = true
  pattern : isRequestPath route.pattern = true
  target : validateRouteTarget references route = .ok ()
  cachePolicy : ∀ id ∈ route.cachePolicyId, id ∈ references.cacheIds
  features : validateRouteFeatures references route = .ok ()

def routeKey (route : PbocRoute) : String × String := (route.method, route.pattern)

theorem validateRoute_ok_iff {seen seen' : List String × List (String × String)} {route : PbocRoute}
    : validateRoute references seen route = .ok seen'
      ↔ RouteValid references route ∧ route.id ∉ seen.1 ∧ routeKey route ∉ seen.2
        ∧ seen' = (route.id :: seen.1, routeKey route :: seen.2) := by
  unfold validateRoute method requestPath
  simp only [Except.bind_unit_eq_ok, ensure_ok, Bool.not_eq_true', List.contains_eq_mem,
    decide_eq_false_iff_not, Except.ok.injEq]
  constructor
  . rintro ⟨hid, hmethod, hpattern, hfresh, hkey, htarget, hcache, hfeatures, hseen⟩
    refine ⟨⟨hid, hmethod, hpattern, htarget, ?_, hfeatures⟩, hfresh, hkey, hseen.symm⟩
    intro id hsome
    rw [Option.mem_def.mp hsome] at hcache
    simpa using hcache
  . rintro ⟨hvalid, hfresh, hkey, hseen⟩
    refine ⟨hvalid.id, hvalid.method, hvalid.pattern, hfresh, hkey, hvalid.target, ?_,
      hvalid.features, hseen.symm⟩
    cases hcache : route.cachePolicyId with
    | none => rfl
    | some id => simpa using hvalid.cachePolicy id hcache

theorem foldlM_validateRoute {seen : List String × List (String × String)}
    : (∃ seen', routes.foldlM (validateRoute references) seen = .ok seen')
      ↔ (∀ route ∈ routes, RouteValid references route)
        ∧ (routes.map PbocRoute.id).Nodup ∧ (routes.map routeKey).Nodup
        ∧ ∀ route ∈ routes, route.id ∉ seen.1 ∧ routeKey route ∉ seen.2 := by
  induction routes generalizing seen with
  | nil => simp [pure, Except.pure]
  | cons route routes ih =>
    rw [List.foldlM_cons, List.map_cons, List.map_cons, List.nodup_cons, List.nodup_cons,
      List.forall_mem_cons, List.forall_mem_cons]
    constructor
    . rintro ⟨last, h⟩
      obtain ⟨next, hnext, h⟩ := Except.bind_eq_ok.mp h
      obtain ⟨hvalid, hid, hkey, rfl⟩ := validateRoute_ok_iff.mp hnext
      obtain ⟨hall, hids, hkeys, hfresh⟩ := ih.mp ⟨last, h⟩
      refine ⟨⟨hvalid, hall⟩, ⟨?_, hids⟩, ⟨?_, hkeys⟩, ⟨hid, hkey⟩, ?_⟩
      . intro hmem
        obtain ⟨other, hother, hsame⟩ := List.mem_map.mp hmem
        exact (hfresh other hother).1 (by simp [hsame])
      . intro hmem
        obtain ⟨other, hother, hsame⟩ := List.mem_map.mp hmem
        exact (hfresh other hother).2 (by simp [hsame])
      . intro other hother
        exact ⟨fun hmem => (hfresh other hother).1 (List.mem_cons_of_mem _ hmem),
          fun hmem => (hfresh other hother).2 (List.mem_cons_of_mem _ hmem)⟩
    . rintro ⟨⟨hvalid, hall⟩, ⟨hid, hids⟩, ⟨hkey, hkeys⟩, ⟨hfreshId, hfreshKey⟩, hfresh⟩
      have hstep := validateRoute_ok_iff.mpr ⟨hvalid, hfreshId, hfreshKey, rfl⟩
      rw [hstep]
      apply ih.mpr
      refine ⟨hall, hids, hkeys, ?_⟩
      intro other hother
      rw [List.mem_cons, List.mem_cons, not_or, not_or]
      refine ⟨⟨?_, (hfresh other hother).1⟩, ?_, (hfresh other hother).2⟩
      . exact fun hsame => hid (hsame ▸ List.mem_map_of_mem hother)
      . exact fun hsame => hkey (hsame ▸ List.mem_map_of_mem hother)

theorem validateRoutes_ok_iff
    : validateRoutes references routes = .ok ()
      ↔ (∀ route ∈ routes, RouteValid references route)
        ∧ (routes.map PbocRoute.id).Nodup ∧ (routes.map routeKey).Nodup
        ∧ (routes.map routeOrder).Pairwise (· < ·) := by
  have hfold := @foldlM_validateRoute references routes ([], [])
  unfold validateRoutes
  rw [← ascending_iff]
  constructor
  . intro h
    obtain ⟨seen, hseen, h⟩ := Except.bind_eq_ok.mp h
    obtain ⟨hvalid, hids, hkeys, _⟩ := hfold.mp ⟨seen, hseen⟩
    exact ⟨hvalid, hids, hkeys, ensure_ok.mp h⟩
  . rintro ⟨hvalid, hids, hkeys, horder⟩
    obtain ⟨seen, hseen⟩ := hfold.mpr ⟨hvalid, hids, hkeys, by simp⟩
    rw [hseen]
    exact ensure_ok.mpr horder

structure RestValid (unicode : Unicode) (manifest : PbocManifest) : Prop where
  identity : validateIdentity manifest = .ok ()
  capabilities : validateCapabilities manifest.capabilities = .ok ()
  artifacts : validateArtifacts unicode manifest.artifacts manifest.build.provenance = .ok ()
  targets : validateTargets (artifactPaths manifest.artifacts) manifest.targets = .ok ()
  cachePolicies : validateCachePolicies manifest.cachePolicies = .ok ()
  assets : validateAssets unicode (artifactPaths manifest.artifacts)
    (cacheIds manifest.cachePolicies) manifest.assets = .ok ()
  functions : validateFunctions (manifest.secretReferences.map SecretReference.id)
    (manifest.permissions.map ResourcePermission.id) manifest.functions = .ok ()

theorem validateManifest_ok {manifest : PbocManifest} (h : validateManifest unicode manifest = .ok ())
    : RestValid unicode manifest ∧ validateRoutes manifest.references manifest.routes = .ok () := by
  unfold validateManifest at h
  simp only [Except.bind_unit_eq_ok] at h
  obtain ⟨hidentity, _, hcapabilities, hartifacts, htargets, hpolicies, hassets, _, _, hfunctions,
    hroutes, _⟩ := h
  exact ⟨⟨hidentity, hcapabilities, hartifacts, htargets, hpolicies, hassets, hfunctions⟩, hroutes⟩

theorem validateManifest_with_routes {manifest : PbocManifest}
    : validateManifest unicode { manifest with routes := routes } = .ok ()
      ↔ validateManifest unicode { manifest with routes := [] } = .ok ()
        ∧ routes.length ≤ maxCollectionItems
        ∧ validateRoutes manifest.references routes = .ok () := by
  have hidentity : validateIdentity { manifest with routes := routes }
      = validateIdentity { manifest with routes := [] } := rfl
  have hreferences : ∀ routes, PbocManifest.references { manifest with routes := routes }
      = manifest.references := fun _ => rfl
  have hnone : validateRoutes manifest.references [] = .ok () := by
    rw [validateRoutes_ok_iff]
    simp
  unfold validateManifest validateCollections collection
  simp only [Except.bind_unit_eq_ok, ensure_ok, decide_eq_true_eq, hidentity, hreferences, hnone,
    List.length_nil, Nat.zero_le, true_and]
  tauto

theorem ids_ascending {α : Type} {values : List α} {key : α → String} {label : String}
    (h : requireSortedUnique values key label = .ok ()) : (values.map key).Pairwise (· < ·) :=
  ascending_iff.mp (ensure_ok.mp h)

theorem find?_eq_some_of_mem {α : Type} {values : List α} {key : α → String} {value : α}
    (hkeys : (values.map key).Nodup) (hvalue : value ∈ values)
    : values.find? (fun candidate => decide (key candidate = key value)) = some value := by
  cases hfind : values.find? (fun candidate => decide (key candidate = key value)) with
  | none =>
    have hnot := List.find?_eq_none.mp hfind value hvalue
    simp at hnot
  | some found =>
    have hsame := List.find?_some hfind
    have hmem := List.mem_of_find?_eq_some hfind
    rw [List.inj_on_of_nodup_map hkeys hmem hvalue (of_decide_eq_true hsame)]

end Pboc

end Pliego
