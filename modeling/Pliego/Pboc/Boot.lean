import Pliego.Pboc.Admission
import Pliego.Pboc.Bundle
import Pliego.Pboc.Export

/-!
When a validated manifest can be booted: its router is built, its static routes are uploaded, and a
portable directory tree holds its artifacts.
-/

namespace Pliego

open Bytes Text Sorting FileTree

namespace Pboc

open Router

variable {unicode : Unicode} {sha256 : Sha256} {json : ManifestJson} {manifest : PbocManifest}

def collisionKey (unicode : Unicode) (path : List String) : String :=
  join '/' (path.map unicode.portableCaseKey)

/--
No two paths fold alike, and nothing but a file lies under the name of the manifest.
-/
structure PortableTree (unicode : Unicode) (entries : Entries FileContent) : Prop where
  wellFormed : FileTree.WellFormed entries
  folded : ∀ p q, (lookup entries p).isSome = true → (lookup entries q).isSome = true →
    collisionKey unicode p = collisionKey unicode q → p = q
  ownName : ∀ p node, lookup entries p = some node →
    collisionKey unicode p = collisionKey unicode [pbocFileName] →
    p = [pbocFileName] ∧ node.isDirectory = false

-- The contents are free to have the declared lengths and digests.
def Realizable (unicode : Unicode) (json : ManifestJson) (sha256 : Sha256) (manifest : PbocManifest)
    : Prop :=
  ∃ entries, PortableTree unicode entries
    ∧ ∃ receipt, verifyBundle unicode json sha256 (.directory entries) manifest = .ok receipt

def IsNode (manifest : PbocManifest) (path : List String) : Prop :=
  path ≠ [] ∧ ∃ artifact ∈ manifest.artifacts, path <+: split '/' artifact.path

structure Placeable (unicode : Unicode) (manifest : PbocManifest) : Prop where
  separate : ∀ a ∈ manifest.artifacts, ∀ b ∈ manifest.artifacts,
    split '/' a.path <+: split '/' b.path → a.path = b.path
  folded : ∀ p q, IsNode manifest p → IsNode manifest q →
    collisionKey unicode p = collisionKey unicode q → p = q
  ownName : ∀ p, IsNode manifest p →
    collisionKey unicode p ≠ collisionKey unicode [pbocFileName]

def Collide (unicode : Unicode) (a b : PbocRoute) : Prop :=
  a.method = b.method ∧ ∃ p q, RoutePattern.parse unicode a.pattern = .ok p
    ∧ RoutePattern.parse unicode b.pattern = .ok q
    ∧ ∃ shape ∈ p.shapeKeys unicode, shape ∈ q.shapeKeys unicode

structure Routable (unicode : Unicode) (manifest : PbocManifest) : Prop where
  count : manifest.routes.length ≤ defaultMaxRoutes
  ids : ∀ route ∈ manifest.routes, isRouteId route.id = true
  patterns : ∀ route ∈ manifest.routes, ∃ pattern, RoutePattern.parse unicode route.pattern = .ok pattern
  cachePolicies : ∀ route ∈ manifest.routes, ∀ id ∈ route.cachePolicyId, isDataId id = true
  apart : manifest.routes.Pairwise (fun a b => ¬ Collide unicode a b)

section Routes

theorem RouteMethod.no_blank (method : RouteMethod) : ' ' ∉ method.text.toList := by
  have htoken := method.valid
  unfold isMethod at htoken
  simp only [Bool.and_eq_true] at htoken
  intro hmem
  have hascii : ∀ byte, isMethodToken byte = true → byte.toNat < 128 := by decide +kernel
  exact absurd (ascii_of_all hascii htoken.1.2 hmem).2 (by decide)

theorem shapeKey_eq_iff {a b : RouteMethod} {shape shape' : String}
    : RouteGraphBuilder.shapeKey a shape = RouteGraphBuilder.shapeKey b shape'
      ↔ a = b ∧ shape = shape' := by
  constructor
  . intro h
    have hchars : a.text.toList ++ ' ' :: shape.toList = b.text.toList ++ ' ' :: shape'.toList := by
      have h := congrArg String.toList h
      unfold RouteGraphBuilder.shapeKey at h
      simpa using h
    obtain ⟨hmethod, _, hshape⟩ := @append_mark_inj _ (· = ' ') _ _ _ _ _ _
      (fun c hc hblank => RouteMethod.no_blank a (hblank ▸ hc))
      (fun c hc hblank => RouteMethod.no_blank b (hblank ▸ hc)) rfl rfl hchars
    exact ⟨RouteMethod.ext (String.toList_inj.mp hmethod), String.toList_inj.mp hshape⟩
  . rintro ⟨rfl, rfl⟩
    rfl

theorem exists_spec_iff {route : PbocRoute} (hmethod : isUppercaseMethod route.method = true)
    : (∃ spec, route.spec unicode = .ok spec)
      ↔ isRouteId route.id = true
        ∧ (∃ pattern, RoutePattern.parse unicode route.pattern = .ok pattern)
        ∧ ∀ id ∈ route.cachePolicyId, isDataId id = true := by
  constructor
  . rintro ⟨spec, hspec⟩
    obtain ⟨_, _, _, hpattern, hid, hcache⟩ := PbocRoute.spec_ok hspec
    exact ⟨hid, ⟨_, hpattern⟩, hcache⟩
  . rintro ⟨hid, ⟨pattern, hpattern⟩, hcache⟩
    have htoken : isMethod route.method = true := by
      unfold isUppercaseMethod at hmethod
      simp only [Bool.and_eq_true, List.all_eq_true] at hmethod
      have htokens : (utf8 route.method).all isMethodToken = true := by
        rw [List.all_eq_true]
        intro byte hbyte
        have hupper := hmethod.2 byte hbyte
        have htable : ∀ byte, isAsciiUppercase byte = true → isMethodToken byte = true := by
          decide +kernel
        exact htable byte hupper
      have hlower : (utf8 route.method).any isAsciiLowercase = false := by
        rw [List.any_eq_false]
        intro byte hbyte
        have hupper := hmethod.2 byte hbyte
        have htable : ∀ byte, isAsciiUppercase byte = true → ¬ isAsciiLowercase byte = true := by
          decide +kernel
        exact htable byte hupper
      unfold isMethod
      rw [hmethod.1.1, hmethod.1.2, htokens, hlower]
      rfl
    unfold PbocRoute.spec RouteMethod.new RouteSpec.new
    rw [dif_pos htoken, validateRouteId_ok.mpr hid, hpattern]
    cases hpolicy : route.cachePolicyId with
    | none => exact ⟨_, rfl⟩
    | some id =>
      have hdata : validateDataId id .invalidCachePolicyId = .ok () :=
        validateDataId_ok.mpr (hcache id hpolicy)
      change ∃ spec, RouteSpec.withCachePolicy _ id = .ok spec
      unfold RouteSpec.withCachePolicy
      rw [hdata]
      exact ⟨_, rfl⟩

theorem pairwise_specs_iff (hspecs : ∀ route ∈ manifest.routes, ∃ spec, route.spec unicode = .ok spec)
    (hids : (manifest.routes.map PbocRoute.id).Nodup)
    : (specs unicode manifest.routes).Pairwise (Apart unicode)
      ↔ manifest.routes.Pairwise (fun a b => ¬ Collide unicode a b) := by
  unfold specs
  rw [List.pairwise_filterMap]
  have hnodup := List.pairwise_map.mp hids
  constructor
  . intro h
    apply h.imp_of_mem
    rintro a b ha hb hapart ⟨hmethod, p, q, hp, hq, shape, hshape, hshape'⟩
    obtain ⟨spec, hspec⟩ := hspecs a ha
    obtain ⟨spec', hspec'⟩ := hspecs b hb
    have hkeys := (hapart spec (Except.toOption_eq_some.mpr hspec) spec'
      (Except.toOption_eq_some.mpr hspec')).2
    obtain ⟨_, htext, _, hparse, _⟩ := PbocRoute.spec_ok hspec
    obtain ⟨_, htext', _, hparse', _⟩ := PbocRoute.spec_ok hspec'
    rw [hparse] at hp
    rw [hparse'] at hq
    cases hp
    cases hq
    apply hkeys shape hshape shape hshape'
    rw [shapeKey_eq_iff]
    exact ⟨RouteMethod.ext (by rw [htext, htext', hmethod]), rfl⟩
  . intro h
    apply (h.and hnodup).imp
    rintro a b ⟨hfree, hne⟩ spec hspec spec' hspec'
    rw [Except.toOption_eq_some] at hspec hspec'
    obtain ⟨hid, htext, _, hparse, _⟩ := PbocRoute.spec_ok hspec
    obtain ⟨hid', htext', _, hparse', _⟩ := PbocRoute.spec_ok hspec'
    refine ⟨by rw [hid, hid']; exact hne, ?_⟩
    intro shape hshape shape' hshape' hkey
    obtain ⟨hmethod, rfl⟩ := shapeKey_eq_iff.mp hkey
    apply hfree
    exact ⟨by rw [← htext, ← htext', hmethod], _, _, hparse, hparse', shape, hshape, hshape'⟩

theorem exists_router_iff (hvalid : validateManifest unicode manifest = .ok ())
    : (∃ router, PbocRouter.new unicode sha256 manifest = .ok router) ↔ Routable unicode manifest := by
  obtain ⟨hroutes, hids, _, _⟩ := validateRoutes_ok_iff.mp (validateManifest_ok hvalid).2
  constructor
  . rintro ⟨router, hrouter⟩
    obtain ⟨_, hcount, hspecs, hgraph, _⟩ := PbocRouter.new_ok_iff.mp hrouter
    have hfacts := fun route hroute =>
      (exists_spec_iff (hroutes route hroute).method).mp (hspecs route hroute)
    exact ⟨hcount, fun route hroute => (hfacts route hroute).1,
      fun route hroute => (hfacts route hroute).2.1,
      fun route hroute => (hfacts route hroute).2.2,
      (pairwise_specs_iff hspecs hids).mp ((routerBuilder_plain.sealed.mp ⟨_, hgraph⟩).2)⟩
  . intro hroutable
    have hspecs : ∀ route ∈ manifest.routes, ∃ spec, route.spec unicode = .ok spec :=
      fun route hroute => (exists_spec_iff (hroutes route hroute).method).mpr
        ⟨hroutable.ids route hroute, hroutable.patterns route hroute,
          hroutable.cachePolicies route hroute⟩
    obtain ⟨graph, hgraph⟩ := routerBuilder_plain.sealed.mpr
      ⟨Nat.le_trans length_specs_le (Nat.le_max_left _ _),
        (pairwise_specs_iff hspecs hids).mpr hroutable.apart⟩
    exact ⟨⟨graph, routeMap manifest.routes⟩,
      PbocRouter.new_ok_iff.mpr ⟨hvalid, hroutable.count, hspecs, hgraph, rfl⟩⟩

end Routes

section Uploads

theorem static_uploaded (hvalid : validateManifest unicode manifest = .ok ()) {host : HostProfile}
    {admission : HostAdmission} (hadmission : HostAdmission.new unicode json sha256 manifest host = .ok admission)
    {route : PbocRoute} (hroute : route ∈ manifest.routes) (hstatic : route.kind = .static)
    : ∃ path, route.assetPath = some path ∧ path ∈ artifactPaths manifest.artifacts
      ∧ path ∈ admission.artifactPaths := by
  obtain ⟨hrest, hroutes⟩ := validateManifest_ok hvalid
  have htarget := ((validateRoutes_ok_iff.mp hroutes).1 route hroute).target
  unfold validateRouteTarget at htarget
  rw [hstatic] at htarget
  dsimp only at htarget
  split at htarget
  . next path _ hpath =>
    obtain ⟨hasset, _⟩ := Except.bind_unit_eq_ok.mp htarget
    rw [ensure_ok, List.contains_eq_mem, decide_eq_true_eq] at hasset
    refine ⟨path, hpath, ?_, ?_⟩
    . obtain ⟨asset, hmem, rfl⟩ := List.mem_map.mp hasset
      obtain ⟨_, hassets⟩ := Except.bind_unit_eq_ok.mp hrest.assets
      have hchecked := Except.forM_eq_ok.mp hassets asset hmem
      unfold validateAsset at hchecked
      simp only [Except.bind_unit_eq_ok, ensure_ok] at hchecked
      simpa using hchecked.2.2.1
    . unfold HostAdmission.new at hadmission
      obtain ⟨_, hadmission⟩ := Except.bind_unit_eq_ok.mp hadmission
      obtain ⟨_, hadmission⟩ := Except.bind_unit_eq_ok.mp hadmission
      obtain ⟨_, hadmission⟩ := Except.bind_unit_eq_ok.mp hadmission
      split at hadmission
      . cases hadmission
      . dsimp only at hadmission
        split at hadmission
        . cases hadmission
        . obtain ⟨total, _, hadmission⟩ := Except.bind_eq_ok.mp hadmission
          split at hadmission
          . cases hadmission
          . obtain ⟨digest, _, hadmission⟩ := Except.bind_eq_ok.mp hadmission
            cases hadmission
            unfold uploadPaths
            rw [SortedSet.mem_keys_iff, SortedSet.contains_ofList]
            exact List.mem_append_left _ (List.mem_append_right _ hasset)
  . cases htarget

end Uploads

section Files

theorem portablePath_ok {path label : String} (h : portablePath unicode path label = .ok ())
    : validatePortablePath unicode path = .ok path ∧ (split '/' path).length ≤ maxPathComponents
      ∧ ∀ component ∈ split '/' path, component ≠ "" := by
  unfold portablePath at h
  split at h
  . next value hvalue =>
    have hpath := hvalue
    unfold validatePortablePath at hvalue
    split at hvalue
    . cases hvalue
    . split at hvalue
      . cases hvalue
      . next hnormal =>
        split at hvalue
        . cases hvalue
        . next hcount =>
          simp only [Bool.or_eq_true, decide_eq_true_eq, not_or, not_not] at hnormal
          rw [hnormal.2] at hvalue hcount
          obtain ⟨hcomponents, hvalue⟩ := Except.bind_unit_eq_ok.mp hvalue
          cases hvalue
          refine ⟨hpath, Nat.not_lt.mp hcount, ?_⟩
          intro component hcomponent
          have hchecked := Except.forM_eq_ok.mp hcomponents component hcomponent
          split at hchecked
          . cases hchecked
          . next hportable =>
            rintro rfl
            exact hportable (by decide)
  . cases h

structure ArtifactsValid (unicode : Unicode) (artifacts : List PbocArtifact) : Prop where
  ascending : (artifacts.map PbocArtifact.path).Pairwise (· < ·)
  portable : ∀ artifact ∈ artifacts, portablePath unicode artifact.path "artifact.path" = .ok ()
  total : ∃ total, artifacts.foldlM (addArtifact unicode) 0 = .ok total

theorem addArtifact_ok {total total' : Nat} {artifact : PbocArtifact}
    (h : addArtifact unicode total artifact = .ok total')
    : portablePath unicode artifact.path "artifact.path" = .ok ()
      ∧ total + artifact.bytes < 2 ^ 64 ∧ total' = total + artifact.bytes := by
  unfold addArtifact at h
  simp only [Except.bind_unit_eq_ok, ensure_ok, decide_eq_true_eq, Except.ok.injEq] at h
  exact ⟨h.1, h.2.2.2.2.1, h.2.2.2.2.2.symm⟩

theorem foldlM_addArtifact_ok {artifacts : List PbocArtifact} {total total' : Nat}
    (h : artifacts.foldlM (addArtifact unicode) total = .ok total')
    : ∀ artifact ∈ artifacts, portablePath unicode artifact.path "artifact.path" = .ok () := by
  induction artifacts generalizing total with
  | nil => simp
  | cons artifact artifacts ih =>
    rw [List.foldlM_cons] at h
    obtain ⟨next, hnext, h⟩ := Except.bind_eq_ok.mp h
    exact List.forall_mem_cons.mpr ⟨(addArtifact_ok hnext).1, ih h⟩

theorem artifactsValid (hvalid : validateManifest unicode manifest = .ok ())
    : ArtifactsValid unicode manifest.artifacts := by
  have hchecked := (validateManifest_ok hvalid).1.artifacts
  unfold validateArtifacts at hchecked
  obtain ⟨hids, hchecked⟩ := Except.bind_unit_eq_ok.mp hchecked
  obtain ⟨total, htotal, _⟩ := Except.bind_eq_ok.mp hchecked
  exact ⟨ids_ascending hids, foldlM_addArtifact_ok htotal, total, htotal⟩

theorem foldlM_verifyArtifact {entries : Entries FileContent} {artifacts : List PbocArtifact}
    {total total' : Nat} (h : artifacts.foldlM (addArtifact unicode) total = .ok total')
    (hfound : ∀ artifact ∈ artifacts, lookup entries (split '/' artifact.path)
      = some (.file ⟨artifact.bytes, artifact.sha256⟩))
    : artifacts.foldlM (verifyArtifact entries) total = .ok total' := by
  induction artifacts generalizing total with
  | nil => exact h
  | cons artifact artifacts ih =>
    rw [List.foldlM_cons] at h
    obtain ⟨next, hnext, h⟩ := Except.bind_eq_ok.mp h
    obtain ⟨_, hroom, rfl⟩ := addArtifact_ok hnext
    have hstep : verifyArtifact entries total artifact = .ok (total + artifact.bytes) := by
      unfold verifyArtifact
      rw [hfound artifact List.mem_cons_self]
      dsimp only
      rw [if_neg (by simp), if_neg (by simp), if_neg (Nat.not_le.mpr hroom)]
    rw [List.foldlM_cons, hstep]
    exact ih h (fun other hother => hfound other (List.mem_cons_of_mem _ hother))

def declaredFiles (manifest : PbocManifest) : List (List String × FileContent) :=
  manifest.artifacts.map (fun artifact =>
    (split '/' artifact.path, ⟨artifact.bytes, artifact.sha256⟩))

theorem declaredFiles_separate (hvalid : ArtifactsValid unicode manifest.artifacts)
    (hplace : Placeable unicode manifest) : Separate (declaredFiles manifest) := by
  have hnodup := hvalid.ascending.imp (fun hlt => ne_of_lt hlt)
  unfold declaredFiles
  refine ⟨?_, ?_, ?_⟩
  . intro file hfile
    obtain ⟨artifact, _, rfl⟩ := List.mem_map.mp hfile
    exact split_ne_nil
  . rw [List.map_map]
    have hpaths : (manifest.artifacts.map PbocArtifact.path).Nodup := hnodup
    have hsplit := hpaths.map (f := split '/') (fun a b hab => split_inj hab)
    rw [List.map_map] at hsplit
    exact hsplit
  . intro a ha b hb hfront
    obtain ⟨artifact, hartifact, rfl⟩ := List.mem_map.mp ha
    obtain ⟨other, hother, rfl⟩ := List.mem_map.mp hb
    dsimp only at hfront ⊢
    rw [hplace.separate artifact hartifact other hother hfront]

theorem declared_lookup (hvalid : ArtifactsValid unicode manifest.artifacts)
    (hplace : Placeable unicode manifest) {path : List String} {node : Node FileContent}
    (h : lookup (ofFiles maxPathComponents (declaredFiles manifest)) path = some node)
    : IsNode manifest path
      ∧ (node.isDirectory = true
        ∨ ∃ artifact ∈ manifest.artifacts, path = split '/' artifact.path
          ∧ node = .file ⟨artifact.bytes, artifact.sha256⟩) := by
  have hpath := ne_nil_of_lookup h
  cases lookup_ofFiles_some (declaredFiles_separate hvalid hplace) h with
  | inl hfile =>
    obtain ⟨content, rfl, hmem⟩ := hfile
    obtain ⟨artifact, hartifact, hsame⟩ := List.mem_map.mp hmem
    cases hsame
    exact ⟨⟨hpath, artifact, hartifact, List.prefix_rfl⟩, .inr ⟨artifact, hartifact, rfl, rfl⟩⟩
  | inr hdirectory =>
    obtain ⟨hsort, file, hmem, hfront, _⟩ := hdirectory
    obtain ⟨artifact, hartifact, rfl⟩ := List.mem_map.mp hmem
    exact ⟨⟨hpath, artifact, hartifact, hfront⟩, .inl hsort⟩

theorem pathText_split {path : String} : pathText (split '/' path) = path := join_split

theorem realizable_of_placeable (hvalid : validateManifest unicode manifest = .ok ())
    (hplace : Placeable unicode manifest) (hsize : (json manifest).length ≤ maxManifestBytes)
    : Realizable unicode json sha256 manifest := by
  have hartifacts := artifactsValid hvalid
  have hseparate := declaredFiles_separate hartifacts hplace
  have hdepth : ∀ file ∈ declaredFiles manifest, file.1.length ≤ maxPathComponents := by
    intro file hfile
    obtain ⟨artifact, hartifact, rfl⟩ := List.mem_map.mp hfile
    exact (portablePath_ok (hartifacts.portable artifact hartifact)).2.1
  have hfound : ∀ artifact ∈ manifest.artifacts,
      lookup (ofFiles maxPathComponents (declaredFiles manifest)) (split '/' artifact.path)
        = some (.file ⟨artifact.bytes, artifact.sha256⟩) :=
    fun artifact hartifact => lookup_ofFiles hseparate hdepth (List.mem_map_of_mem hartifact)
  have hwell : FileTree.WellFormed (ofFiles maxPathComponents (declaredFiles manifest)) := by
    apply WellFormed.ofFiles
    intro file hfile name hname
    obtain ⟨artifact, hartifact, rfl⟩ := List.mem_map.mp hfile
    exact ⟨(portablePath_ok (hartifacts.portable artifact hartifact)).2.2 name hname,
      not_mem_of_mem_split hname⟩
  have htree : PortableTree unicode (ofFiles maxPathComponents (declaredFiles manifest)) := by
    refine ⟨hwell, ?_, ?_⟩
    . intro p q hp hq hkey
      obtain ⟨node, hnode⟩ := Option.isSome_iff_exists.mp hp
      obtain ⟨node', hnode'⟩ := Option.isSome_iff_exists.mp hq
      exact hplace.folded p q (declared_lookup hartifacts hplace hnode).1
        (declared_lookup hartifacts hplace hnode').1 hkey
    . intro p node hnode hkey
      exact absurd hkey (hplace.ownName p (declared_lookup hartifacts hplace hnode).1)
  have hcollectable : ∀ path node,
      lookup (ofFiles maxPathComponents (declaredFiles manifest)) path = some node →
      Collectable unicode path node := by
    intro path node hnode
    obtain ⟨_, hsort | ⟨artifact, hartifact, rfl, rfl⟩⟩ := declared_lookup hartifacts hplace hnode
    . cases node with
      | directory sub => exact trivial
      | _ => cases hsort
    . refine ⟨artifact.path, ?_⟩
      rw [pathText_split]
      exact (portablePath_ok (hartifacts.portable artifact hartifact)).1
  obtain ⟨files, hfiles⟩ := collectFiles_of hwell hcollectable
  have hobserved : (SortedSet.ofList files).remove pbocFileName
      = SortedSet.ofList (artifactPaths manifest.artifacts) := by
    apply SortedSet.ext_contains
    intro path
    rw [SortedSet.contains_remove, SortedSet.contains_ofList, SortedSet.contains_ofList,
      mem_collectFiles hwell hfiles]
    unfold artifactPaths
    rw [List.mem_map]
    constructor
    . rintro ⟨⟨components, content, hnode, rfl⟩, _⟩
      obtain ⟨_, hsort | ⟨artifact, hartifact, rfl, _⟩⟩ := declared_lookup hartifacts hplace hnode
      . cases hsort
      . exact ⟨artifact, hartifact, pathText_split.symm⟩
    . rintro ⟨artifact, hartifact, rfl⟩
      refine ⟨⟨_, _, hfound artifact hartifact, pathText_split.symm⟩, ?_⟩
      intro hname
      apply hplace.ownName (split '/' artifact.path)
        ⟨split_ne_nil, artifact, hartifact, List.prefix_rfl⟩
      rw [hname]
      rfl
  obtain ⟨total, htotal⟩ := hartifacts.total
  have hencoded : encodeManifest unicode json manifest = .ok (json manifest) := by
    unfold encodeManifest
    rw [hvalid]
    exact if_neg (Nat.not_lt.mpr hsize)
  refine ⟨_, htree, ?_⟩
  unfold verifyBundle PbocManifest.sha256
  rw [hvalid, hencoded]
  dsimp only [bind, Except.bind]
  rw [hfiles]
  dsimp only
  rw [if_neg (not_not.mpr hobserved), foldlM_verifyArtifact htotal hfound]
  exact ⟨_, rfl⟩

theorem verifyBundle_ok {entries : Entries FileContent} {receipt : BundleVerification}
    (hwell : FileTree.WellFormed entries)
    (h : verifyBundle unicode json sha256 (.directory entries) manifest = .ok receipt)
    : (∀ artifact ∈ manifest.artifacts, artifact.path ≠ pbocFileName
        ∧ ∃ content, lookup entries (split '/' artifact.path) = some (.file content))
      ∧ (json manifest).length ≤ maxManifestBytes := by
  unfold verifyBundle at h
  obtain ⟨_, h⟩ := Except.bind_unit_eq_ok.mp h
  dsimp only at h
  obtain ⟨files, hfiles, h⟩ := Except.bind_eq_ok.mp h
  split at h
  . cases h
  . next hobserved =>
    obtain ⟨total, htotal, h⟩ := Except.bind_eq_ok.mp h
    obtain ⟨digest, hdigest, _⟩ := Except.bind_eq_ok.mp h
    constructor
    . intro artifact hartifact
      have hmem : SortedSet.contains ((SortedSet.ofList files).remove pbocFileName) artifact.path
          = true := by
        rw [not_not.mp hobserved, SortedSet.contains_ofList]
        exact List.mem_map_of_mem hartifact
      rw [SortedSet.contains_remove, SortedSet.contains_ofList, mem_collectFiles hwell hfiles] at hmem
      obtain ⟨⟨path, content, hnode, htext⟩, hname⟩ := hmem
      refine ⟨hname, content, ?_⟩
      have hpath : split '/' artifact.path = path := by
        rw [htext]
        exact split_join (lookup_names hwell hnode) (ne_nil_of_lookup hnode)
      rw [hpath]
      exact hnode
    . unfold PbocManifest.sha256 encodeManifest at hdigest
      obtain ⟨bytes, hbytes, _⟩ := Except.bind_eq_ok.mp hdigest
      obtain ⟨_, hbytes⟩ := Except.bind_unit_eq_ok.mp hbytes
      split at hbytes
      . cases hbytes
      . next hsize => exact Nat.not_lt.mp hsize

theorem placeable_of_realizable (h : Realizable unicode json sha256 manifest)
    : Placeable unicode manifest ∧ (json manifest).length ≤ maxManifestBytes := by
  obtain ⟨entries, htree, receipt, hreceipt⟩ := h
  obtain ⟨hfound, hsize⟩ := verifyBundle_ok htree.wellFormed hreceipt
  -- a node of the declared paths is a node of the tree, and a directory unless it is an artifact
  have hnode : ∀ p, IsNode manifest p → ∃ node, lookup entries p = some node
      ∧ (node.isDirectory = false → ∃ artifact ∈ manifest.artifacts, p = split '/' artifact.path) := by
    rintro p ⟨hp, artifact, hartifact, tail, htail⟩
    obtain ⟨_, content, hlookup⟩ := hfound artifact hartifact
    by_cases hnil : tail = []
    . rw [hnil, List.append_nil] at htail
      exact ⟨_, htail ▸ hlookup, fun _ => ⟨artifact, hartifact, htail⟩⟩
    . rw [← htail] at hlookup
      obtain ⟨sub, hsub⟩ := lookup_of_append hlookup hp hnil
      exact ⟨_, hsub, fun hnot => by cases hnot⟩
  refine ⟨⟨?_, ?_, ?_⟩, hsize⟩
  . rintro a ha b hb ⟨tail, htail⟩
    obtain ⟨_, content, hlookup⟩ := hfound a ha
    obtain ⟨_, content', hlookup'⟩ := hfound b hb
    by_cases hnil : tail = []
    . rw [hnil, List.append_nil] at htail
      exact split_inj htail
    . rw [← htail] at hlookup'
      obtain ⟨sub, hsub⟩ := lookup_of_append hlookup' split_ne_nil hnil
      rw [hlookup] at hsub
      cases hsub
  . intro p q hp hq hkey
    obtain ⟨_, hlookup, _⟩ := hnode p hp
    obtain ⟨_, hlookup', _⟩ := hnode q hq
    exact htree.folded p q (by rw [hlookup]; rfl) (by rw [hlookup']; rfl) hkey
  . intro p hp hkey
    obtain ⟨node, hlookup, hfile⟩ := hnode p hp
    obtain ⟨rfl, hsort⟩ := htree.ownName p node hlookup hkey
    obtain ⟨artifact, hartifact, hpath⟩ := hfile hsort
    apply (hfound artifact hartifact).1
    calc artifact.path = pathText (split '/' artifact.path) := pathText_split.symm
      _ = pathText [pbocFileName] := by rw [hpath]
      _ = pbocFileName := rfl

end Files

theorem bootable_iff (hvalid : validateManifest unicode manifest = .ok ())
    : ((∃ router, PbocRouter.new unicode sha256 manifest = .ok router)
        ∧ (∀ host admission, HostAdmission.new unicode json sha256 manifest host = .ok admission →
          ∀ route ∈ manifest.routes, route.kind = .static →
            ∃ path, route.assetPath = some path ∧ path ∈ artifactPaths manifest.artifacts
              ∧ path ∈ admission.artifactPaths)
        ∧ Realizable unicode json sha256 manifest)
      ↔ Routable unicode manifest ∧ Placeable unicode manifest
        ∧ (json manifest).length ≤ maxManifestBytes := by
  rw [exists_router_iff hvalid]
  constructor
  . rintro ⟨hroutable, _, hrealizable⟩
    exact ⟨hroutable, placeable_of_realizable hrealizable⟩
  . rintro ⟨hroutable, hplace, hsize⟩
    exact ⟨hroutable,
      fun host admission hadmission route hroute hstatic =>
        static_uploaded hvalid hadmission hroute hstatic,
      realizable_of_placeable hvalid hplace hsize⟩

section Samples

def sampleRoute (id : String) : PbocRoute :=
  { id := id
    method := "GET"
    pattern := "/"
    kind := .dynamic
    assetPath := none
    functionId := some "handler"
    renderMode := .complete
    cachePolicyId := none
    requiredFeatures := [] }

def homeManifest : PbocManifest := { sampleManifest with routes := [sampleRoute "home"] }

-- What serde_json writes for it.
def homeText : String :=
  "\x7b\"schema\":\"dev.pliegors.pboc/v1alpha1\",\"framework\":\x7b\"name\":\"pliegors\",\"version\":\"1.0.0\","
    ++ "\"sourceRevision\":\"" ++ sampleRevision ++ "\"\x7d,\"build\":\x7b\"applicationId\":\"app\","
    ++ "\"releaseId\":\"release\",\"routeGraphSha256\":\"" ++ sampleDigest ++ "\",\"runtimeContractSha256\":\""
    ++ sampleDigest ++ "\",\"artifactLedgerSha256\":\"" ++ sampleDigest ++ "\","
    ++ "\"provenance\":\x7b\"sbomPath\":\"server\",\"provenancePath\":\"server\",\"sourceRevision\":\""
    ++ sampleRevision ++ "\"\x7d\x7d,\"compatibility\":\x7b\"epoch\":1,\"sequence\":1,\"stateSchema\":\"state\","
    ++ "\"previousReleaseId\":null,\"rollbackSafe\":true\x7d,\"capabilities\":[],"
    ++ "\"artifacts\":[\x7b\"path\":\"server\",\"bytes\":1,\"sha256\":\"" ++ sampleDigest ++ "\","
    ++ "\"role\":\"native-executable\",\"mediaType\":\"application/octet-stream\"\x7d],"
    ++ "\"targets\":[\x7b\"id\":\"oci\",\"hostKind\":\"native-oci\",\"artifactPaths\":[\"server\"],"
    ++ "\"requiredFeatures\":[],\"optionalFeatures\":[]\x7d],\"assets\":[],\"routes\":[\x7b\"id\":\"home\","
    ++ "\"method\":\"GET\",\"pattern\":\"/\",\"kind\":\"dynamic\",\"assetPath\":null,\"functionId\":\"handler\","
    ++ "\"renderMode\":\"complete\",\"cachePolicyId\":null,\"requiredFeatures\":[]\x7d],"
    ++ "\"functions\":[\x7b\"id\":\"handler\",\"entrypoint\":\"main\",\"renderModes\":[\"complete\"],"
    ++ "\"maxResponseBytes\":1,\"secretReferences\":[],\"permissionIds\":[]\x7d],\"cachePolicies\":[],"
    ++ "\"permissions\":[],\"secretReferences\":[],\"telemetryHooks\":[]\x7d"

theorem bootable_home
    : (∃ router, PbocRouter.new sampleUnicode sha256Digest homeManifest = .ok router)
      ∧ Realizable sampleUnicode (fun _ => utf8 homeText) sha256Digest homeManifest := by
  have hroutable : Routable sampleUnicode homeManifest := by
    refine ⟨by decide, ?_, ?_, ?_, List.pairwise_singleton _ _⟩
    . intro route hroute
      rw [List.mem_singleton.mp hroute]
      decide
    . intro route hroute
      rw [List.mem_singleton.mp hroute]
      have hran : (RoutePattern.parse sampleUnicode "/").toOption.isSome = true := by decide
      obtain ⟨pattern, hpattern⟩ := Option.isSome_iff_exists.mp hran
      exact ⟨pattern, Except.toOption_eq_some.mp hpattern⟩
    . intro route hroute id hid
      rw [List.mem_singleton.mp hroute] at hid
      cases hid
  have hplace : Placeable sampleUnicode homeManifest := by
    have hsplit : split '/' "server" = ["server"] := by decide
    have hnode : ∀ p, IsNode homeManifest p →
        p = ["server"] := by
      rintro p ⟨hp, artifact, hartifact, hfront⟩
      rw [List.mem_singleton.mp hartifact, hsplit] at hfront
      cases p with
      | nil => exact absurd rfl hp
      | cons name rest =>
        obtain ⟨rfl, hrest⟩ := List.cons_prefix_cons.mp hfront
        rw [List.prefix_nil.mp hrest]
    refine ⟨?_, ?_, ?_⟩
    . intro a ha b hb _
      rw [List.mem_singleton.mp ha, List.mem_singleton.mp hb]
    . intro p q hp hq _
      rw [hnode p hp, hnode q hq]
    . intro p hp
      rw [hnode p hp]
      decide +kernel
  exact And.imp_right And.right
    ((bootable_iff (by decide +kernel)).mpr ⟨hroutable, hplace, by decide +kernel⟩)

-- An artifact under the name of the manifest, and a route whose identifier has a dot.
def unbootableManifest : PbocManifest :=
  { sampleManifest with
    artifacts := [⟨pbocFileName, 1, sampleDigest, .configuration, "application/json"⟩,
      ⟨"server", 1, sampleDigest, .nativeExecutable, "application/octet-stream"⟩]
    routes := [sampleRoute "a.b"] }

/--
An accepted manifest without a router, and without a tree that verifies.
-/
theorem unbootable_accepted
    : validateManifest sampleUnicode unbootableManifest = .ok ()
      ∧ (∀ router, PbocRouter.new sampleUnicode sha256Digest unbootableManifest ≠ .ok router)
      ∧ ∀ json, ¬ Realizable sampleUnicode json sha256Digest unbootableManifest := by
  have hvalid : validateManifest sampleUnicode unbootableManifest = .ok () := by decide +kernel
  refine ⟨hvalid, ?_, ?_⟩
  . intro router hrouter
    have hid := ((exists_router_iff hvalid).mp ⟨router, hrouter⟩).ids _ List.mem_cons_self
    exact absurd hid (by decide)
  . intro json hrealizable
    have hown := (placeable_of_realizable hrealizable).1.ownName [pbocFileName]
    apply hown _ rfl
    refine ⟨List.cons_ne_nil _ _, _, List.mem_cons_self, ?_⟩
    have hsplit : split '/' pbocFileName = [pbocFileName] := by decide
    dsimp only
    rw [hsplit]

end Samples

end Pboc

end Pliego
