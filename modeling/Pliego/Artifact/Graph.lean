import Pliego.Artifact.Report

/-!
The causal build graph: sources, the routes that depend on them and the artifacts that the routes emit.
-/

namespace Pliego

open Bytes Text

namespace Artifact

open Router (Unicode)

def buildGraphName : String := "pliego.graph.json"

def buildGraphVersion : String := "1.0.0"

structure GraphSource where
  path : String
  sha256 : String
  deriving DecidableEq, Repr

inductive SourceDependencies where
  | allSources
  | explicit (paths : List String)
  deriving DecidableEq, Repr

structure GraphRoute where
  route : String
  sources : SourceDependencies
  artifacts : List String
  deriving DecidableEq, Repr

structure GraphArtifact where
  path : String
  kind : String
  producer : String
  route : Option String
  sources : SourceDependencies
  sha256 : String
  deriving DecidableEq, Repr

structure BuildGraph where
  graphVersion : String
  projectId : String
  sourceSetSha256 : String
  sources : List GraphSource
  routes : List GraphRoute
  artifacts : List GraphArtifact
  deriving DecidableEq, Repr

def checkPortable (unicode : Unicode) (message : String) (previous : Option String) (path : String)
    : Except ArtifactError (Option String) := do
  let portable ← PortablePath.parse unicode path
  ensure (portable.value = path && !previous.any (fun previous => decide (path ≤ previous))) (.invalidReceipt message)
  .ok (some path)

def validateStrictPortablePaths (unicode : Unicode) (paths : List String) (label : String)
    : Except ArtifactError Unit := do
  let _ ← paths.foldlM (checkPortable unicode
    ("build graph " ++ label ++ " are duplicated, non-canonical, or not strictly ordered")) none
  .ok ()

def validateGraphDependencies (unicode : Unicode) (dependencies : SourceDependencies) (sources : List String)
    : Except ArtifactError Unit :=
  match dependencies with
  | .allSources => .ok ()
  | .explicit paths => do
    ensure (!paths.isEmpty) (.invalidReceipt "explicit build graph dependencies cannot be empty")
    validateStrictPortablePaths unicode paths "source dependencies"
    paths.forM (fun path => ensure (sources.contains path)
      (.invalidReceipt ("build graph dependency " ++ path ++ " is not a captured project source")))

def checkGraphSource (unicode : Unicode) (previous : Option String) (source : GraphSource)
    : Except ArtifactError (Option String) := do
  let next ← checkPortable unicode "build graph sources are duplicated, non-canonical, or not strictly ordered"
    previous source.path
  validateSha256 source.sha256 "build graph source"
  .ok next

def checkGraphRoute (unicode : Unicode) (sources : List String) (previous : Option String) (route : GraphRoute)
    : Except ArtifactError (Option String) := do
  ensure ((utf8 route.route).length ≤ maxPortablePathBytes && startsWith '/' route.route
      && !contains route.route '\\' && !contains route.route '\x00'
      && !previous.any (fun previous => decide (route.route ≤ previous)))
    (.invalidReceipt ("build graph route is invalid, duplicated, or not strictly ordered: " ++ route.route))
  validateGraphDependencies unicode route.sources sources
  validateStrictPortablePaths unicode route.artifacts "route artifacts"
  .ok (some route.route)

def checkArtifactRoute (routes : List String) (artifact : GraphArtifact) : Except ArtifactError Unit :=
  match artifact.route with
  | none => .ok ()
  | some route => ensure (routes.contains route)
      (.invalidReceipt ("build graph artifact " ++ artifact.path ++ " references unknown route " ++ route))

def checkGraphArtifact (unicode : Unicode) (sources routes : List String) (previous : Option String)
    (artifact : GraphArtifact)
    : Except ArtifactError (Option String) := do
  let portable ← PortablePath.parse unicode artifact.path
  ensure (portable.value = artifact.path && !previous.any (fun previous => decide (artifact.path ≤ previous))
      && artifact.kind ≠ "" && (utf8 artifact.kind).length ≤ 64
      && artifact.producer ≠ "" && (utf8 artifact.producer).length ≤ maxPortablePathBytes)
    (.invalidReceipt ("build graph artifact is invalid, duplicated, or not strictly ordered: " ++ artifact.path))
  checkArtifactRoute routes artifact
  validateGraphDependencies unicode artifact.sources sources
  validateSha256 artifact.sha256 "build graph artifact"
  .ok (some artifact.path)

def checkRouteArtifact (artifacts : List GraphArtifact) (route : GraphRoute) (path : String)
    : Except ArtifactError Unit :=
  match artifacts.find? (fun node => node.path = path) with
  | none => .error (.invalidReceipt ("build graph route " ++ route.route ++ " references unknown artifact " ++ path))
  | some node => ensure (node.route = some route.route && node.sources = route.sources)
      (.invalidReceipt ("build graph route " ++ route.route ++ " and artifact " ++ path
        ++ " disagree on their causal edge"))

def validateBuildGraph (unicode : Unicode) (graph : BuildGraph) : Except ArtifactError Unit := do
  ensure (graph.graphVersion = buildGraphVersion)
    (.invalidReceipt ("unsupported build graph version " ++ graph.graphVersion))
  validateProjectId graph.projectId
  validateSha256 graph.sourceSetSha256 "build graph source set"
  ensure (graph.sources.length ≤ maxArtifactFiles && graph.routes.length ≤ maxArtifactFiles
      && graph.artifacts.length ≤ maxArtifactFiles)
    (.invalidReceipt ("build graph exceeds " ++ toString maxArtifactFiles ++ " nodes per kind"))
  let _ ← graph.sources.foldlM (checkGraphSource unicode) none
  let sourcePaths := graph.sources.map GraphSource.path
  let _ ← graph.routes.foldlM (checkGraphRoute unicode sourcePaths) none
  let routeNames := graph.routes.map GraphRoute.route
  let _ ← graph.artifacts.foldlM (checkGraphArtifact unicode sourcePaths routeNames) none
  graph.routes.forM (fun route => route.artifacts.forM (checkRouteArtifact graph.artifacts route))

def expectedArtifacts (files : List OutputFile) : SortedMap String OutputFile :=
  (files.filter (fun file => file.path ≠ buildGraphName)).foldl (fun map file => map.insert file.path file) .empty

def checkGraphOutput (expected : SortedMap String OutputFile) (artifact : GraphArtifact) : Except ArtifactError Unit :=
  match expected.get? artifact.path with
  | none => .error (.invalidReceipt ("build graph contains undeclared artifact " ++ artifact.path))
  | some output =>
    ensure (artifact.kind = output.kind && artifact.producer = output.producer && artifact.sha256 = output.sha256)
      (.invalidReceipt ("build graph metadata does not match artifact " ++ artifact.path))

def validateBuildGraphAgainstReport (unicode : Unicode) (json : Json) (graph : BuildGraph) (report : BuildReport)
    : Except ArtifactError Unit := do
  validateBuildGraph unicode graph
  validateReport unicode json report
  ensure (graph.projectId = report.receipt.context.ownership.projectId
      && graph.sourceSetSha256 = report.receipt.context.sourceSetSha256)
    (.invalidReceipt "build graph identity does not match the artifact receipt")
  ensure (graph.sources = report.receipt.context.sources.map (fun source => ⟨source.path, source.sha256⟩))
    (.invalidReceipt "build graph sources do not match the artifact receipt")
  let expected := expectedArtifacts report.receipt.outputs.files
  ensure (graph.artifacts.length = expected.len)
    (.invalidReceipt "build graph does not cover the exact payload artifact set")
  graph.artifacts.forM (checkGraphOutput expected)

-- Whether a change of these sources is a change of the dependencies.
def dependenciesTouch (dependencies : SourceDependencies) (changed : List String) : Bool :=
  match dependencies with
  | .allSources => !changed.isEmpty
  | .explicit paths => paths.any changed.contains

-- The artifacts that depend on the changed sources by themselves.
def affectedDirectly (graph : BuildGraph) (changed : List String) : List String :=
  (graph.artifacts.filter (fun artifact => dependenciesTouch artifact.sources changed)).map GraphArtifact.path

-- The artifacts of the routes that depend on the changed sources, and the standalone ones, which no route emits.
def affectedThroughRoutes (graph : BuildGraph) (changed : List String) : List String :=
  (graph.routes.filter (fun route => dependenciesTouch route.sources changed)).flatMap GraphRoute.artifacts
    ++ (graph.artifacts.filter (fun artifact => artifact.route = none && dependenciesTouch artifact.sources changed)).map
      GraphArtifact.path

def namedArtifacts (graph : BuildGraph) : List String :=
  (graph.artifacts.filter (fun artifact => artifact.route ≠ none)).map GraphArtifact.path

def listedArtifacts (graph : BuildGraph) : List String := graph.routes.flatMap GraphRoute.artifacts

structure InverseEdges (graph : BuildGraph) : Prop where
  edges : ∀ artifact ∈ graph.artifacts, ∀ route ∈ graph.routes,
    artifact.route = some route.route ↔ artifact.path ∈ route.artifacts
  nodes : ∀ path ∈ listedArtifacts graph, ∃ artifact ∈ graph.artifacts, artifact.path = path
  once : ∀ route ∈ graph.routes, ∀ other ∈ graph.routes, ∀ path, path ∈ route.artifacts → path ∈ other.artifacts →
    route = other
  sources : ∀ artifact ∈ graph.artifacts, ∀ route ∈ graph.routes, artifact.path ∈ route.artifacts →
    artifact.sources = route.sources
  affected : ∀ changed path, path ∈ affectedThroughRoutes graph changed ↔ path ∈ affectedDirectly graph changed

-- The graph's sources and artifacts are those of the receipt, without the graph itself.
def MatchesReceipt (graph : BuildGraph) (report : BuildReport) : Prop :=
  graph.sources = report.receipt.context.sources.map (fun source => ⟨source.path, source.sha256⟩)
    ∧ graph.artifacts.map (fun artifact => (artifact.path, artifact.kind, artifact.producer, artifact.sha256))
      = (report.receipt.outputs.files.filter (fun file => file.path ≠ buildGraphName)).map
        (fun file => (file.path, file.kind, file.producer, file.sha256))

section Ordered

variable {ε α β κ : Type} [LinearOrder κ] {f : β → α → Except ε β} {last : β → Option κ} {key : α → κ} {values : List α}
  {start stop : β}

theorem foldlM_ordered (hstep : ∀ state value next, f state value = .ok next →
      last next = some (key value) ∧ ∀ previous, last state = some previous → previous < key value)
    (h : values.foldlM f start = .ok stop)
    : (values.map key).Pairwise (· < ·)
      ∧ ∀ previous, last start = some previous → ∀ value ∈ values, previous < key value := by
  induction values generalizing start with
  | nil => exact ⟨List.Pairwise.nil, fun _ _ _ hvalue => absurd hvalue List.not_mem_nil⟩
  | cons value values ih =>
    rw [List.foldlM_cons, Except.bind_eq_ok] at h
    obtain ⟨next, hnext, h⟩ := h
    obtain ⟨hlast, habove⟩ := hstep start value next hnext
    obtain ⟨hsorted, hrest⟩ := ih h
    rw [List.map_cons, List.pairwise_cons, List.forall_mem_map]
    refine ⟨⟨hrest (key value) hlast, hsorted⟩, ?_⟩
    intro previous hprevious
    rw [List.forall_mem_cons]
    refine ⟨habove previous hprevious, ?_⟩
    intro later hlater
    exact (habove previous hprevious).trans (hrest (key value) hlast later hlater)

theorem foldlM_each (h : values.foldlM f start = .ok stop) {value : α} (hvalue : value ∈ values)
    : ∃ state next, f state value = .ok next := by
  induction values generalizing start with
  | nil => exact absurd hvalue List.not_mem_nil
  | cons first values ih =>
    rw [List.foldlM_cons, Except.bind_eq_ok] at h
    obtain ⟨next, hnext, h⟩ := h
    cases List.mem_cons.mp hvalue with
    | inl hfirst => exact ⟨start, next, hfirst ▸ hnext⟩
    | inr hrest => exact ih h hrest

theorem not_any_le {previous : Option κ} {k : κ} (h : (!previous.any (fun previous => decide (k ≤ previous))) = true)
    : ∀ p, previous = some p → p < k := by
  rintro p rfl
  rw [Option.any_some, Bool.not_eq_true', decide_eq_false_iff_not, not_le] at h
  exact h

end Ordered

section Validated

variable {unicode : Unicode} {json : Json} {graph : BuildGraph} {report : BuildReport} {sources routes : List String}
  {previous next : Option String} {path : String} {route other : GraphRoute} {artifact node : GraphArtifact}

theorem checkPortable_ok {message : String} (h : checkPortable unicode message previous path = .ok next)
    : next = some path ∧ ∀ p, previous = some p → p < path := by
  unfold checkPortable at h
  rw [Except.bind_eq_ok] at h
  obtain ⟨portable, -, h⟩ := h
  rw [Except.bind_unit_eq_ok, ensure_ok, Bool.and_eq_true] at h
  obtain ⟨⟨-, horder⟩, h⟩ := h
  cases h
  exact ⟨rfl, not_any_le horder⟩

theorem validateStrictPortablePaths_ok {paths : List String} {label : String}
    (h : validateStrictPortablePaths unicode paths label = .ok ())
    : paths.Pairwise (· < ·) := by
  unfold validateStrictPortablePaths at h
  rw [Except.bind_eq_ok] at h
  obtain ⟨last, hlast, -⟩ := h
  have hsorted := (@foldlM_ordered _ _ _ _ _ _ id id _ _ _ (fun _ _ _ hstep => checkPortable_ok hstep) hlast).1
  rw [List.map_id] at hsorted
  exact hsorted

theorem checkGraphRoute_ok (h : checkGraphRoute unicode sources previous route = .ok next)
    : (next = some route.route ∧ ∀ p, previous = some p → p < route.route) ∧ route.artifacts.Pairwise (· < ·) := by
  unfold checkGraphRoute at h
  rw [Except.bind_unit_eq_ok, ensure_ok, Bool.and_eq_true, Except.bind_unit_eq_ok, Except.bind_unit_eq_ok] at h
  obtain ⟨⟨-, horder⟩, -, hartifacts, h⟩ := h
  cases h
  exact ⟨⟨rfl, not_any_le horder⟩, validateStrictPortablePaths_ok hartifacts⟩

theorem checkGraphArtifact_ok (h : checkGraphArtifact unicode sources routes previous artifact = .ok next)
    : (next = some artifact.path ∧ ∀ p, previous = some p → p < artifact.path)
      ∧ ∀ name, artifact.route = some name → name ∈ routes := by
  unfold checkGraphArtifact at h
  rw [Except.bind_eq_ok] at h
  obtain ⟨portable, -, h⟩ := h
  rw [Except.bind_unit_eq_ok, ensure_ok] at h
  simp only [Bool.and_eq_true] at h
  obtain ⟨⟨⟨⟨⟨⟨-, horder⟩, -⟩, -⟩, -⟩, -⟩, h⟩ := h
  rw [Except.bind_unit_eq_ok, Except.bind_unit_eq_ok, Except.bind_unit_eq_ok] at h
  obtain ⟨hroute, -, -, h⟩ := h
  cases h
  refine ⟨⟨rfl, not_any_le horder⟩, ?_⟩
  intro name hname
  unfold checkArtifactRoute at hroute
  rw [hname] at hroute
  exact List.contains_iff_mem.mp (ensure_ok.mp hroute)

theorem checkRouteArtifact_ok {artifacts : List GraphArtifact} (h : checkRouteArtifact artifacts route path = .ok ())
    : ∃ node ∈ artifacts, node.path = path ∧ node.route = some route.route ∧ node.sources = route.sources := by
  unfold checkRouteArtifact at h
  cases hfind : artifacts.find? (fun node => decide (node.path = path)) with
  | none =>
    rw [hfind] at h
    cases h
  | some node =>
    rw [hfind] at h
    dsimp only at h
    rw [ensure_ok, Bool.and_eq_true, decide_eq_true_eq, decide_eq_true_eq] at h
    have hpath := List.find?_some hfind
    rw [decide_eq_true_eq] at hpath
    exact ⟨node, List.mem_of_find?_eq_some hfind, hpath, h⟩

structure Validated (graph : BuildGraph) : Prop where
  routes : (graph.routes.map GraphRoute.route).Pairwise (· < ·)
  artifacts : (graph.artifacts.map GraphArtifact.path).Pairwise (· < ·)
  listed : ∀ route ∈ graph.routes, route.artifacts.Pairwise (· < ·)
  named : ∀ artifact ∈ graph.artifacts, ∀ name, artifact.route = some name → ∃ route ∈ graph.routes, route.route = name
  agreed : ∀ route ∈ graph.routes, ∀ path ∈ route.artifacts,
    ∃ node ∈ graph.artifacts, node.path = path ∧ node.route = some route.route ∧ node.sources = route.sources

theorem validateBuildGraph_ok (h : validateBuildGraph unicode graph = .ok ()) : Validated graph := by
  unfold validateBuildGraph at h
  rw [Except.bind_unit_eq_ok, Except.bind_unit_eq_ok, Except.bind_unit_eq_ok, Except.bind_unit_eq_ok,
    Except.bind_eq_ok] at h
  obtain ⟨-, -, -, -, lastSource, -, h⟩ := h
  dsimp only at h
  rw [Except.bind_eq_ok] at h
  obtain ⟨lastRoute, hroutes, h⟩ := h
  rw [Except.bind_eq_ok] at h
  obtain ⟨lastArtifact, hartifacts, h⟩ := h
  rw [Except.forM_eq_ok] at h
  constructor
  . exact (@foldlM_ordered _ _ _ _ _ _ id GraphRoute.route _ _ _ (fun _ _ _ hstep => (checkGraphRoute_ok hstep).1)
      hroutes).1
  . exact (@foldlM_ordered _ _ _ _ _ _ id GraphArtifact.path _ _ _ (fun _ _ _ hstep => (checkGraphArtifact_ok hstep).1)
      hartifacts).1
  . intro route hroute
    obtain ⟨state, next, hstep⟩ := foldlM_each hroutes hroute
    exact (checkGraphRoute_ok hstep).2
  . intro artifact hartifact name hname
    obtain ⟨state, next, hstep⟩ := foldlM_each hartifacts hartifact
    exact List.mem_map.mp ((checkGraphArtifact_ok hstep).2 name hname)
  . intro route hroute path hpath
    exact checkRouteArtifact_ok (Except.forM_eq_ok.mp (h route hroute) path hpath)

theorem eq_of_key {α κ : Type} [Preorder κ] {key : α → κ} {values : List α} (h : (values.map key).Pairwise (· < ·))
    {a b : α} (ha : a ∈ values) (hb : b ∈ values) (hkey : key a = key b)
    : a = b :=
  List.inj_on_of_nodup_map (h.imp (fun hlt => ne_of_lt hlt)) ha hb hkey

theorem Validated.route_eq (h : Validated graph) (hroute : route ∈ graph.routes) (hother : other ∈ graph.routes)
    (hname : route.route = other.route)
    : route = other :=
  eq_of_key h.routes hroute hother hname

theorem Validated.agrees (h : Validated graph) (hroute : route ∈ graph.routes) (hartifact : artifact ∈ graph.artifacts)
    (hlisted : artifact.path ∈ route.artifacts)
    : artifact.route = some route.route ∧ artifact.sources = route.sources := by
  obtain ⟨node, hnode, hpath, hagreed⟩ := h.agreed route hroute artifact.path hlisted
  rw [eq_of_key h.artifacts hnode hartifact hpath] at hagreed
  exact hagreed

theorem Validated.once (h : Validated graph) (hroute : route ∈ graph.routes) (hother : other ∈ graph.routes)
    (hpath : path ∈ route.artifacts) (hpath' : path ∈ other.artifacts)
    : route = other := by
  obtain ⟨node, hnode, rfl, hname, -⟩ := h.agreed route hroute path hpath
  have hname' := (h.agrees hother hnode hpath').1
  rw [hname, Option.some.injEq] at hname'
  exact h.route_eq hroute hother hname'

theorem mem_listedArtifacts : path ∈ listedArtifacts graph ↔ ∃ route ∈ graph.routes, path ∈ route.artifacts := by
  unfold listedArtifacts
  rw [List.mem_flatMap]

theorem mem_namedArtifacts
    : path ∈ namedArtifacts graph ↔ ∃ artifact ∈ graph.artifacts, artifact.path = path ∧ artifact.route ≠ none := by
  unfold namedArtifacts
  rw [List.mem_map]
  constructor
  . rintro ⟨artifact, hartifact, rfl⟩
    rw [List.mem_filter, decide_eq_true_eq] at hartifact
    exact ⟨artifact, hartifact.1, rfl, hartifact.2⟩
  . rintro ⟨artifact, hartifact, rfl, hnamed⟩
    exact ⟨artifact, List.mem_filter.mpr ⟨hartifact, decide_eq_true hnamed⟩, rfl⟩

section

variable (h : Validated graph)

include h

theorem Validated.nodup_listed : (listedArtifacts graph).Nodup := by
  unfold listedArtifacts
  rw [List.nodup_flatMap]
  constructor
  . exact fun route hroute => (h.listed route hroute).imp (fun hlt => ne_of_lt hlt)
  . have hroutes : graph.routes.Pairwise (fun route other => route.route < other.route) :=
      List.pairwise_map.mp h.routes
    apply hroutes.imp_of_mem
    intro route other hroute hother hlt path hpath hpath'
    rw [h.once hroute hother hpath hpath'] at hlt
    exact lt_irrefl _ hlt

theorem Validated.nodup_named : (namedArtifacts graph).Nodup := by
  have hpaths : (graph.artifacts.map GraphArtifact.path).Nodup := h.artifacts.imp (fun hlt => ne_of_lt hlt)
  exact hpaths.sublist (List.filter_sublist.map _)

theorem Validated.listed_named : listedArtifacts graph ⊆ namedArtifacts graph := by
  intro path hpath
  obtain ⟨route, hroute, hpath⟩ := mem_listedArtifacts.mp hpath
  obtain ⟨node, hnode, hsame, hname, -⟩ := h.agreed route hroute path hpath
  exact mem_namedArtifacts.mpr ⟨node, hnode, hsame, by rw [hname]; exact Option.some_ne_none _⟩

theorem Validated.length_eq_iff
    : (listedArtifacts graph).length = (namedArtifacts graph).length ↔ namedArtifacts graph ⊆ listedArtifacts graph := by
  have hsubperm := h.nodup_listed.subperm h.listed_named
  constructor
  . intro hlength path hpath
    exact (hsubperm.perm_of_length_le hlength.ge).mem_iff.mpr hpath
  . intro hsub
    exact le_antisymm hsubperm.length_le (h.nodup_named.subperm hsub).length_le

theorem Validated.affected (hnamed : namedArtifacts graph ⊆ listedArtifacts graph) {changed : List String}
    : path ∈ affectedThroughRoutes graph changed ↔ path ∈ affectedDirectly graph changed := by
  unfold affectedThroughRoutes affectedDirectly
  rw [List.mem_append, List.mem_flatMap, List.mem_map, List.mem_map]
  constructor
  . rintro (⟨route, hroute, hpath⟩ | ⟨artifact, hartifact, rfl⟩)
    . rw [List.mem_filter] at hroute
      obtain ⟨node, hnode, rfl, -, hsources⟩ := h.agreed route hroute.1 path hpath
      rw [← hsources] at hroute
      exact ⟨node, List.mem_filter.mpr ⟨hnode, hroute.2⟩, rfl⟩
    . rw [List.mem_filter, Bool.and_eq_true] at hartifact
      exact ⟨artifact, List.mem_filter.mpr ⟨hartifact.1, hartifact.2.2⟩, rfl⟩
  . rintro ⟨artifact, hartifact, rfl⟩
    rw [List.mem_filter] at hartifact
    cases hroute : artifact.route with
    | none =>
      refine .inr ⟨artifact, List.mem_filter.mpr ⟨hartifact.1, ?_⟩, rfl⟩
      rw [hroute, hartifact.2]
      rfl
    | some name =>
      have hlisted := hnamed (mem_namedArtifacts.mpr ⟨artifact, hartifact.1, rfl, by rw [hroute]; exact Option.some_ne_none _⟩)
      obtain ⟨route, hmem, hpath⟩ := mem_listedArtifacts.mp hlisted
      refine .inl ⟨route, List.mem_filter.mpr ⟨hmem, ?_⟩, hpath⟩
      rw [← (h.agrees hmem hartifact.1 hpath).2]
      exact hartifact.2

theorem Validated.inverseEdges_iff
    : InverseEdges graph ↔ (listedArtifacts graph).length = (namedArtifacts graph).length := by
  rw [h.length_eq_iff]
  constructor
  . intro hinverse path hpath
    obtain ⟨artifact, hartifact, rfl, hroute⟩ := mem_namedArtifacts.mp hpath
    obtain ⟨name, hname⟩ := Option.ne_none_iff_exists'.mp hroute
    obtain ⟨route, hmem, rfl⟩ := h.named artifact hartifact name hname
    exact mem_listedArtifacts.mpr ⟨route, hmem, (hinverse.edges artifact hartifact route hmem).mp hname⟩
  . intro hnamed
    constructor
    . intro artifact hartifact route hroute
      constructor
      . intro hname
        have hlisted := hnamed (mem_namedArtifacts.mpr ⟨artifact, hartifact, rfl, by rw [hname]; exact Option.some_ne_none _⟩)
        obtain ⟨other, hother, hpath⟩ := mem_listedArtifacts.mp hlisted
        have hname' := (h.agrees hother hartifact hpath).1
        rw [hname, Option.some.injEq] at hname'
        rw [h.route_eq hroute hother hname']
        exact hpath
      . exact fun hpath => (h.agrees hroute hartifact hpath).1
    . intro path hpath
      obtain ⟨route, hroute, hpath⟩ := mem_listedArtifacts.mp hpath
      obtain ⟨artifact, hartifact, hsame, -⟩ := h.agreed route hroute path hpath
      exact ⟨artifact, hartifact, hsame⟩
    . exact fun route hroute other hother path => h.once hroute hother
    . exact fun artifact hartifact route hroute hpath => (h.agrees hroute hartifact hpath).2
    . exact fun changed path => h.affected hnamed

end

end Validated

section Receipt

variable {unicode : Unicode} {json : Json} {graph : BuildGraph} {report : BuildReport} {files : List OutputFile}

theorem checkOutput_ordered {check next : OutputCheck} {file : OutputFile} (h : checkOutput unicode check file = .ok next)
    : next.paths.previous = some file.path ∧ ∀ p, check.paths.previous = some p → p < file.path := by
  unfold checkOutput PathCheck.step at h
  rw [Except.bind_eq_ok] at h
  obtain ⟨paths, hpaths, h⟩ := h
  rw [Except.bind_unit_eq_ok, ensure_ok, Except.bind_eq_ok] at hpaths
  obtain ⟨horder, ⟨portable, space⟩, -, hpaths⟩ := hpaths
  rw [Except.bind_unit_eq_ok] at hpaths
  obtain ⟨-, hpaths⟩ := hpaths
  cases hpaths
  rw [Except.bind_unit_eq_ok, Except.bind_unit_eq_ok, Except.bind_unit_eq_ok, Except.bind_unit_eq_ok] at h
  obtain ⟨-, -, -, -, h⟩ := h
  cases h
  exact ⟨rfl, not_any_le horder⟩

theorem validateOutputs_ordered (h : validateOutputs unicode files = .ok ())
    : (files.map OutputFile.path).Pairwise (· < ·) := by
  unfold validateOutputs at h
  rw [Except.bind_unit_eq_ok, Except.bind_eq_ok] at h
  obtain ⟨-, ⟨portable, space⟩, -, h⟩ := h
  rw [Except.bind_eq_ok] at h
  obtain ⟨last, hlast, -⟩ := h
  exact (@foldlM_ordered _ _ _ _ _ _ (fun check => check.paths.previous) OutputFile.path _ _ _
    (fun _ _ _ hstep => checkOutput_ordered hstep) hlast).1

theorem validateReport_ordered (h : validateReport unicode json report = .ok ())
    : (report.receipt.outputs.files.map OutputFile.path).Pairwise (· < ·) := by
  unfold validateReport at h
  rw [Except.bind_unit_eq_ok, Except.bind_unit_eq_ok, Except.bind_eq_ok] at h
  obtain ⟨-, -, context, -, h⟩ := h
  rw [Except.bind_unit_eq_ok] at h
  obtain ⟨-, h⟩ := h
  dsimp only at h
  rw [Except.bind_unit_eq_ok] at h
  exact validateOutputs_ordered h.1

theorem foldl_insert_get? {map : SortedMap String OutputFile} {path : String} {file : OutputFile}
    (hsorted : (files.map OutputFile.path).Nodup) (hfresh : ∀ file ∈ files, map.get? file.path = none)
    : (files.foldl (fun map file => map.insert file.path file) map).get? path = some file
      ↔ map.get? path = some file ∨ (file ∈ files ∧ file.path = path) := by
  induction files generalizing map with
  | nil => simp
  | cons first files ih =>
    rw [List.map_cons, List.nodup_cons] at hsorted
    obtain ⟨hfirst, hfiles⟩ := List.forall_mem_cons.mp hfresh
    rw [List.foldl_cons, ih hsorted.2, SortedMap.get?_insert]
    . split
      . next hsame =>
        rw [hsame, hfirst, List.mem_cons, Option.some.injEq]
        constructor
        . rintro (rfl | hrest)
          . exact .inr ⟨.inl rfl, rfl⟩
          . exact .inr ⟨.inr hrest.1, hrest.2⟩
        . rintro (hnone | ⟨rfl | hmem, hpath⟩)
          . cases hnone
          . exact .inl rfl
          . exact .inr ⟨hmem, hpath⟩
      . next hother =>
        rw [List.mem_cons]
        constructor
        . rintro (hget | ⟨hmem, hpath⟩)
          . exact .inl hget
          . exact .inr ⟨.inr hmem, hpath⟩
        . rintro (hget | ⟨rfl | hmem, hpath⟩)
          . exact .inl hget
          . exact absurd hpath.symm hother
          . exact .inr ⟨hmem, hpath⟩
    . intro file hfile
      rw [SortedMap.get?_insert, if_neg, hfiles file hfile]
      intro hsame
      exact hsorted.1 (hsame ▸ List.mem_map_of_mem hfile)

section

variable (h : (files.map OutputFile.path).Pairwise (· < ·))

include h

theorem filter_ordered
    : ((files.filter (fun file => file.path ≠ buildGraphName)).map OutputFile.path).Pairwise (· < ·) :=
  h.sublist (List.filter_sublist.map _)

theorem expectedArtifacts_get? {path : String} {file : OutputFile}
    : (expectedArtifacts files).get? path = some file
      ↔ file ∈ files.filter (fun file => file.path ≠ buildGraphName) ∧ file.path = path := by
  unfold expectedArtifacts
  rw [foldl_insert_get? ((filter_ordered h).imp (fun hlt => ne_of_lt hlt)) (fun _ _ => rfl), SortedMap.get?_empty]
  exact ⟨fun hget => hget.resolve_left (by rintro ⟨⟩), .inr⟩

theorem expectedArtifacts_len
    : (expectedArtifacts files).len = (files.filter (fun file => file.path ≠ buildGraphName)).length := by
  have hkeys : (expectedArtifacts files).keys.Perm
      ((files.filter (fun file => file.path ≠ buildGraphName)).map OutputFile.path) := by
    apply (List.perm_ext_iff_of_nodup ((SortedMap.keys_sorted _).imp (fun hlt => ne_of_lt hlt))
      ((filter_ordered h).imp (fun hlt => ne_of_lt hlt))).mpr
    intro path
    rw [SortedMap.mem_keys, List.mem_map, Option.isSome_iff_exists]
    constructor
    . rintro ⟨file, hfile⟩
      exact ⟨file, (expectedArtifacts_get? h).mp hfile⟩
    . rintro ⟨file, hfile⟩
      exact ⟨file, (expectedArtifacts_get? h).mpr hfile⟩
  have hlength := hkeys.length_eq
  unfold SortedMap.keys at hlength
  rw [List.length_map, List.length_map] at hlength
  exact hlength

end

theorem checkGraphOutput_ok {expected : SortedMap String OutputFile} {artifact : GraphArtifact}
    (h : checkGraphOutput expected artifact = .ok ())
    : ∃ output, expected.get? artifact.path = some output ∧ artifact.kind = output.kind
        ∧ artifact.producer = output.producer ∧ artifact.sha256 = output.sha256 := by
  unfold checkGraphOutput at h
  cases hget : expected.get? artifact.path with
  | none =>
    rw [hget] at h
    cases h
  | some output =>
    rw [hget] at h
    dsimp only at h
    simp only [ensure_ok, Bool.and_eq_true, decide_eq_true_eq] at h
    exact ⟨output, rfl, h.1.1, h.1.2, h.2⟩

theorem eq_of_ordered_subset {α κ : Type} [LinearOrder κ] {key : α → κ} {as bs : List α}
    (has : (as.map key).Pairwise (· < ·)) (hbs : (bs.map key).Pairwise (· < ·)) (hsub : as ⊆ bs)
    (hlength : bs.length ≤ as.length)
    : as = bs := by
  have hnodup : as.Nodup := (List.pairwise_map.mp has).imp (fun hlt hsame => by
    rw [hsame] at hlt
    exact lt_irrefl _ hlt)
  have hperm := (hnodup.subperm hsub).perm_of_length_le hlength
  exact hperm.eq_of_pairwise (fun _ _ _ _ hab hba => absurd hba (lt_asymm hab)) (List.pairwise_map.mp has)
    (List.pairwise_map.mp hbs)

theorem matchesReceipt (h : validateBuildGraphAgainstReport unicode json graph report = .ok ())
    : MatchesReceipt graph report := by
  unfold validateBuildGraphAgainstReport at h
  rw [Except.bind_unit_eq_ok, Except.bind_unit_eq_ok, Except.bind_unit_eq_ok, Except.bind_unit_eq_ok] at h
  obtain ⟨hgraph, hreport, -, hsources, h⟩ := h
  dsimp only at h
  rw [Except.bind_unit_eq_ok, ensure_ok, decide_eq_true_eq, Except.forM_eq_ok] at h
  obtain ⟨hlength, h⟩ := h
  rw [ensure_ok, decide_eq_true_eq] at hsources
  refine ⟨hsources, ?_⟩
  have hfiles := validateReport_ordered hreport
  rw [expectedArtifacts_len hfiles] at hlength
  have hartifacts := (validateBuildGraph_ok hgraph).artifacts
  apply @eq_of_ordered_subset (String × String × String × String) String _ Prod.fst
  . rw [List.map_map]
    exact hartifacts
  . rw [List.map_map]
    exact filter_ordered hfiles
  . intro entry hentry
    obtain ⟨artifact, hartifact, rfl⟩ := List.mem_map.mp hentry
    obtain ⟨output, hget, hkind, hproducer, hdigest⟩ := checkGraphOutput_ok (h artifact hartifact)
    obtain ⟨hmem, hpath⟩ := (expectedArtifacts_get? hfiles).mp hget
    rw [hkind, hproducer, hdigest, ← hpath]
    exact List.mem_map_of_mem hmem
  . rw [List.length_map, List.length_map, hlength]

/--
The edges of an accepted graph are inverse to each other just when the routes list as many artifacts as there are
artifacts that name a route. Its sources and artifacts are those of the receipt it is validated against.
-/
theorem graph_inverse_iff (h : validateBuildGraph unicode graph = .ok ())
    : (InverseEdges graph
        ∧ ∀ json report, validateBuildGraphAgainstReport unicode json graph report = .ok () → MatchesReceipt graph report)
      ↔ (listedArtifacts graph).length = (namedArtifacts graph).length := by
  rw [← (validateBuildGraph_ok h).inverseEdges_iff]
  exact ⟨And.left, fun hinverse => ⟨hinverse, fun _ _ => matchesReceipt⟩⟩

def homeGraph (artifacts : List String) : BuildGraph where
  graphVersion := buildGraphVersion
  projectId := "atlas"
  sourceSetSha256 := String.ofList (List.replicate 64 'a')
  sources := [⟨"src/main.rs", String.ofList (List.replicate 64 'b')⟩]
  routes := [⟨"/", .explicit ["src/main.rs"], artifacts⟩]
  artifacts := [⟨"index.html", "route", "/", some "/", .explicit ["src/main.rs"],
    String.ofList (List.replicate 64 'c')⟩]

theorem graph_inverse_iff_home
    : InverseEdges (homeGraph ["index.html"])
      ∧ ∀ json report,
        validateBuildGraphAgainstReport ⟨id, id, id⟩ json (homeGraph ["index.html"]) report = .ok () →
          MatchesReceipt (homeGraph ["index.html"]) report :=
  (@graph_inverse_iff ⟨id, id, id⟩ (homeGraph ["index.html"]) (by decide)).mpr rfl

-- The artifact names a route that does not list it, and a change of the route's source does not reach it there.
theorem unlisted_artifact_accepted
    : validateBuildGraph ⟨id, id, id⟩ (homeGraph []) = .ok ()
      ∧ affectedDirectly (homeGraph []) ["src/main.rs"] = ["index.html"]
      ∧ affectedThroughRoutes (homeGraph []) ["src/main.rs"] = []
      ∧ ¬ InverseEdges (homeGraph []) := by
  refine ⟨by decide, by decide, by decide, ?_⟩
  intro hinverse
  have hedge := (hinverse.edges _ List.mem_cons_self _ List.mem_cons_self).mp rfl
  exact absurd hedge List.not_mem_nil

end Receipt

end Artifact

end Pliego
