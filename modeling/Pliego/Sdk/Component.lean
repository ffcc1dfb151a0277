import Pliego.Sdk.Manifest

/-!
Inspection of a component binary in `pliego-sdk`: the walk over the parser's payloads, and the
binary format it rests on. The parser and the validator come from an external crate and are
parameters; `Wasm.Correct` is what their documentation promises.
-/

namespace Pliego

open Bytes Text

namespace Sdk

structure ComponentImport where
  name : String
  -- whether the imported item is a type definition
  isType : Bool
  deriving DecidableEq, Repr

structure ComponentExport where
  name : String
  isType : Bool
  deriving DecidableEq, Repr

inductive Payload where
  | moduleSection
  | componentSection
  | finish
  | componentImportSection (imports : List (Except String ComponentImport))
  | componentExportSection (exports : List (Except String ComponentExport))
  | other

structure Wasm where
  validateAll : List UInt8 → Except String Unit
  parseAll : List UInt8 → List (Except String Payload)

structure ComponentInspection where
  imports : List String
  exports : List String
  requiredCapabilities : List Capability
  deriving DecidableEq, Repr

namespace ComponentInspection

def requireDeclared (manifest : ExtensionManifest) (capabilities : List Capability)
    : Except ComponentError Unit :=
  capabilities.forM (fun capability =>
    ensure (manifest.capabilities.contains capability)
      (.text ("component import requires undeclared capability `" ++ capability.asStr ++ "`")))

def verifyManifest (inspection : ComponentInspection) (manifest : ExtensionManifest)
    : Except ComponentError Unit := do
  ensure (inspection.imports = manifest.imports)
    (.importsMismatch inspection.imports manifest.imports)
  ensure (inspection.exports = manifest.exports)
    (.exportsMismatch inspection.exports manifest.exports)
  requireDeclared manifest inspection.requiredCapabilities

end ComponentInspection

def startsWithText (first value : String) : Bool :=
  first.toList.isPrefixOf value.toList

def classifyImport (name : String) (capabilities : SortedSet Capability)
    : Except ComponentError (SortedSet Capability) :=
  let package := (split '@' name).headD name
  if startsWithText "wasi:filesystem/" package then
    .ok (capabilities.extend [.filesystemRead, .filesystemWrite])
  else if startsWithText "wasi:sockets/" package then
    .ok (capabilities.extend [.network])
  else if startsWithText "wasi:cli/environment" package then
    .ok (capabilities.extend [.environment])
  else if startsWithText "wasi:clocks/" package then
    .ok (capabilities.extend [.clock])
  else if startsWithText "wasi:random/" package then
    .ok (capabilities.extend [.random])
  else if startsWithText "wasi:http/" package then
    .ok (capabilities.extend [.http])
  else if startsWithText "pliego:effects/broker" package then
    .ok (capabilities.extend [.effectBroker])
  else if startsWithText "wasi:io/" package || startsWithText "pliego:diagnostics/sink" package then
    .ok capabilities
  else
    .error (.text ("component import `" ++ name ++ "` has no preview capability classification"))

structure Walk where
  imports : SortedSet String
  exports : SortedSet String
  capabilities : SortedSet Capability
  depth : Nat

namespace Walk

def start : Walk := ⟨.empty, .empty, .empty, 0⟩

def visitImport (walk : Walk) (item : Except String ComponentImport)
    : Except ComponentError Walk :=
  match item with
  | .error error => .error (.text ("invalid component import: " ++ error))
  | .ok found =>
    if found.isType then
      .ok walk
    else do
      let capabilities ← classifyImport found.name walk.capabilities
      .ok { walk with imports := walk.imports.extend [found.name], capabilities }

def visitExport (walk : Walk) (item : Except String ComponentExport)
    : Except ComponentError Walk :=
  match item with
  | .error error => .error (.text ("invalid component export: " ++ error))
  | .ok found =>
    if found.isType then
      .ok walk
    else
      .ok { walk with exports := walk.exports.extend [found.name] }

def enter (walk : Walk) : Except ComponentError Walk :=
  if walk.depth + 1 < 2 ^ 32 then
    .ok { walk with depth := walk.depth + 1 }
  else
    .error (.text "component nesting depth overflowed")

def visit (walk : Walk) (item : Except String Payload) : Except ComponentError Walk :=
  match item with
  | .error error => .error (.text ("cannot inspect WebAssembly component: " ++ error))
  | .ok .moduleSection => walk.enter
  | .ok .componentSection => walk.enter
  | .ok .finish =>
    if walk.depth > 0 then .ok { walk with depth := walk.depth - 1 } else .ok walk
  | .ok (.componentImportSection imports) =>
    if walk.depth > 0 then .ok walk else imports.foldlM visitImport walk
  | .ok (.componentExportSection exports) =>
    if walk.depth > 0 then .ok walk else exports.foldlM visitExport walk
  | .ok .other => .ok walk

end Walk

def maxInspectionBytes : Nat := 128 * 1024 * 1024

def inspectComponent (wasm : Wasm) (bytes : List UInt8)
    : Except ComponentError ComponentInspection := do
  ensure (bytes.length ≤ maxInspectionBytes)
    (.text "component exceeds the 128 MiB inspection ceiling")
  (wasm.validateAll bytes).mapError (fun error => .text ("invalid WebAssembly component: " ++ error))
  let walk ← (wasm.parseAll bytes).foldlM Walk.visit Walk.start
  .ok ⟨walk.imports.keys, walk.exports.keys, walk.capabilities.keys⟩

-- A binary as the component model has it. A core module's own sections are never component
-- sections, so its payloads are counted only.
inductive Item where
  | imports (names : List ComponentImport)
  | exports (names : List ComponentExport)
  | module (sections : Nat)
  | component (items : List Item)
  | other

mutual

def Item.payloads (item : Item) : List Payload :=
  match item with
  | .imports names => [.componentImportSection (names.map .ok)]
  | .exports names => [.componentExportSection (names.map .ok)]
  | .module sections => .moduleSection :: List.replicate sections .other ++ [.finish]
  | .component items => .componentSection :: .other :: payloadsOf items ++ [.finish]
  | .other => [.other]

def payloadsOf (items : List Item) : List Payload :=
  match items with
  | [] => []
  | item :: rest => item.payloads ++ payloadsOf rest

end

def streamOf (items : List Item) : List Payload :=
  .other :: payloadsOf items ++ [.finish]

def topImports (items : List Item) : List String :=
  items.flatMap (fun item =>
    match item with
    | .imports names => (names.filter (fun found => !found.isType)).map ComponentImport.name
    | _ => [])

def topExports (items : List Item) : List String :=
  items.flatMap (fun item =>
    match item with
    | .exports names => (names.filter (fun found => !found.isType)).map ComponentExport.name
    | _ => [])

-- The documented behaviour of the parser and the validator: what the validator accepts is a binary
-- of the component model, and the parser yields its payloads in order.
def Wasm.Correct (wasm : Wasm) (decode : List UInt8 → Option (List Item)) : Prop :=
  ∀ bytes, wasm.validateAll bytes = .ok () →
    ∃ items, decode bytes = some items ∧ wasm.parseAll bytes = (streamOf items).map .ok

def walkAll (payloads : List Payload) (walk : Walk) : Except ComponentError Walk :=
  (payloads.map .ok).foldlM Walk.visit walk

variable {walk walk' : Walk}

theorem walkAll_nil_ok : walkAll [] walk = .ok walk' ↔ walk = walk' := by
  unfold walkAll
  simp only [List.map_nil, List.foldlM_nil, pure, Except.pure, Except.ok.injEq]

theorem walkAll_cons_ok {payload : Payload} {rest : List Payload}
    : walkAll (payload :: rest) walk = .ok walk'
        ↔ ∃ mid, walk.visit (.ok payload) = .ok mid ∧ walkAll rest mid = .ok walk' := by
  unfold walkAll
  rw [List.map_cons, List.foldlM_cons, Except.bind_eq_ok]

theorem walkAll_append_ok {payloads rest : List Payload}
    : walkAll (payloads ++ rest) walk = .ok walk'
        ↔ ∃ mid, walkAll payloads walk = .ok mid ∧ walkAll rest mid = .ok walk' := by
  unfold walkAll
  rw [List.map_append, List.foldlM_append, Except.bind_eq_ok]

theorem walkAll_replicate_other {n : Nat} (h : walkAll (List.replicate n .other) walk = .ok walk')
    : walk' = walk := by
  induction n with
  | zero => exact (walkAll_nil_ok.mp h).symm
  | succ n ih =>
    obtain ⟨mid, hvisit, hrest⟩ := walkAll_cons_ok.mp h
    cases hvisit
    exact ih hrest

namespace Walk

theorem enter_ok {walk walk' : Walk} (h : walk.enter = .ok walk')
    : walk' = { walk with depth := walk.depth + 1 } := by
  unfold enter at h
  split at h
  . exact (Except.ok.inj h).symm
  . cases h

theorem leave_ok {walk walk' : Walk} (h : walkAll [.finish] { walk with depth := walk.depth + 1 } = .ok walk')
    : walk' = walk := by
  obtain ⟨mid, hvisit, hnil⟩ := walkAll_cons_ok.mp h
  rw [← walkAll_nil_ok.mp hnil]
  unfold visit at hvisit
  simp only [gt_iff_lt, Nat.succ_pos, if_true, Nat.add_sub_cancel, Except.ok.injEq] at hvisit
  exact hvisit.symm

end Walk

theorem Item.module_kept {sections : Nat} (h : walkAll (Item.module sections).payloads walk = .ok walk')
    : walk' = walk := by
  obtain ⟨entered, henter, h⟩ := walkAll_cons_ok.mp h
  obtain ⟨mid, hothers, hfinish⟩ := walkAll_append_ok.mp h
  rw [walkAll_replicate_other hothers, Walk.enter_ok henter] at hfinish
  exact Walk.leave_ok hfinish

theorem Item.component_opened {items : List Item} (h : walkAll (Item.component items).payloads walk = .ok walk')
    : ∃ inner, walkAll (payloadsOf items) { walk with depth := walk.depth + 1 } = .ok inner
        ∧ walkAll [.finish] inner = .ok walk' := by
  obtain ⟨entered, henter, h⟩ := walkAll_cons_ok.mp h
  obtain ⟨mid, hother, h⟩ := walkAll_cons_ok.mp h
  obtain ⟨inner, hitems, hfinish⟩ := walkAll_append_ok.mp h
  cases hother
  rw [Walk.enter_ok henter] at hitems
  exact ⟨inner, hitems, hfinish⟩

mutual

-- Nothing below the top level is recorded.

theorem Item.unrecorded (item : Item) {walk walk' : Walk} (hdepth : walk.depth > 0)
    (h : walkAll item.payloads walk = .ok walk')
    : walk' = walk := by
  match item with
  | .imports names =>
    obtain ⟨mid, hvisit, hnil⟩ := walkAll_cons_ok.mp h
    rw [← walkAll_nil_ok.mp hnil]
    unfold Walk.visit at hvisit
    simp only [hdepth, if_true, Except.ok.injEq] at hvisit
    exact hvisit.symm
  | .exports names =>
    obtain ⟨mid, hvisit, hnil⟩ := walkAll_cons_ok.mp h
    rw [← walkAll_nil_ok.mp hnil]
    unfold Walk.visit at hvisit
    simp only [hdepth, if_true, Except.ok.injEq] at hvisit
    exact hvisit.symm
  | .module sections => exact Item.module_kept h
  | .component items =>
    obtain ⟨inner, hitems, hfinish⟩ := Item.component_opened h
    have hinner := payloadsOf_unrecorded items (Nat.succ_pos _) hitems
    rw [hinner] at hfinish
    exact Walk.leave_ok hfinish
  | .other =>
    obtain ⟨mid, hvisit, hnil⟩ := walkAll_cons_ok.mp h
    rw [← walkAll_nil_ok.mp hnil]
    exact (Except.ok.inj hvisit).symm

theorem payloadsOf_unrecorded (items : List Item) {walk walk' : Walk} (hdepth : walk.depth > 0)
    (h : walkAll (payloadsOf items) walk = .ok walk')
    : walk' = walk := by
  match items with
  | [] => exact (walkAll_nil_ok.mp h).symm
  | item :: rest =>
    obtain ⟨mid, hitem, hrest⟩ := walkAll_append_ok.mp h
    have hmid := item.unrecorded hdepth hitem
    rw [hmid] at hrest
    exact payloadsOf_unrecorded rest hdepth hrest

end

theorem Item.component_kept {items : List Item} (h : walkAll (Item.component items).payloads walk = .ok walk')
    : walk' = walk := by
  obtain ⟨inner, hitems, hfinish⟩ := Item.component_opened h
  rw [payloadsOf_unrecorded items (Nat.succ_pos _) hitems] at hfinish
  exact Walk.leave_ok hfinish

structure Walk.Sees (walk : Walk) (imports exports : List String) : Prop where
  imports : ∀ name, walk.imports.contains name = true ↔ name ∈ imports
  exports : ∀ name, walk.exports.contains name = true ↔ name ∈ exports
  depth : walk.depth = 0

variable {walk walk' : Walk} {imports exports : List String}

theorem foldlM_visitImport {names : List ComponentImport} (hsees : walk.Sees imports exports)
    (h : (names.map .ok).foldlM Walk.visitImport walk = .ok walk')
    : walk'.Sees
        (imports ++ (names.filter (fun found => !found.isType)).map ComponentImport.name) exports := by
  induction names generalizing walk imports with
  | nil =>
    cases h
    rw [List.filter_nil, List.map_nil, List.append_nil]
    exact hsees
  | cons found rest ih =>
    rw [List.map_cons, List.foldlM_cons, Except.bind_eq_ok] at h
    obtain ⟨mid, hvisit, hrest⟩ := h
    unfold Walk.visitImport at hvisit
    cases htype : found.isType with
    | true =>
      simp only [htype, if_true, Except.ok.injEq] at hvisit
      rw [List.filter_cons_of_neg (by simp [htype])]
      exact ih (hvisit ▸ hsees) hrest
    | false =>
      simp only [htype, Bool.false_eq_true, if_false, Except.bind_eq_ok] at hvisit
      obtain ⟨capabilities, -, hmid⟩ := hvisit
      have hseen : mid.Sees (imports ++ [found.name]) exports := by
        cases hmid
        refine ⟨?_, hsees.exports, hsees.depth⟩
        intro name
        rw [SortedSet.contains_extend, hsees.imports, List.mem_append]
      rw [List.filter_cons_of_pos (by simp [htype]), List.map_cons, List.append_cons]
      exact ih hseen hrest

theorem foldlM_visitExport {names : List ComponentExport} (hsees : walk.Sees imports exports)
    (h : (names.map .ok).foldlM Walk.visitExport walk = .ok walk')
    : walk'.Sees imports
        (exports ++ (names.filter (fun found => !found.isType)).map ComponentExport.name) := by
  induction names generalizing walk exports with
  | nil =>
    cases h
    rw [List.filter_nil, List.map_nil, List.append_nil]
    exact hsees
  | cons found rest ih =>
    rw [List.map_cons, List.foldlM_cons, Except.bind_eq_ok] at h
    obtain ⟨mid, hvisit, hrest⟩ := h
    unfold Walk.visitExport at hvisit
    cases htype : found.isType with
    | true =>
      simp only [htype, if_true, Except.ok.injEq] at hvisit
      rw [List.filter_cons_of_neg (by simp [htype])]
      exact ih (hvisit ▸ hsees) hrest
    | false =>
      simp only [htype, Bool.false_eq_true, if_false, Except.ok.injEq] at hvisit
      have hseen : mid.Sees imports (exports ++ [found.name]) := by
        cases hvisit
        refine ⟨hsees.imports, ?_, hsees.depth⟩
        intro name
        rw [SortedSet.contains_extend, hsees.exports, List.mem_append]
      rw [List.filter_cons_of_pos (by simp [htype]), List.map_cons, List.append_cons]
      exact ih hseen hrest

theorem payloadsOf_seen {items : List Item} (hsees : walk.Sees imports exports)
    (h : walkAll (payloadsOf items) walk = .ok walk')
    : walk'.Sees (imports ++ topImports items) (exports ++ topExports items) := by
  induction items generalizing walk imports exports with
  | nil =>
    cases walkAll_nil_ok.mp h
    simpa [topImports, topExports] using hsees
  | cons item rest ih =>
    obtain ⟨mid, hitem, hrest⟩ := walkAll_append_ok.mp h
    have hdepth : ¬ walk.depth > 0 := by
      rw [hsees.depth]
      exact Nat.lt_irrefl 0
    have hmid : mid.Sees (imports ++ topImports [item]) (exports ++ topExports [item]) := by
      unfold topImports topExports
      rw [List.flatMap_singleton, List.flatMap_singleton]
      cases item with
      | imports names =>
        obtain ⟨last, hvisit, hnil⟩ := walkAll_cons_ok.mp hitem
        cases walkAll_nil_ok.mp hnil
        unfold Walk.visit at hvisit
        simp only [hdepth, if_false] at hvisit
        simpa using foldlM_visitImport hsees hvisit
      | exports names =>
        obtain ⟨last, hvisit, hnil⟩ := walkAll_cons_ok.mp hitem
        cases walkAll_nil_ok.mp hnil
        unfold Walk.visit at hvisit
        simp only [hdepth, if_false] at hvisit
        simpa using foldlM_visitExport hsees hvisit
      | module sections =>
        rw [Item.module_kept hitem]
        simpa using hsees
      | component items =>
        rw [Item.component_kept hitem]
        simpa using hsees
      | other =>
        obtain ⟨last, hvisit, hnil⟩ := walkAll_cons_ok.mp hitem
        cases walkAll_nil_ok.mp hnil
        cases hvisit
        simpa using hsees
    have hall := ih hmid hrest
    rw [List.append_assoc, List.append_assoc] at hall
    simpa [topImports, topExports] using hall

-- The names a component imports and exports at its top level, type definitions aside.
structure TopLevel (decode : List UInt8 → Option (List Item)) (bytes : List UInt8)
    (imports exports : List String) : Prop where
  decodes : (decode bytes).isSome = true
  imports : ∀ items ∈ decode bytes, ∀ name, name ∈ imports ↔ name ∈ topImports items
  exports : ∀ items ∈ decode bytes, ∀ name, name ∈ exports ↔ name ∈ topExports items

theorem inspectComponent_ok {wasm : Wasm} {decode : List UInt8 → Option (List Item)}
    (hwasm : wasm.Correct decode) {bytes : List UInt8} {inspection : ComponentInspection}
    (h : inspectComponent wasm bytes = .ok inspection)
    : TopLevel decode bytes inspection.imports inspection.exports := by
  unfold inspectComponent at h
  rw [Except.bind_unit_eq_ok, Except.bind_unit_eq_ok, Except.mapError_eq_ok, Except.bind_eq_ok] at h
  obtain ⟨-, hvalid, walk, hwalk, hinspection⟩ := h
  cases hinspection
  obtain ⟨items, hdecode, hparse⟩ := hwasm bytes hvalid
  rw [hparse] at hwalk
  obtain ⟨started, hheader, hwalk⟩ := walkAll_cons_ok.mp hwalk
  cases hheader
  obtain ⟨last, hitems, hfinish⟩ := walkAll_append_ok.mp hwalk
  have hstart : Walk.start.Sees [] [] := ⟨fun _ => by simp [Walk.start], fun _ => by simp [Walk.start], rfl⟩
  have hsees := payloadsOf_seen hstart hitems
  have hsame : walk = last := by
    obtain ⟨mid, hvisit, hnil⟩ := walkAll_cons_ok.mp hfinish
    cases walkAll_nil_ok.mp hnil
    unfold Walk.visit at hvisit
    simp only [hsees.depth, gt_iff_lt, Nat.lt_irrefl, if_false, Except.ok.injEq] at hvisit
    exact hvisit.symm
  cases hsame
  refine ⟨by rw [hdecode]; rfl, ?_, ?_⟩
  . intro found hfound name
    cases hdecode.symm.trans hfound
    rw [SortedSet.mem_keys_iff, hsees.imports, List.nil_append]
  . intro found hfound name
    cases hdecode.symm.trans hfound
    rw [SortedSet.mem_keys_iff, hsees.exports, List.nil_append]

end Sdk

end Pliego
