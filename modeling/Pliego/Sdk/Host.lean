import Pliego.Sdk.Runtime

/-!
What a component host runs.
-/

namespace Pliego

open Bytes

namespace Sdk

theorem verifyManifest_ok {inspection : ComponentInspection} {manifest : ExtensionManifest}
    (h : inspection.verifyManifest manifest = .ok ())
    : inspection.imports = manifest.imports ∧ inspection.exports = manifest.exports := by
  unfold ComponentInspection.verifyManifest at h
  simp only [Except.bind_unit_eq_ok, ensure_ok, decide_eq_true_eq] at h
  exact ⟨h.1, h.2.1⟩

-- Every extension a host returns was admitted against the digest of the bytes it was given.
structure Admits (policy : CapabilityPolicy) (bytes : List UInt8) (extension : ValidatedExtension)
    : Prop where
  digest : extension.manifest.identity.digest = sha256Text bytes
  receipt : extension.receipt.digest = extension.manifest.identity.digest
  granted : extension.receipt.grantedCapabilities = extension.manifest.capabilities
  policy : ∀ capability ∈ extension.manifest.capabilities, policy.allows capability = true

variable {semver : Semver} {host : HostContract semver} {manifest : ExtensionManifest}
  {bytes : List UInt8} {extension : ValidatedExtension}

theorem HostContract.admits_of_host (h : host.admitExtension manifest bytes = .ok extension)
    : Admits host.policy bytes extension := by
  unfold HostContract.admitExtension at h
  simp only [↓Except.bind_unit_eq_ok, Except.bind_eq_ok, ensure_ok, decide_eq_true_eq] at h
  obtain ⟨-, version, -, api, -, -, requirement, -, -, hdigest, -, hcapabilities, h⟩ := h
  cases h
  refine ⟨hdigest, rfl, rfl, ?_⟩
  intro capability hcapability
  have hrequire := Except.forM_eq_ok.mp hcapabilities capability hcapability
  rw [Except.mapError_eq_ok] at hrequire
  exact ensure_ok.mp hrequire

theorem HostContract.admits_of_admitComponent {wasm : Wasm}
    (h : host.admitComponent wasm manifest bytes = .ok extension)
    : Admits host.policy bytes extension := by
  unfold HostContract.admitComponent at h
  rw [Except.bind_eq_ok] at h
  obtain ⟨inspection, -, h⟩ := h
  rw [Except.bind_unit_eq_ok] at h
  exact admits_of_host h.2

def receiptsOf (limit : Nat) (calls : List ExecutorCall) : List EffectReceipt :=
  calls.mapIdx (fun i call =>
    effectReceipt (i + 1) call.capability call.operation call.input (call.executed.bounded limit))

theorem receiptsOf_concat (limit : Nat) (calls : List ExecutorCall) (call : ExecutorCall)
    : receiptsOf limit (calls ++ [call])
        = receiptsOf limit calls ++ [effectReceipt (calls.length + 1) call.capability call.operation
            call.input (call.executed.bounded limit)] := by
  unfold receiptsOf
  rw [List.mapIdx_concat]

structure HostState.Recorded (granted : Capability → Prop) (limit : Nat) (state : HostState)
    : Prop where
  calls : ∀ call ∈ state.calls, granted call.capability
  receipts : state.receipts = receiptsOf limit state.calls
  policy : ∀ broker ∈ state.effectBroker, ∀ capability,
    broker.policy.allows capability = true → granted capability
  sequence : ∀ broker ∈ state.effectBroker, broker.nextSequence = state.calls.length + 1
  limit : state.outputLimitBytes = limit

variable {granted : Capability → Prop} {limit : Nat} {state : HostState} {json : Json}

theorem HostState.Recorded.execute (h : state.Recorded granted limit) (request : EffectRequest)
    : (state.execute json request).2.Recorded granted limit := by
  unfold HostState.execute
  split
  . exact h
  . next capability _ =>
    split
    . exact h
    . next executor _ =>
      split
      . exact h
      . next broker hbroker =>
        dsimp only
        split
        . exact h
        . -- the broker either left everything as it was, or recorded the one call it made
          have hreceipts : broker.receipts = receiptsOf limit state.calls := by
            rw [← h.receipts]
            unfold HostState.receipts
            rw [hbroker]
          have hsequence := h.sequence broker hbroker
          rcases broker.execute_cases capability request.operation request.payload
              (callExecutor executor state.outputLimitBytes capability request.operation
                request.payload) state.calls with hran | ⟨-, hallows, hran⟩
          . rw [hran]
            refine ⟨h.calls, hreceipts, ?_, ?_, h.limit⟩
            . intro found hfound
              cases hfound
              exact h.policy broker hbroker
            . intro found hfound
              cases hfound
              exact hsequence
          . rw [hran]
            dsimp only [callExecutor]
            refine ⟨?_, ?_, ?_, ?_, h.limit⟩
            . intro call hcall
              rcases List.mem_append.mp hcall with hcall | hcall
              . exact h.calls call hcall
              . rw [List.mem_singleton.mp hcall]
                exact h.policy broker hbroker capability hallows
            . rw [receiptsOf_concat, ← hreceipts, ← hsequence, ← h.limit]
              rfl
            . intro found hfound
              cases hfound
              exact h.policy broker hbroker
            . intro found hfound
              cases hfound
              rw [List.length_append, hsequence]
              rfl

theorem Guest.run_recorded {linker : List HostFunction} {guest : Guest linker α}
    (hlinker : ∀ function ∈ linker, function = brokerFunction json) (h : state.Recorded granted limit)
    : (guest.run state).2.Recorded granted limit := by
  induction guest generalizing state with
  | done result fuel => exact h
  | call function hmem request resume ih =>
    unfold Guest.run
    apply ih
    rw [hlinker function hmem]
    exact h.execute request

-- The effects of a run: which calls the executor got, and their receipts.
structure Run.EffectsAdmitted (extension : ValidatedExtension) (policy : CapabilityPolicy)
    (run : Run α) : Prop where
  calls : ∀ call ∈ run.calls,
    call.capability ∈ extension.manifest.capabilities ∧ policy.allows call.capability = true
  receipts : run.receipts = receiptsOf extension.manifest.budgets.outputBytes run.calls

-- What a successful run has to show for the bytes it ran.
structure Run.OnlyAdmitted (decode : List UInt8 → Option (List Item))
    (extension : ValidatedExtension) (policy : CapabilityPolicy) (linkable : List HostFunction)
    (bytes : List UInt8) (run : Run α) (digest : String) : Prop where
  digest : digest = sha256Text bytes
  names : TopLevel decode bytes extension.manifest.imports extension.manifest.exports
  linked : ∀ function ∈ run.linked, function ∈ linkable
  effects : run.EffectsAdmitted extension policy

theorem Run.refused_effects {policy : CapabilityPolicy} {error : ComponentHostError}
    : (Run.refused error : Run α).EffectsAdmitted extension policy :=
  ⟨fun _ h => (by cases h), rfl⟩

namespace ComponentHost

variable {wasm : Wasm} {engine : Engine} {decode : List UInt8 → Option (List Item)}
  {componentHost : ComponentHost} {policy : CapabilityPolicy} {admitted : List UInt8}
  {input : BuildTransformInput}

theorem openStore_ok {budgets : Budget} {opened : engine.Code × Store}
    (h : openStore engine budgets bytes = .ok opened)
    : opened.2.outputLimit = budgets.outputBytes := by
  unfold openStore at h
  simp only [↓Except.bind_unit_eq_ok, Except.bind_eq_ok] at h
  obtain ⟨-, code, -, -, -, -, -, h⟩ := h
  cases h
  rfl

theorem prepareInstance_ok {prepared : Prepared engine} (hwasm : wasm.Correct decode)
    (h : prepareInstance wasm json engine componentHost extension bytes = .ok prepared)
    : TopLevel decode bytes extension.manifest.imports extension.manifest.exports
      ∧ (∀ function ∈ prepared.linker, function = brokerFunction json)
      ∧ prepared.store.outputLimit = extension.manifest.budgets.outputBytes := by
  unfold prepareInstance at h
  simp only [↓Except.bind_unit_eq_ok, Except.bind_eq_ok, Except.mapError_eq_ok] at h
  obtain ⟨-, inspection, hinspect, hverify, -, ⟨code, store⟩, hstore, h⟩ := h
  obtain ⟨himports, hexports⟩ := verifyManifest_ok hverify
  have hnames := inspectComponent_ok hwasm hinspect
  rw [himports, hexports] at hnames
  have hlimit := openStore_ok hstore
  refine ⟨hnames, ?_⟩
  split at h
  . simp only [Except.bind_unit_eq_ok] at h
    cases h.2
    exact ⟨fun function hfunction => List.mem_singleton.mp hfunction, hlimit⟩
  . cases h
    exact ⟨fun function hfunction => absurd hfunction List.not_mem_nil, hlimit⟩

theorem prepareTransform_ok {opened : engine.Code × Store} (hwasm : wasm.Correct decode)
    (h : prepareTransform wasm json engine extension bytes input = .ok opened)
    : TopLevel decode bytes extension.manifest.imports extension.manifest.exports := by
  unfold prepareTransform at h
  simp only [↓Except.bind_unit_eq_ok, Except.bind_eq_ok, Except.mapError_eq_ok] at h
  obtain ⟨-, -, -, -, inspection, hinspect, hverify, -⟩ := h
  obtain ⟨himports, hexports⟩ := verifyManifest_ok hverify
  rw [← himports, ← hexports]
  exact inspectComponent_ok hwasm hinspect

theorem hostState_recorded (h : Admits policy admitted extension) {inspection : ComponentInspection} {limit : Nat}
    : (hostState componentHost extension inspection limit).Recorded
        (fun capability => capability ∈ extension.manifest.capabilities
          ∧ policy.allows capability = true) limit := by
  have hpolicy : ∀ capability, (effectPolicy extension).allows capability = true →
      capability ∈ extension.manifest.capabilities ∧ policy.allows capability = true := by
    intro capability hallows
    unfold effectPolicy at hallows
    rw [CapabilityPolicy.allows_foldl_grant, h.granted] at hallows
    simp only [CapabilityPolicy.allows_denyAll, Bool.false_eq_true, false_or] at hallows
    exact ⟨hallows, h.policy capability hallows⟩
  unfold hostState
  cases hasEffectBroker inspection with
  | true =>
    refine ⟨fun _ hcall => absurd hcall List.not_mem_nil, rfl, ?_, ?_, rfl⟩
    . intro broker hbroker
      cases hbroker
      exact hpolicy
    . intro broker hbroker
      cases hbroker
      rfl
  | false =>
    refine ⟨fun _ hcall => absurd hcall List.not_mem_nil, rfl, ?_, ?_, rfl⟩
    . intro broker hbroker
      cases hbroker
    . intro broker hbroker
      cases hbroker

theorem instantiate_effects (hwasm : wasm.Correct decode) (h : Admits policy admitted extension)
    : (instantiate wasm json engine componentHost extension bytes).EffectsAdmitted
        extension policy := by
  unfold instantiate
  split
  . exact Run.refused_effects
  . next prepared hprepared =>
    obtain ⟨-, hlinker, hlimit⟩ := prepareInstance_ok hwasm hprepared
    let guest := engine.instantiate prepared.linker prepared.code prepared.store.limits
      prepared.store.fuelLimit
    have hran : ((guest.run (hostState componentHost extension prepared.inspection
        prepared.store.outputLimit)).2).Recorded (fun capability =>
          capability ∈ extension.manifest.capabilities ∧ policy.allows capability = true)
        prepared.store.outputLimit := Guest.run_recorded hlinker (hostState_recorded h)
    refine ⟨hran.calls, ?_⟩
    rw [← hlimit]
    exact hran.receipts

theorem instantiate_ok (hwasm : wasm.Correct decode) {receipt : ComponentHostReceipt}
    (h : (instantiate wasm json engine componentHost extension bytes).result = .ok receipt)
    : receipt.digest = extension.receipt.digest
      ∧ TopLevel decode bytes extension.manifest.imports extension.manifest.exports
      ∧ ∀ function ∈ (instantiate wasm json engine componentHost extension bytes).linked,
          function ∈ [brokerFunction json] := by
  unfold instantiate at h ⊢
  split at h
  . cases h
  . next prepared hprepared =>
    obtain ⟨hnames, hlinker, -⟩ := prepareInstance_ok hwasm hprepared
    obtain ⟨-, -, hreceipt⟩ := Except.bind_eq_ok.mp h
    cases hreceipt
    exact ⟨rfl, hnames, fun function hfunction => List.mem_singleton.mpr (hlinker function hfunction)⟩

theorem transform_effects
    : (executeBuildTransform wasm json engine extension bytes input).EffectsAdmitted
        extension policy := by
  unfold executeBuildTransform
  split
  . exact Run.refused_effects
  . next code store _ =>
    have hstart : HostState.Recorded (fun _ => False) store.outputLimit
        ⟨none, none, store.outputLimit, []⟩ :=
      ⟨fun _ hcall => absurd hcall List.not_mem_nil, rfl, fun _ hbroker => (by cases hbroker),
        fun _ hbroker => (by cases hbroker), rfl⟩
    have hnone : ∀ function ∈ ([] : List HostFunction), function = brokerFunction json :=
      fun _ hfunction => absurd hfunction List.not_mem_nil
    let guest := engine.transform code store.limits store.fuelLimit input
    have hran : (guest.run ⟨none, none, store.outputLimit, []⟩).2.Recorded (fun _ => False)
        store.outputLimit := Guest.run_recorded hnone hstart
    -- no capability is granted, so no call was made
    have hcalls := List.eq_nil_iff_forall_not_mem.mpr hran.calls
    refine ⟨fun call hcall => (hran.calls call hcall).elim, ?_⟩
    dsimp only
    rw [hran.receipts, hcalls]
    rfl

theorem transform_ok (hwasm : wasm.Correct decode) {execution : BuildTransformExecution}
    (h : (executeBuildTransform wasm json engine extension bytes input).result = .ok execution)
    : execution.receipt.extensionDigest = extension.receipt.digest
      ∧ TopLevel decode bytes extension.manifest.imports extension.manifest.exports
      ∧ ∀ function ∈ (executeBuildTransform wasm json engine extension bytes input).linked,
          function ∈ ([] : List HostFunction) := by
  unfold executeBuildTransform at h ⊢
  split at h
  . cases h
  . next code store hprepared =>
    refine ⟨?_, prepareTransform_ok hwasm hprepared, fun _ hfunction => hfunction⟩
    unfold concludeTransform at h
    simp only [↓Except.bind_unit_eq_ok, Except.bind_eq_ok] at h
    obtain ⟨answered, -, output, -, -, -, fuel, -, hexecution⟩ := h
    cases hexecution
    rfl

theorem digest_eq_iff (h : Admits policy admitted extension) {digest : String}
    (hdigest : digest = extension.receipt.digest)
    : digest = sha256Text bytes ↔ Sha2.digest bytes = Sha2.digest admitted := by
  rw [hdigest, h.receipt, h.digest, sha256Text_inj]
  exact eq_comm

-- A run is the admitted one exactly when its bytes have the digest of the admitted bytes; its effects
-- are within the admitted policy in any case.
theorem runs_admitted_iff (hwasm : wasm.Correct decode)
    (hadmits : host.admitExtension manifest admitted = .ok extension
      ∨ host.admitComponent wasm manifest admitted = .ok extension)
    : (∀ bytes, (instantiate wasm json engine componentHost extension bytes).EffectsAdmitted
          extension host.policy)
      ∧ (∀ bytes receipt,
          (instantiate wasm json engine componentHost extension bytes).result = .ok receipt →
          ((instantiate wasm json engine componentHost extension bytes).OnlyAdmitted decode extension
              host.policy [brokerFunction json] bytes receipt.digest
            ↔ Sha2.digest bytes = Sha2.digest admitted))
      ∧ (∀ bytes input, (executeBuildTransform wasm json engine extension bytes input).EffectsAdmitted
          extension host.policy)
      ∧ (∀ bytes input execution,
          (executeBuildTransform wasm json engine extension bytes input).result = .ok execution →
          ((executeBuildTransform wasm json engine extension bytes input).OnlyAdmitted decode
              extension host.policy [] bytes execution.receipt.extensionDigest
            ↔ Sha2.digest bytes = Sha2.digest admitted)) := by
  have hadmits : Admits host.policy admitted extension := by
    cases hadmits with
    | inl h => exact HostContract.admits_of_host h
    | inr h => exact HostContract.admits_of_admitComponent h
  refine ⟨fun bytes => instantiate_effects hwasm hadmits, ?_, fun bytes input => transform_effects, ?_⟩
  . intro bytes receipt hran
    obtain ⟨hdigest, hnames, hlinked⟩ := instantiate_ok hwasm hran
    rw [← digest_eq_iff hadmits hdigest]
    constructor
    . intro h
      exact h.digest
    . intro h
      exact ⟨h, hnames, hlinked, instantiate_effects hwasm hadmits⟩
  . intro bytes input execution hran
    obtain ⟨hdigest, hnames, hlinked⟩ := transform_ok hwasm hran
    rw [← digest_eq_iff hadmits hdigest]
    constructor
    . intro h
      exact h.digest
    . intro h
      exact ⟨h, hnames, hlinked, transform_effects⟩

-- Two binaries of the empty component; the second has a custom section without name or content.
def emptyComponent : List UInt8 := [0x00, 0x61, 0x73, 0x6d, 0x0d, 0x00, 0x01, 0x00]

def paddedComponent : List UInt8 := emptyComponent ++ [0x00, 0x01, 0x00]

-- A component with the broker's interface and two core modules: a memory that holds the texts of one request, and a
-- start function that makes it.
def brokerComponent : List UInt8 :=
  [0, 97, 115, 109, 13, 0, 1, 0, 7, 189, 1, 1, 66, 11, 1, 112, 125, 1, 114, 3, 10] ++ utf8 "capability"
    ++ [115, 9] ++ utf8 "operation" ++ [115, 7] ++ utf8 "payload" ++ [0, 4, 0, 14] ++ utf8 "effect-request"
    ++ [3, 0, 1, 1, 114, 2, 7] ++ utf8 "payload" ++ [0, 12] ++ utf8 "receipt-json" ++ [115, 4, 0, 15]
    ++ utf8 "effect-response" ++ [3, 0, 3, 1, 107, 115, 1, 114, 2, 7] ++ utf8 "message" ++ [115, 12]
    ++ utf8 "receipt-json" ++ [5, 4, 0, 14] ++ utf8 "effect-failure" ++ [3, 0, 6, 1, 106, 1, 4, 1, 7, 1, 64, 1, 7]
    ++ utf8 "request" ++ [2, 0, 8, 4, 0, 7] ++ utf8 "execute" ++ [1, 9]
    ++ [10, 32, 1, 0, 27] ++ utf8 brokerInterface ++ [5, 0]
    ++ [1, 75, 0, 97, 115, 109, 1, 0, 0, 0, 1, 9, 1, 96, 4, 127, 127, 127, 127, 1, 127, 3, 2, 1, 0, 5, 3, 1, 0, 1, 7, 9,
      2, 1, 109, 2, 0, 1, 114, 0, 0, 10, 7, 1, 5, 0, 65, 128, 8, 11, 11, 25, 1, 0, 65, 0, 11, 19]
    ++ utf8 "networkfetchrequest"
    ++ [1, 62, 0, 97, 115, 109, 1, 0, 0, 0, 1, 14, 2, 96, 7, 127, 127, 127, 127, 127, 127, 127, 0, 96, 0, 0, 2, 7, 1, 1,
      98, 1, 101, 0, 0, 3, 2, 1, 1, 8, 1, 1, 10, 20, 1, 18, 0, 65, 0, 65, 7, 65, 7, 65, 5, 65, 12, 65, 7, 65, 32, 16, 0,
      11]
    ++ [2, 4, 1, 0, 0, 0, 6, 24, 3, 1, 0, 0, 7] ++ utf8 "execute"
    ++ [0, 2, 1, 0, 1, 109, 0, 0, 1, 0, 1, 114, 8, 9, 1, 1, 0, 0, 2, 3, 0, 4, 0, 2, 14, 2, 1, 1, 1, 101, 0, 1, 0, 1, 1,
      1, 98, 18, 1]

def sampleDecode (bytes : List UInt8) : Option (List Item) :=
  if bytes = emptyComponent then some []
  else if bytes = paddedComponent then some [.other]
  else if bytes = brokerComponent then
    some [.other, .imports [⟨brokerInterface, false⟩], .module 8, .module 7, .other, .other, .other, .other]
  else none

def sampleWasm : Wasm where
  validateAll bytes :=
    if (sampleDecode bytes).isSome then .ok () else .error "unexpected end-of-file"
  parseAll bytes := ((sampleDecode bytes).elim [] streamOf).map .ok

theorem sampleWasm_correct : sampleWasm.Correct sampleDecode := by
  intro bytes h
  unfold sampleWasm at h
  dsimp only at h
  split at h
  . next hdecodes =>
    obtain ⟨items, hitems⟩ := Option.isSome_iff_exists.mp hdecodes
    refine ⟨items, hitems, ?_⟩
    unfold sampleWasm
    dsimp only
    rw [hitems]
    rfl
  . cases h

def sampleSemver : Semver where
  Version := String
  Requirement := String
  parse := .ok
  parseReq := .ok
  satisfies _ _ := true
  display version := version

def sampleJson : Json where
  receiptText receipt :=
    .ok ("\x7b\"schema\":\"" ++ receipt.schema ++ "\",\"sequence\":" ++ toString receipt.sequence
      ++ ",\"outcome\":\"" ++ (if receipt.outcome = .success then "success" else "error") ++ "\",\"capability\":\""
      ++ receipt.capability.asStr ++ "\",\"operation\":\"" ++ receipt.operation ++ "\",\"inputSha256\":\""
      ++ receipt.inputSha256 ++ "\",\"outputSha256\":\"" ++ receipt.outputSha256 ++ "\"\x7d")
  isArray text := .ok (Text.startsWith '[' text)

def sampleEngine : Engine where
  Code := Unit
  new := .ok ()
  compile _ := .ok ()
  setFuel _ := .ok ()
  addToLinker := .ok ()
  finishDeadline _ := some false
  instantiate linker _ _ fuel :=
    match linker with
    | [] => .done (.ok ()) (.ok fuel)
    | function :: _ =>
      .call function List.mem_cons_self ⟨"network", "fetch", utf8 "request"⟩ fun _ => .done (.ok ()) (.ok (fuel - 9))
  transform _ _ fuel input := .done (.ok (.ok ⟨input.mediaType, input.bytes, "[]"⟩)) (.ok fuel)

def sampleExtension : ExtensionManifest where
  schema := opensdkManifestSchema
  apiVersion := opensdkApiVersion
  hostVersion := ">=0.2.0-beta.1, <0.3.0"
  plane := .build
  identity := ⟨"pliego", "host-fixture", "0.1.0", sha256Text emptyComponent⟩
  entry := ⟨.wasmComponent, "component.wasm", some "pliego:build/transformer@0.1.0", none⟩
  determinism := .pure
  imports := []
  exports := []
  capabilities := []
  requiredFeatures := []
  optionalFeatures := []
  budgets := ⟨10, 100, 1024 * 1024, 1024⟩
  lifecycle := ⟨true, false, false, false, true, false⟩

def sampleContract : HostContract sampleSemver where
  version := opensdkApiVersion
  apiVersion := opensdkApiVersion
  features := .empty
  policy := .denyAll

def sampleAdmitted : ValidatedExtension :=
  ⟨sampleExtension, sampleContract.admissionReceipt sampleExtension "0.1.0"⟩

def sampleRun (bytes : List UInt8) : Run ComponentHostReceipt :=
  instantiate sampleWasm sampleJson sampleEngine ⟨none⟩ sampleAdmitted bytes

theorem sample_admitted
    : sampleContract.admitComponent sampleWasm sampleExtension emptyComponent
        = .ok sampleAdmitted := by
  have hadmitted : (sampleContract.admitComponent sampleWasm sampleExtension emptyComponent).toOption
      = some sampleAdmitted := by decide +kernel
  exact Except.toOption_eq_some.mp hadmitted

def brokerExtension : ExtensionManifest :=
  { sampleExtension with
    identity := ⟨"pliego", "host-fixture", "0.1.0", sha256Text brokerComponent⟩
    entry := ⟨.wasmComponent, "component.wasm", some "pliego:effects/recorded-effect@0.1.0", none⟩
    determinism := .recordedEffect
    imports := [brokerInterface]
    capabilities := [.network, .effectBroker] }

def brokerContract : HostContract sampleSemver :=
  { sampleContract with policy := (CapabilityPolicy.denyAll.grant .network).grant .effectBroker }

def brokerAdmitted : ValidatedExtension :=
  ⟨brokerExtension, brokerContract.admissionReceipt brokerExtension "0.1.0"⟩

def brokerRun : Run ComponentHostReceipt :=
  instantiate sampleWasm sampleJson sampleEngine ⟨some fun _ _ _ _ => .output (utf8 "response")⟩ brokerAdmitted
    brokerComponent

theorem broker_admitted
    : brokerContract.admitComponent sampleWasm brokerExtension brokerComponent = .ok brokerAdmitted := by
  have hadmitted : (brokerContract.admitComponent sampleWasm brokerExtension brokerComponent).toOption
      = some brokerAdmitted := by decide +kernel
  exact Except.toOption_eq_some.mp hadmitted

theorem runs_admitted_brokerComponent
    : ∃ receipt, brokerRun.result = .ok receipt
        ∧ brokerRun.calls = [⟨.network, "fetch", utf8 "request", .output (utf8 "response")⟩]
        ∧ brokerRun.OnlyAdmitted sampleDecode brokerAdmitted brokerContract.policy [brokerFunction sampleJson]
            brokerComponent receipt.digest := by
  have hran : brokerRun.result.toOption.isSome = true := by decide +kernel
  obtain ⟨receipt, hreceipt⟩ := Option.isSome_iff_exists.mp hran
  replace hreceipt := Except.toOption_eq_some.mp hreceipt
  refine ⟨receipt, hreceipt, by decide +kernel, ?_⟩
  apply ((runs_admitted_iff sampleWasm_correct (.inr broker_admitted)).2.1 brokerComponent receipt hreceipt).mpr
  rfl

-- Admitted as one binary and run as another: the receipt keeps the digest of the first.
theorem unadmitted_bytes_run
    : sampleWasm.Correct sampleDecode
      ∧ sampleContract.admitComponent sampleWasm sampleExtension emptyComponent = .ok sampleAdmitted
      ∧ ∃ receipt, (sampleRun paddedComponent).result = .ok receipt
        ∧ receipt.digest = sha256Text emptyComponent
        ∧ ¬ (sampleRun paddedComponent).OnlyAdmitted sampleDecode sampleAdmitted
            sampleContract.policy [brokerFunction sampleJson] paddedComponent receipt.digest := by
  refine ⟨sampleWasm_correct, sample_admitted, ?_⟩
  have hran : ((sampleRun paddedComponent).result.toOption.any
      (fun receipt => receipt.digest = sha256Text emptyComponent)) = true := by decide +kernel
  obtain ⟨receipt, hreceipt, hdigest⟩ := (Option.any_eq_true _ _).mp hran
  refine ⟨receipt, Except.toOption_eq_some.mp hreceipt, of_decide_eq_true hdigest, ?_⟩
  intro honly
  have hsame := honly.digest
  rw [of_decide_eq_true hdigest, sha256Text_inj] at hsame
  have hapart : Sha2.digest emptyComponent ≠ Sha2.digest paddedComponent := by decide +kernel
  exact hapart hsame

end ComponentHost

end Sdk

end Pliego
