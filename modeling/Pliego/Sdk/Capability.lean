import Pliego.Sdk.Manifest

/-!
The effect broker of `pliego-sdk`: a policy, a sequence counter and the receipts issued so far.
-/

namespace Pliego

open Bytes

namespace Sdk

def maxEffectReceipts : Nat := 4096

def sha256Text (bytes : List UInt8) : String :=
  "sha256:" ++ encodeHex (Sha2.digest bytes)

theorem sha256Text_inj {a b : List UInt8}
    : sha256Text a = sha256Text b ↔ Sha2.digest a = Sha2.digest b := by
  unfold sha256Text
  constructor
  . intro h
    apply encodeHex_inj
    exact (String.append_right_inj _).mp h
  . intro h
    rw [h]

structure CapabilityPolicy where
  grants : SortedSet Capability

structure CapabilityDenial where
  capability : Capability
  operation : String
  deriving DecidableEq, Repr

namespace CapabilityPolicy

def denyAll : CapabilityPolicy := ⟨.empty⟩

def grant (policy : CapabilityPolicy) (capability : Capability) : CapabilityPolicy :=
  ⟨policy.grants.extend [capability]⟩

def allows (policy : CapabilityPolicy) (capability : Capability) : Bool :=
  policy.grants.contains capability

def require (policy : CapabilityPolicy) (capability : Capability) (operation : String)
    : Except CapabilityDenial Unit :=
  ensure (policy.allows capability) ⟨capability, operation⟩

@[simp]
theorem allows_denyAll (capability : Capability) : denyAll.allows capability = false := rfl

@[simp]
theorem allows_grant {policy : CapabilityPolicy} {capability other : Capability}
    : (policy.grant capability).allows other = true
        ↔ policy.allows other = true ∨ other = capability := by
  unfold allows grant
  rw [SortedSet.contains_extend, List.mem_singleton]

theorem allows_foldl_grant {capabilities : List Capability} {policy : CapabilityPolicy} {other : Capability}
    : (capabilities.foldl grant policy).allows other = true
        ↔ policy.allows other = true ∨ other ∈ capabilities := by
  induction capabilities generalizing policy with
  | nil => simp
  | cons capability rest ih =>
    rw [List.foldl_cons, ih, allows_grant, List.mem_cons, or_assoc]

end CapabilityPolicy

inductive EffectOutcome where
  | success
  | error
  deriving DecidableEq, Repr

structure EffectReceipt where
  schema : String
  sequence : Nat
  outcome : EffectOutcome
  capability : Capability
  operation : String
  inputSha256 : String
  outputSha256 : String
  deriving DecidableEq, Repr

structure EffectFailure where
  message : String
  receipt : EffectReceipt
  deriving DecidableEq, Repr

structure EffectBroker where
  policy : CapabilityPolicy
  nextSequence : Nat
  receipts : List EffectReceipt

inductive EffectError where
  | denied (denial : CapabilityDenial)
  | invalidOperation
  | executor (failure : EffectFailure)
  | receiptLimitExceeded
  | sequenceExhausted
  deriving DecidableEq, Repr

def EffectError.display (error : EffectError) : String :=
  match error with
  | denied denial =>
    "capability `" ++ denial.capability.asStr ++ "` denied for `" ++ denial.operation ++ "`"
  | invalidOperation => "effect operation is invalid"
  | executor failure => "effect executor failed: " ++ failure.message
  | receiptLimitExceeded => "effect receipt limit exceeded"
  | sequenceExhausted => "effect receipt sequence exhausted"

def isAsciiGraphic (byte : UInt8) : Bool :=
  33 ≤ byte && byte ≤ 126

def validateOperation (operation : String) : Except EffectError Unit :=
  ensure (operation ≠ "" && (utf8 operation).length ≤ 128 && (utf8 operation).all isAsciiGraphic)
    .invalidOperation

def outcomeOf (result : Except String (List UInt8)) : EffectOutcome :=
  match result with
  | .ok _ => .success
  | .error _ => .error

def digestOf (result : Except String (List UInt8)) : String :=
  match result with
  | .ok output => sha256Text output
  | .error error => sha256Text (utf8 error)

def effectReceipt (sequence : Nat) (capability : Capability) (operation : String)
    (input : List UInt8) (result : Except String (List UInt8))
    : EffectReceipt :=
  { schema := "dev.pliegors.effect-receipt/v1"
    sequence
    outcome := outcomeOf result
    capability
    operation
    inputSha256 := sha256Text input
    outputSha256 := digestOf result }

namespace EffectBroker

def new (policy : CapabilityPolicy) : EffectBroker :=
  ⟨policy, 1, []⟩

def preflight (broker : EffectBroker) (capability : Capability) (operation : String)
    : Except EffectError Nat := do
  validateOperation operation
  (broker.policy.require .effectBroker operation).mapError .denied
  (broker.policy.require capability operation).mapError .denied
  ensure (broker.receipts.length < maxEffectReceipts) .receiptLimitExceeded
  ensure (broker.nextSequence + 1 < 2 ^ 64) .sequenceExhausted
  .ok (broker.nextSequence + 1)

-- The executor runs on a state of its own, once, and only after the preflight.
def execute (broker : EffectBroker) (capability : Capability) (operation : String)
    (input : List UInt8) (executor : σ → Except String (List UInt8) × σ) (state : σ)
    : Except EffectError (List UInt8) × EffectBroker × σ :=
  match broker.preflight capability operation with
  | .error error => (.error error, broker, state)
  | .ok nextSequence =>
    let ran := executor state
    let receipt := effectReceipt broker.nextSequence capability operation input ran.1
    let recorded := { broker with nextSequence, receipts := broker.receipts ++ [receipt] }
    match ran.1 with
    | .ok output => (.ok output, recorded, ran.2)
    | .error message => (.error (.executor ⟨message, receipt⟩), recorded, ran.2)

theorem preflight_ok {broker : EffectBroker} {capability : Capability} {operation : String}
    {next : Nat} (h : broker.preflight capability operation = .ok next)
    : broker.policy.allows .effectBroker = true ∧ broker.policy.allows capability = true
        ∧ broker.receipts.length < maxEffectReceipts ∧ next = broker.nextSequence + 1 := by
  unfold preflight CapabilityPolicy.require at h
  simp only [Except.bind_unit_eq_ok, Except.mapError_eq_ok, ensure_ok, decide_eq_true_eq] at h
  obtain ⟨-, hbroker, hgranted, hroom, -, hnext⟩ := h
  cases hnext
  exact ⟨hbroker, hgranted, hroom, rfl⟩

theorem execute_cases (broker : EffectBroker) (capability : Capability) (operation : String)
    (input : List UInt8) (executor : σ → Except String (List UInt8) × σ) (state : σ)
    : (broker.execute capability operation input executor state).2 = (broker, state)
      ∨ (broker.policy.allows .effectBroker = true ∧ broker.policy.allows capability = true
        ∧ (broker.execute capability operation input executor state).2
          = ({ broker with
                nextSequence := broker.nextSequence + 1
                receipts := broker.receipts ++ [effectReceipt broker.nextSequence capability
                  operation input (executor state).1] }, (executor state).2)) := by
  unfold execute
  cases hpreflight : broker.preflight capability operation with
  | error error => exact .inl rfl
  | ok nextSequence =>
    obtain ⟨hbroker, hgranted, -, rfl⟩ := preflight_ok hpreflight
    right
    refine ⟨hbroker, hgranted, ?_⟩
    dsimp only
    split <;> rfl

end EffectBroker

end Sdk

end Pliego
