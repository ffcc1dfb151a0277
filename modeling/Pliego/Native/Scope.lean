import Pliego.Lib.Bytes

/-!
The scope of one request in `pliego-runtime`: the states it goes through, its cleanups and the receipt of its
end.
-/

namespace Pliego

open Bytes

namespace Native

inductive RequestState where
  | accepted
  | headAdmitted
  | routeResolved
  | scopeOpen
  | handlerRunning
  | responseCommitted
  | bodyStreaming
  | rejected
  | cancelled
  | failed
  | scopeDraining
  | closed
  deriving DecidableEq

inductive CancelReason where
  | clientDisconnect
  | deadline
  | shutdown
  | applicationAbort
  | requestBodyLimit
  | responseBodyLimit
  deriving DecidableEq

inductive RequestOutcome where
  | pending
  | success
  | rejected
  | cancelled
  | failed
  deriving DecidableEq

def transitionAllowed (source target : RequestState) : Bool :=
  match source, target with
  | .accepted, .headAdmitted | .accepted, .rejected | .accepted, .cancelled | .accepted, .failed => true
  | .headAdmitted, .routeResolved | .headAdmitted, .responseCommitted | .headAdmitted, .rejected
  | .headAdmitted, .cancelled | .headAdmitted, .failed => true
  | .routeResolved, .scopeOpen | .routeResolved, .rejected | .routeResolved, .cancelled
  | .routeResolved, .failed => true
  | .scopeOpen, .handlerRunning | .scopeOpen, .rejected | .scopeOpen, .cancelled | .scopeOpen, .failed => true
  | .handlerRunning, .responseCommitted | .handlerRunning, .cancelled | .handlerRunning, .failed => true
  | .responseCommitted, .bodyStreaming | .responseCommitted, .scopeDraining | .responseCommitted, .cancelled
  | .responseCommitted, .failed => true
  | .bodyStreaming, .scopeDraining | .bodyStreaming, .cancelled | .bodyStreaming, .failed => true
  | .rejected, .responseCommitted | .rejected, .scopeDraining => true
  | .cancelled, .responseCommitted | .cancelled, .scopeDraining => true
  | .failed, .responseCommitted | .failed, .scopeDraining => true
  | .scopeDraining, .closed => true
  | _, _ => false

inductive ScopeError where
  | invalidDiagnosticCode (code : String)
  | invalidDiagnosticMessage
  | invalidTransition (source target : RequestState)
  | scopeClosed
  | cleanupLimit (maximum : Nat)
  | responseBodyLimit (actual maximum : Nat)
  deriving DecidableEq

def ScopeError.code (error : ScopeError) : String :=
  match error with
  | .invalidDiagnosticCode _ | .invalidDiagnosticMessage => "PLG-RUN-003"
  | .invalidTransition _ _ => "PLG-RUN-301"
  | .scopeClosed => "PLG-RUN-304"
  | .cleanupLimit _ => "PLG-RUN-305"
  | .responseBodyLimit _ _ => "PLG-RUN-105"

structure RuntimeDiagnostic where
  code : String
  message : String
  deriving DecidableEq

def RuntimeDiagnostic.new (code message : String) : Except ScopeError RuntimeDiagnostic :=
  if code = "" || 32 < (utf8 code).length
      || !(utf8 code).all (fun byte => (65 ≤ byte && byte ≤ 90) || (48 ≤ byte && byte ≤ 57) || byte == 45) then
    .error (.invalidDiagnosticCode code)
  else if message = "" || 512 < (utf8 message).length
      || message.toList.any (fun character => character == '\r' || character == '\n' || character.toNat == 0) then
    .error .invalidDiagnosticMessage
  else
    .ok ⟨code, message⟩

def boundedChars (room : Nat) (chars : List Char) : List Char :=
  match chars with
  | [] => []
  | c :: rest => if c.utf8Size ≤ room then c :: boundedChars (room - c.utf8Size) rest else []

def bounded (value : String) (maximum : Nat) : String :=
  if (utf8 value).length ≤ maximum then value else String.ofList (boundedChars maximum value.toList)

structure RequestLimits where
  maxResponseBytes : Nat
  maxDiagnostics : Nat
  maxCleanups : Nat
  maxConcurrentRequests : Nat

inductive CleanupResult where
  | done
  | failed (message : String)
  | panicked

structure Cleanup where
  id : Nat
  run : Option CancelReason → CleanupResult

inductive InternalCleanup where
  | removeRequest
  | closeData (panics : Bool)
  deriving DecidableEq

inductive Ran where
  | user (id : Nat) (reason : Option CancelReason)
  | internal (cleanup : InternalCleanup)
  deriving DecidableEq

-- The identity of a request is told apart by its sequence number.
structure RuntimeReceipt where
  requestId : Nat
  outcome : RequestOutcome
  finalState : RequestState
  cancelReason : Option CancelReason
  responseStatus : Option Nat
  responseBytes : Nat
  diagnostics : List RuntimeDiagnostic
  deriving DecidableEq

-- Cleanups are kept newest first. `ran` and `receipts` are what has been run and what the sink was given.
structure RequestScope where
  requestId : Nat
  limits : RequestLimits
  state : RequestState
  outcome : RequestOutcome
  cancelReason : Option CancelReason
  cancellation : Bool
  completion : Bool
  cleanups : List Cleanup
  internalCleanups : List InternalCleanup
  diagnostics : List RuntimeDiagnostic
  responseStatus : Option Nat
  responseBytes : Nat
  receiptRecorded : Bool
  ran : List Ran
  receipts : List RuntimeReceipt

namespace RequestScope

def opened (requestId : Nat) (limits : RequestLimits) : RequestScope where
  requestId := requestId
  limits := limits
  state := .accepted
  outcome := .pending
  cancelReason := none
  cancellation := false
  completion := false
  cleanups := []
  internalCleanups := []
  diagnostics := []
  responseStatus := none
  responseBytes := 0
  receiptRecorded := false
  ran := []
  receipts := []

variable (scope : RequestScope)

def registerCleanup (cleanup : Cleanup) : Except ScopeError RequestScope :=
  if scope.state = .scopeDraining ∨ scope.state = .closed then
    .error .scopeClosed
  else if scope.limits.maxCleanups ≤ scope.cleanups.length then
    .error (.cleanupLimit scope.limits.maxCleanups)
  else
    .ok { scope with cleanups := cleanup :: scope.cleanups }

def registerInternalCleanup (cleanup : InternalCleanup) : Except ScopeError RequestScope :=
  if scope.state = .scopeDraining ∨ scope.state = .closed then
    .error .scopeClosed
  else
    .ok { scope with internalCleanups := cleanup :: scope.internalCleanups }

def transition (next : RequestState) : Except ScopeError RequestScope :=
  if transitionAllowed scope.state next then
    .ok { scope with state := next }
  else
    .error (.invalidTransition scope.state next)

-- `let _ = self.transition(next)`.
def tryTransition (next : RequestState) : RequestScope :=
  if transitionAllowed scope.state next then { scope with state := next } else scope

def pushDiagnostic (diagnostic : RuntimeDiagnostic) : RequestScope :=
  if scope.diagnostics.length < scope.limits.maxDiagnostics then
    { scope with diagnostics := scope.diagnostics ++ [diagnostic] }
  else
    scope

def pushInternalDiagnostic (code message : String) : RequestScope :=
  match RuntimeDiagnostic.new code message with
  | .ok diagnostic => scope.pushDiagnostic diagnostic
  | .error _ => scope

def commitResponse (status : Nat) : Except ScopeError RequestScope :=
  (scope.transition .responseCommitted).map fun scope => { scope with responseStatus := some status }

def settle (outcome : RequestOutcome) : RequestScope :=
  if scope.outcome = .pending then { scope with outcome } else scope

def reject (diagnostic : RuntimeDiagnostic) : RequestScope :=
  ((scope.pushDiagnostic diagnostic).settle .rejected).tryTransition .rejected

def fail (diagnostic : RuntimeDiagnostic) : RequestScope :=
  ((scope.pushDiagnostic diagnostic).settle .failed).tryTransition .failed

def cancel (reason : CancelReason) : RequestScope :=
  if scope.state = .scopeDraining ∨ scope.state = .closed then
    scope
  else
    let scope : RequestScope := { scope with cancelReason := scope.cancelReason.or (some reason) }
    let scope : RequestScope := { scope.settle .cancelled with cancellation := true }
    if scope.state = .rejected ∨ scope.state = .failed then scope else scope.tryTransition .cancelled

-- The counter has already grown when the limit is checked.
def addResponseBytes (bytes : Nat) : RequestScope × Except ScopeError Unit :=
  let total := scope.responseBytes + bytes
  let scope := { scope with responseBytes := total }
  if scope.limits.maxResponseBytes < total then
    let scope := scope.pushInternalDiagnostic "PLG-RUN-105"
      ("response body reached " ++ toString total ++ " bytes; maximum is "
        ++ toString scope.limits.maxResponseBytes)
    (scope.cancel .responseBodyLimit, .error (.responseBodyLimit total scope.limits.maxResponseBytes))
  else
    (scope, .ok ())

def runCleanup (reason : Option CancelReason) (scope : RequestScope) (cleanup : Cleanup) : RequestScope :=
  let scope := { scope with ran := scope.ran ++ [.user cleanup.id reason] }
  match cleanup.run reason with
  | .done => scope
  | .failed message =>
    scope.pushInternalDiagnostic "PLG-RUN-302" ("request cleanup failed: " ++ bounded message 320)
  | .panicked => scope.pushInternalDiagnostic "PLG-RUN-303" "request cleanup panicked"

def runInternalCleanup (scope : RequestScope) (cleanup : InternalCleanup) : RequestScope :=
  let scope := { scope with ran := scope.ran ++ [.internal cleanup] }
  match cleanup with
  | .closeData true => scope.pushInternalDiagnostic "PLG-RUN-306" "internal request cleanup panicked"
  | _ => scope

def receipt : RuntimeReceipt where
  requestId := scope.requestId
  outcome := scope.outcome
  finalState := scope.state
  cancelReason := scope.cancelReason
  responseStatus := scope.responseStatus
  responseBytes := scope.responseBytes
  diagnostics := scope.diagnostics

def recordReceiptOnce : RequestScope :=
  if scope.receiptRecorded then
    scope
  else
    { scope with receiptRecorded := true, receipts := scope.receipts ++ [scope.receipt] }

def drainAndClose : RequestScope :=
  if scope.state = .closed then
    scope
  else
    let scope := scope.tryTransition .scopeDraining
    let scope := scope.cleanups.foldl (runCleanup scope.cancelReason) { scope with cleanups := [] }
    let scope := scope.internalCleanups.foldl runInternalCleanup { scope with internalCleanups := [] }
    let scope := scope.tryTransition .closed
    recordReceiptOnce { scope with completion := true }

def completeSuccess : RequestScope := (scope.settle .success).drainAndClose

section Spec

variable {scope : RequestScope}

theorem pushDiagnostic_eq (diagnostic : RuntimeDiagnostic)
    : ∃ diagnostics, scope.pushDiagnostic diagnostic = { scope with diagnostics } := by
  unfold pushDiagnostic
  split
  . exact ⟨_, rfl⟩
  . exact ⟨_, rfl⟩

theorem pushInternalDiagnostic_eq (code message : String)
    : ∃ diagnostics, scope.pushInternalDiagnostic code message = { scope with diagnostics } := by
  unfold pushInternalDiagnostic
  split
  . exact pushDiagnostic_eq _
  . exact ⟨_, rfl⟩

theorem settle_eq (outcome : RequestOutcome)
    : scope.settle outcome
      = { scope with outcome := if scope.outcome = .pending then outcome else scope.outcome } := by
  unfold settle
  split
  . rfl
  . rfl

theorem tryTransition_eq (next : RequestState)
    : scope.tryTransition next
      = { scope with state := if transitionAllowed scope.state next then next else scope.state } := by
  unfold tryTransition
  split
  . rfl
  . rfl

theorem transition_eq_ok {next : RequestState} {result : RequestScope}
    : scope.transition next = .ok result
      ↔ transitionAllowed scope.state next = true ∧ result = { scope with state := next } := by
  unfold transition
  split
  . next h =>
    rw [Except.ok.injEq]
    exact ⟨fun hsame => ⟨h, hsame.symm⟩, fun hsame => hsame.2.symm⟩
  . next h =>
    apply iff_of_false
    . intro hok
      cases hok
    . exact fun hok => h hok.1

theorem commitResponse_eq_ok {status : Nat} {result : RequestScope}
    : scope.commitResponse status = .ok result
      ↔ transitionAllowed scope.state .responseCommitted = true
        ∧ result = { scope with state := .responseCommitted, responseStatus := some status } := by
  unfold commitResponse
  cases htransition : scope.transition .responseCommitted with
  | error error =>
    apply iff_of_false
    . intro hok
      cases hok
    . intro hok
      have hsome := transition_eq_ok.mpr ⟨hok.1, rfl⟩
      rw [htransition] at hsome
      cases hsome
  | ok committed =>
    obtain ⟨hallowed, rfl⟩ := transition_eq_ok.mp htransition
    rw [Except.map, Except.ok.injEq]
    exact ⟨fun hsame => ⟨hallowed, hsame.symm⟩, fun hsame => hsame.2.symm⟩

-- The state after a report of `target`, which is `rejected` or `failed`.
def reported (scope : RequestScope) (target : RequestState) (outcome : RequestOutcome) : RequestScope :=
  { scope with
    state := if transitionAllowed scope.state target then target else scope.state
    outcome := if scope.outcome = .pending then outcome else scope.outcome }

theorem reject_eq (diagnostic : RuntimeDiagnostic)
    : ∃ diagnostics, scope.reject diagnostic = { scope.reported .rejected .rejected with diagnostics } := by
  obtain ⟨diagnostics, hpush⟩ := @pushDiagnostic_eq scope diagnostic
  refine ⟨diagnostics, ?_⟩
  unfold reject reported
  rw [hpush, settle_eq, tryTransition_eq]

theorem fail_eq (diagnostic : RuntimeDiagnostic)
    : ∃ diagnostics, scope.fail diagnostic = { scope.reported .failed .failed with diagnostics } := by
  obtain ⟨diagnostics, hpush⟩ := @pushDiagnostic_eq scope diagnostic
  refine ⟨diagnostics, ?_⟩
  unfold fail reported
  rw [hpush, settle_eq, tryTransition_eq]

theorem cancel_eq (reason : CancelReason) (hdraining : scope.state ≠ .scopeDraining) (hclosed : scope.state ≠ .closed)
    : ∃ state, scope.cancel reason
        = { scope with
            state
            outcome := if scope.outcome = .pending then .cancelled else scope.outcome
            cancelReason := scope.cancelReason.or (some reason)
            cancellation := true }
      ∧ (state = scope.state ∨ transitionAllowed scope.state .cancelled = true ∧ state = .cancelled) := by
  unfold cancel
  rw [if_neg (by simp [hdraining, hclosed])]
  dsimp only
  rw [settle_eq]
  dsimp only
  split
  . exact ⟨_, rfl, .inl rfl⟩
  . rw [tryTransition_eq]
    dsimp only
    split
    . next hallowed => exact ⟨_, rfl, .inr ⟨hallowed, rfl⟩⟩
    . exact ⟨_, rfl, .inl rfl⟩

theorem addResponseBytes_fits {bytes : Nat} (h : scope.responseBytes + bytes ≤ scope.limits.maxResponseBytes)
    : scope.addResponseBytes bytes = ({ scope with responseBytes := scope.responseBytes + bytes }, .ok ()) := by
  unfold addResponseBytes
  exact if_neg (not_lt.mpr h)

theorem addResponseBytes_exceeds {bytes : Nat} (h : scope.limits.maxResponseBytes < scope.responseBytes + bytes)
    : ∃ diagnostics error, scope.addResponseBytes bytes
      = (({ scope with responseBytes := scope.responseBytes + bytes, diagnostics }
          : RequestScope).cancel .responseBodyLimit, .error error) := by
  obtain ⟨diagnostics, hpush⟩ := @pushInternalDiagnostic_eq
    { scope with responseBytes := scope.responseBytes + bytes } "PLG-RUN-105"
    ("response body reached " ++ toString (scope.responseBytes + bytes) ++ " bytes; maximum is "
      ++ toString scope.limits.maxResponseBytes)
  refine ⟨diagnostics, .responseBodyLimit (scope.responseBytes + bytes) scope.limits.maxResponseBytes, ?_⟩
  unfold addResponseBytes
  dsimp only
  rw [if_pos h, hpush]

theorem runCleanups_eq (reason : Option CancelReason) (cleanups : List Cleanup)
    : ∃ diagnostics, cleanups.foldl (runCleanup reason) scope
        = { scope with ran := scope.ran ++ cleanups.map (fun cleanup => .user cleanup.id reason), diagnostics } := by
  induction cleanups generalizing scope with
  | nil => exact ⟨scope.diagnostics, by simp⟩
  | cons cleanup rest ih =>
    have hone : ∃ diagnostics, runCleanup reason scope cleanup
        = { scope with ran := scope.ran ++ [.user cleanup.id reason], diagnostics } := by
      unfold runCleanup
      dsimp only
      split
      . exact ⟨_, rfl⟩
      . exact pushInternalDiagnostic_eq _ _
      . exact pushInternalDiagnostic_eq _ _
    obtain ⟨diagnostics, hone⟩ := hone
    obtain ⟨diagnostics', hrest⟩ := @ih { scope with ran := scope.ran ++ [.user cleanup.id reason], diagnostics }
    refine ⟨diagnostics', ?_⟩
    rw [List.foldl_cons, hone, hrest, List.map_cons, List.append_assoc, List.singleton_append]

theorem runInternalCleanups_eq (cleanups : List InternalCleanup)
    : ∃ diagnostics, cleanups.foldl runInternalCleanup scope
        = { scope with ran := scope.ran ++ cleanups.map .internal, diagnostics } := by
  induction cleanups generalizing scope with
  | nil => exact ⟨scope.diagnostics, by simp⟩
  | cons cleanup rest ih =>
    have hone : ∃ diagnostics, runInternalCleanup scope cleanup
        = { scope with ran := scope.ran ++ [.internal cleanup], diagnostics } := by
      unfold runInternalCleanup
      dsimp only
      split
      . exact pushInternalDiagnostic_eq _ _
      . exact ⟨_, rfl⟩
    obtain ⟨diagnostics, hone⟩ := hone
    obtain ⟨diagnostics', hrest⟩ := @ih { scope with ran := scope.ran ++ [.internal cleanup], diagnostics }
    refine ⟨diagnostics', ?_⟩
    rw [List.foldl_cons, hone, hrest, List.map_cons, List.append_assoc, List.singleton_append]

def due (scope : RequestScope) : List Ran :=
  scope.cleanups.map (fun cleanup => .user cleanup.id scope.cancelReason) ++ scope.internalCleanups.map .internal

theorem drainAndClose_eq (hallowed : transitionAllowed scope.state .scopeDraining = true)
    (hreceipt : scope.receiptRecorded = false)
    : ∃ receipt diagnostics, scope.drainAndClose
        = { scope with
            state := .closed
            completion := true
            cleanups := []
            internalCleanups := []
            diagnostics
            ran := scope.ran ++ scope.due
            receiptRecorded := true
            receipts := scope.receipts ++ [receipt] }
      ∧ receipt.requestId = scope.requestId ∧ receipt.outcome = scope.outcome ∧ receipt.finalState = .closed
      ∧ receipt.cancelReason = scope.cancelReason ∧ receipt.responseStatus = scope.responseStatus
      ∧ receipt.responseBytes = scope.responseBytes := by
  have hopen : scope.state ≠ .closed := by
    intro hclosed
    rw [hclosed] at hallowed
    cases hallowed
  unfold drainAndClose
  rw [if_neg hopen, tryTransition_eq, if_pos hallowed]
  dsimp only
  obtain ⟨diagnostics, husers⟩ := @runCleanups_eq { scope with state := .scopeDraining, cleanups := [] }
    scope.cancelReason scope.cleanups
  rw [husers]
  dsimp only
  obtain ⟨diagnostics', hinternal⟩ := @runInternalCleanups_eq
    { scope with
      state := .scopeDraining
      cleanups := []
      internalCleanups := []
      ran := scope.ran ++ scope.cleanups.map (fun cleanup => .user cleanup.id scope.cancelReason)
      diagnostics }
    scope.internalCleanups
  have hclose : transitionAllowed .scopeDraining .closed = true := rfl
  rw [hinternal, tryTransition_eq]
  dsimp only
  rw [hclose, if_pos (c := true = true) rfl]
  unfold recordReceiptOnce due
  dsimp only
  rw [hreceipt, if_neg Bool.false_ne_true, List.append_assoc]
  exact ⟨_, _, rfl, rfl, rfl, rfl, rfl, rfl, rfl⟩

end Spec

end RequestScope

end Native

end Pliego
