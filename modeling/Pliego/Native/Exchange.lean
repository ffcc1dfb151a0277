import Pliego.Lib.Reach
import Pliego.Native.Body

/-!
One request from its admission to the end of its response: the dispatch future with its await points, the chain
behind it, the body that is handed over, and what others do to the scope in between. A step is one call on the
scope.
-/

namespace Pliego

namespace Native

inductive AdmissionError where
  | draining
  | overloaded
  | internal (error : ScopeError)
  deriving DecidableEq

-- Where the dispatch future stands: before its first await, or awaiting the answer to a refused head or the chain of
-- middleware.
inductive Point where
  | offered
  | heads
  | refused
  | running
  deriving DecidableEq

-- Where the chain behind the head of a request stands. A layer can let go of it, so that it goes on by itself.
inductive Chain where
  | idle
  | layers
  | resolving
  | opening
  | ready
  | routed
  deriving DecidableEq

-- `gone` has the body that was dropped, if the response brought it; `abandoned` is a future that was dropped before
-- its response.
inductive Stage where
  | dispatching (point : Point)
  | committing (response : Delivery) (terminal : Bool)
  | streaming (body : ScopedBody)
  | gone (body : Option ScopedBody)
  | abandoned

-- With what has been registered, newest first, the bytes that the consumer was given and whether the request was
-- rejected, failed or cancelled.
structure Exchange where
  scope : RequestScope
  stage : Stage
  chain : Chain
  users : List Cleanup
  internals : List InternalCleanup
  handed : Nat
  disturbed : Bool

inductive Act where
  | admission (answer : Except AdmissionError Unit)
  | admitHead
  | refuseHead (diagnostic : RuntimeDiagnostic)
  | route
  | openScope
  | openData (result : Except RuntimeDiagnostic Bool)
  | runHandler
  | report (internalFailure : Bool) (diagnostic : RuntimeDiagnostic)
  | register (cleanup : Cleanup)
  | respond (response : Delivery)
  | commit
  | cancel (reason : CancelReason)
  | poll (ready : Bool)
  | drop

namespace Exchange

-- Nothing changes the fate of a scope that drains or is closed.
def disturb (exchange : Exchange) : Bool :=
  exchange.disturbed || !(exchange.scope.state = .scopeDraining || exchange.scope.state = .closed)

def failed (exchange : Exchange) (diagnostic : RuntimeDiagnostic) : Exchange :=
  { exchange with scope := exchange.scope.fail diagnostic, disturbed := exchange.disturb }

def rejected (exchange : Exchange) (diagnostic : RuntimeDiagnostic) : Exchange :=
  { exchange with scope := exchange.scope.reject diagnostic, disturbed := exchange.disturb }

def cancelled (exchange : Exchange) (reason : CancelReason) : Exchange :=
  { exchange with scope := exchange.scope.cancel reason, disturbed := exchange.disturb }

-- A committed response brings its body; the fallback response has nothing to do with the scope.
def carry (exchange : Exchange) (result : RequestScope × Except ScopeError ScopedBody) : Exchange :=
  match result with
  | (scope, .ok body) => { exchange with scope, stage := .streaming body }
  | (scope, .error _) => { exchange with scope, stage := .gone none, disturbed := exchange.disturb }

def lifecycleFailure : RuntimeDiagnostic := ⟨"PLG-RUN-500", "request lifecycle entered an invalid transition"⟩

-- `wrap_handler_response` looks at the cancellation first and commits then.
def respond (exchange : Exchange) (response : Delivery) : Exchange :=
  { exchange with stage := .committing response exchange.scope.cancellation }

def arrive (requestId : Nat) (limits : RequestLimits) : Exchange where
  scope := .opened requestId limits
  stage := .dispatching .offered
  chain := .idle
  users := []
  internals := []
  handed := 0
  disturbed := false

def answered (exchange : Exchange) (result : Except AdmissionError Unit) : Exchange :=
  match result with
  | .ok () => { exchange with stage := .dispatching .heads }
  | .error .draining =>
    let exchange := exchange.rejected ⟨"PLG-RUN-503", "runtime is draining and cannot admit new requests"⟩
    exchange.carry (scopedResponse exchange.scope 503 "PLG-RUN-503")
  | .error .overloaded =>
    let exchange := exchange.rejected ⟨"PLG-RUN-107", "concurrent request limit reached"⟩
    exchange.carry (scopedResponse exchange.scope 503 "PLG-RUN-107")
  | .error (.internal error) =>
    let exchange := exchange.failed ⟨error.code, bounded error.display 320⟩
    exchange.carry (scopedResponse exchange.scope 500 error.code)

-- `answer` is what the registry says once the removal from it has been registered.
def admission (exchange : Exchange) (answer : Except AdmissionError Unit) : Exchange :=
  match exchange.scope.registerInternalCleanup .removeRequest with
  | .ok scope => answered { exchange with scope, internals := .removeRequest :: exchange.internals } answer
  | .error error => exchange.answered (.error (.internal error))

def admitHead (exchange : Exchange) : Exchange :=
  match exchange.scope.transition .headAdmitted with
  | .ok scope => { exchange with scope, stage := .dispatching .running, chain := .layers }
  | .error _ => (exchange.failed lifecycleFailure).respond ⟨500, .text ((Bytes.utf8 "PLG-RUN-500").length + 1)⟩

def moveTo (exchange : Exchange) (next : RequestState) (chain : Chain) : Exchange :=
  match exchange.scope.transition next with
  | .ok scope => { exchange with scope, chain }
  | .error _ => { exchange.failed lifecycleFailure with chain := .routed }

def openData (exchange : Exchange) (result : Except RuntimeDiagnostic Bool) : Exchange :=
  match result with
  | .error diagnostic => { exchange.failed diagnostic with chain := .routed }
  | .ok panics =>
    match exchange.scope.registerInternalCleanup (.closeData panics) with
    | .ok scope => { exchange with scope, chain := .ready, internals := .closeData panics :: exchange.internals }
    | .error error => { exchange.failed ⟨error.code, bounded error.display 320⟩ with chain := .routed }

def register (exchange : Exchange) (cleanup : Cleanup) : Exchange :=
  match exchange.scope.registerCleanup cleanup with
  | .ok scope => { exchange with scope, users := cleanup :: exchange.users }
  | .error _ => exchange

def pollBody (exchange : Exchange) (body : ScopedBody) (ready : Bool) : Exchange :=
  match body.pollFrame exchange.scope ready with
  | (.frame (.data bytes), body, scope) =>
    { exchange with scope, stage := .streaming body, handed := exchange.handed + bytes }
  | (.error, body, scope) => { exchange with scope, stage := .streaming body, disturbed := true }
  | (_, body, scope) => { exchange with scope, stage := .streaming body }

def dropBody (exchange : Exchange) (body : ScopedBody) : Exchange :=
  let (body, scope) := body.drop exchange.scope
  { exchange with scope, stage := .gone (some body) }

def step (exchange : Exchange) (act : Act) : Option Exchange :=
  match act, exchange.chain, exchange.stage with
  | .cancel reason, _, _ => some (exchange.cancelled reason)
  | .register cleanup, _, _ => some (exchange.register cleanup)
  | .route, .layers, _ => some (exchange.moveTo .routeResolved .resolving)
  | .openScope, .resolving, _ => some (exchange.moveTo .scopeOpen .opening)
  | .openData result, .opening, _ => some (exchange.openData result)
  | .runHandler, .ready, _ => some (exchange.moveTo .handlerRunning .routed)
  | .report _ _, .idle, .dispatching .offered | .report _ _, .idle, .dispatching .heads => none
  | .report true diagnostic, _, _ => some (exchange.failed diagnostic)
  | .report false diagnostic, _, _ => some (exchange.rejected diagnostic)
  | .admission answer, _, .dispatching .offered => some (exchange.admission answer)
  | .admitHead, _, .dispatching .heads => some exchange.admitHead
  | .refuseHead diagnostic, _, .dispatching .heads =>
    some { exchange.rejected diagnostic with stage := .dispatching .refused }
  | .respond _, _, .dispatching .offered | .respond _, _, .dispatching .heads => none
  | .respond response, _, .dispatching _ => some (exchange.respond response)
  | .commit, _, .committing response terminal =>
    some (exchange.carry (wrapHandlerResponse exchange.scope response terminal))
  | .poll ready, _, .streaming body => some (exchange.pollBody body ready)
  | .drop, _, .dispatching .offered | .drop, _, .dispatching .heads => none
  | .drop, _, .dispatching _ => some { exchange with stage := .abandoned }
  | .drop, _, .streaming body => some (exchange.dropBody body)
  | _, _, _ => none

def delivered (exchange : Exchange) : Bool :=
  match exchange.stage with
  | .streaming body => (body.inner.items body.inner.position).isNone
  | .gone (some body) => (body.inner.items body.inner.position).isNone
  | _ => false

end Exchange

end Native

end Pliego
