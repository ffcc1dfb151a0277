import Pliego.Native.Scope

/-!
The body that carries a response out of the runtime.
-/

namespace Pliego

namespace Native

inductive BodyFrame where
  | data (bytes : Nat)
  | trailers

inductive BodyItem where
  | frame (frame : BodyFrame)
  | error

-- The body of a handler: what it yields at each position, `none` where it ends, and whether it announces its end
-- before it is polled for it.
structure InnerBody where
  items : Nat → Option BodyItem
  position : Nat
  announcesEnd : Bool

def InnerBody.isEndStream (body : InnerBody) : Bool := (body.items body.position).isNone && body.announcesEnd

inductive PollResult where
  | pending
  | frame (frame : BodyFrame)
  | error
  | done

structure ScopedBody where
  inner : InnerBody
  allowCancelled : Bool
  started : Bool
  finished : Bool

namespace ScopedBody

def new (inner : InnerBody) (allowCancelled : Bool) : ScopedBody := ⟨inner, allowCancelled, false, false⟩

def finish (body : ScopedBody) (scope : RequestScope) (success : Bool) : ScopedBody × RequestScope :=
  if body.finished then
    (body, scope)
  else
    ({ body with finished := true }, if success then scope.completeSuccess else scope.drainAndClose)

def start (body : ScopedBody) (scope : RequestScope) : ScopedBody × RequestScope :=
  if body.started then (body, scope) else ({ body with started := true }, scope.tryTransition .bodyStreaming)

-- `ready` tells whether the body of the handler has anything to yield yet.
def pollFrame (body : ScopedBody) (scope : RequestScope) (ready : Bool) : PollResult × ScopedBody × RequestScope :=
  if body.finished then
    (.done, body, scope)
  else if !body.allowCancelled && scope.cancellation then
    (.error, body.finish scope false)
  else if !ready then
    (.pending, body, scope)
  else
    match body.inner.items body.inner.position with
    | some (.frame frame) =>
      let body := { body with inner := { body.inner with position := body.inner.position + 1 } }
      let (body, scope) := body.start scope
      match frame with
      | .data bytes =>
        match scope.addResponseBytes bytes with
        | (scope, .error _) => (.error, body.finish scope false)
        | (scope, .ok ()) => (.frame frame, body, scope)
      | .trailers => (.frame frame, body, scope)
    | some .error =>
      (.error, body.finish (scope.fail ⟨"PLG-RUN-501", "response body stream failed"⟩) false)
    | none => (.done, body.finish scope true)

def isEndStream (body : ScopedBody) : Bool := body.finished || body.inner.isEndStream

def drop (body : ScopedBody) (scope : RequestScope) : ScopedBody × RequestScope :=
  if body.finished then
    (body, scope)
  else
    body.finish (if scope.outcome = .pending then scope.cancel .clientDisconnect else scope) false

end ScopedBody

def RequestState.debug (state : RequestState) : String :=
  match state with
  | .accepted => "Accepted"
  | .headAdmitted => "HeadAdmitted"
  | .routeResolved => "RouteResolved"
  | .scopeOpen => "ScopeOpen"
  | .handlerRunning => "HandlerRunning"
  | .responseCommitted => "ResponseCommitted"
  | .bodyStreaming => "BodyStreaming"
  | .rejected => "Rejected"
  | .cancelled => "Cancelled"
  | .failed => "Failed"
  | .scopeDraining => "ScopeDraining"
  | .closed => "Closed"

def ScopeError.display (error : ScopeError) : String :=
  match error with
  | .invalidDiagnosticCode code => "invalid diagnostic code \"" ++ code ++ "\""
  | .invalidDiagnosticMessage => "invalid diagnostic message"
  | .invalidTransition source target => "invalid request transition " ++ source.debug ++ " -> " ++ target.debug
  | .scopeClosed => "request scope is already draining or closed"
  | .cleanupLimit maximum => "request cleanup limit reached: " ++ toString maximum
  | .responseBodyLimit actual maximum =>
    "response body reached " ++ toString actual ++ " bytes; maximum is " ++ toString maximum

def commitResponseOrClose (scope : RequestScope) (status : Nat) : RequestScope × Except ScopeError Unit :=
  match scope.commitResponse status with
  | .ok scope => (scope, .ok ())
  | .error error => ((scope.fail ⟨error.code, bounded error.display 320⟩).drainAndClose, .error error)

structure Delivery where
  status : Nat
  body : InnerBody

-- `terminal` is what `is_cancelled` said before.
def wrapHandlerResponse (scope : RequestScope) (response : Delivery) (terminal : Bool)
    : RequestScope × Except ScopeError ScopedBody :=
  match commitResponseOrClose scope response.status with
  | (scope, .ok ()) => (scope, .ok (.new response.body terminal))
  | (scope, .error error) => (scope, .error error)

-- `Body::from` of a text: one frame, whose end is known.
def InnerBody.text (bytes : Nat) : InnerBody where
  items position := if position = 0 then some (.frame (.data bytes)) else none
  position := 0
  announcesEnd := true

def scopedResponse (scope : RequestScope) (status : Nat) (code : String)
    : RequestScope × Except ScopeError ScopedBody :=
  let body := InnerBody.text ((Bytes.utf8 code).length + 1)
  if scope.state = .responseCommitted ∨ scope.state = .bodyStreaming then
    (scope, .ok (.new body true))
  else
    match commitResponseOrClose scope status with
    | (scope, .ok ()) => (scope, .ok (.new body true))
    | (scope, .error error) => (scope, .error error)

end Native

end Pliego
