import Pliego.Native.Scope
import Pliego.Router.Graph

/-!
What a layer of middleware may do to the request that it forwards and to the response that leaves it, by the
capabilities declared for it, and the response of the runtime where it did more.
-/

namespace Pliego

open Router (MiddlewareCapability MiddlewareCapabilities)

namespace Native

-- Scheme and authority are compared without their case: they stand here in lower case.
structure Uri where
  scheme : Option String
  authority : Option String
  path : String
  query : Option String
  deriving DecidableEq

-- `tracker` is the read tracker among the extensions, by its address. `tracked` tells whether the body is the one
-- that came in.
structure Request where
  method : String
  uri : Uri
  tracker : Option Nat
  tracked : Bool

inductive Payload where
  | text (text : String)
  | foreign (id : Nat)
  deriving DecidableEq

structure Response where
  status : Nat
  headers : SortedMap String (List String)
  body : Payload
  deriving DecidableEq

def isSuccess (status : Nat) : Bool := 200 ≤ status && status < 300

def isRedirection (status : Nat) : Bool := 300 ≤ status && status < 400

def isClientError (status : Nat) : Bool := 400 ≤ status && status < 500

def isServerError (status : Nat) : Bool := 500 ≤ status && status < 600

structure HandlerError where
  status : Nat
  diagnostic : RuntimeDiagnostic

def middlewareCapabilityError (message : String) : HandlerError := ⟨500, ⟨"PLG-RUN-507", bounded message 320⟩⟩

def validateForwardedRequest (original request : Request) (capabilities : MiddlewareCapabilities)
    (tracker reads readsAtEntry : Nat) : Except HandlerError Unit :=
  if request.tracker ≠ some tracker then
    .error (middlewareCapabilityError "middleware removed or replaced the request body tracker")
  else if readsAtEntry < reads ∧ .readBody ∉ capabilities then
    .error (middlewareCapabilityError "middleware read the request body without read-body")
  else if request.method ≠ original.method then
    .error (middlewareCapabilityError "middleware changed the request method")
  else if request.uri = original.uri then
    .ok ()
  else if .rewritePath ∉ capabilities then
    .error (middlewareCapabilityError "middleware rewrote the request without rewrite-path")
  else if request.uri.scheme ≠ original.uri.scheme ∨ request.uri.authority ≠ original.uri.authority
      ∨ request.uri.query ≠ original.uri.query then
    .error (middlewareCapabilityError "rewrite-path cannot change scheme, authority, or query")
  else
    .ok ()

structure ResponseObservation where
  status : Nat
  headers : SortedMap String (List String)
  deriving DecidableEq

def Response.observation (response : Response) : ResponseObservation := ⟨response.status, response.headers⟩

structure MiddlewareEnforcement where
  capabilities : MiddlewareCapabilities
  nextCalled : Bool
  downstream : Option ResponseObservation
  readsAtEntry : Nat

-- `display` is the text that `http` has for a status.
def requireStatusCapability (display : Nat → String) (status : Nat) (capabilities : MiddlewareCapabilities)
    : Except HandlerError Unit :=
  let required : Option MiddlewareCapability :=
    if isRedirection status then some .redirect
    else if isClientError status || isServerError status then some .reject
    else none
  match required with
  | some required =>
    if required ∉ capabilities then
      .error (middlewareCapabilityError ("middleware returned " ++ display status ++ " without " ++ required.asStr))
    else
      .ok ()
  | none => .ok ()

def validateResponseEffects (display : Nat → String) (response : Response)
    (enforcement : Option MiddlewareEnforcement) (reads : Nat) : Except HandlerError Response := do
  match enforcement with
  | none => .ok response
  | some enforcement =>
    if !enforcement.nextCalled then
      if enforcement.readsAtEntry < reads ∧ .readBody ∉ enforcement.capabilities then
        .error (middlewareCapabilityError "middleware read the request body without read-body")
      else
        requireStatusCapability display response.status enforcement.capabilities
        .ok response
    else
      match enforcement.downstream with
      | none => .ok response
      | some downstream =>
        if response.headers ≠ downstream.headers ∧ .mutateResponseHeaders ∉ enforcement.capabilities then
          .error (middlewareCapabilityError "middleware changed response headers without mutate-response-headers")
        else if response.status ≠ downstream.status then
          requireStatusCapability display response.status enforcement.capabilities
          if !isRedirection response.status && !isClientError response.status && !isServerError response.status then
            .error (middlewareCapabilityError "middleware changed the downstream success status")
          else
            .ok response
        else
          .ok response

inductive PublicErrorClass where
  | notFound
  | unauthorizedOrForbidden
  | invalidRequest
  | internalFailure
  deriving DecidableEq

structure PublicError where
  errorClass : PublicErrorClass
  status : Nat
  code : String

def publicHandlerError (error : HandlerError) : PublicError where
  errorClass :=
    if error.status = 404 then .notFound
    else if error.status = 401 ∨ error.status = 403 then .unauthorizedOrForbidden
    else if isClientError error.status then .invalidRequest
    else .internalFailure
  status := if isClientError error.status || isServerError error.status then error.status else 500
  code := error.diagnostic.code

def plainErrorResponse (status : Nat) (code : String) : Response where
  status := status
  headers := .singleton "content-type" ["text/plain; charset=utf-8"]
  body := .text (code ++ "\n")

def plainCancelledResponse (reason : Option CancelReason) : Response :=
  match reason with
  | some .deadline => plainErrorResponse 504 "PLG-RUN-408"
  | some .shutdown => plainErrorResponse 503 "PLG-RUN-503"
  | _ => plainErrorResponse 408 "PLG-RUN-499"

-- What comes of the call of an error boundary.
inductive BoundaryRun where
  | panicked
  | cancelled (reason : Option CancelReason)
  | failed (error : HandlerError)
  | answered (response : Response)

-- The response of `recover_error`: the boundaries from the innermost outwards, then the plain error.
def recoverError (boundaries : List BoundaryRun) (error : PublicError) : Response :=
  match boundaries with
  | [] => plainErrorResponse error.status error.code
  | .cancelled reason :: _ => plainCancelledResponse reason
  | .answered response :: rest => if response.status = error.status then response else recoverError rest error
  | _ :: rest => recoverError rest error

end Native

end Pliego
