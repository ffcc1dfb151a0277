import Pliego.Data.Cleanups
import Pliego.Data.Grants
import Pliego.Log.CanonicalValue

/-!
The loader calls of a data context. They share cells under the hash of their invocation, and each goes from one await
point or lock section to the next.
-/

namespace Pliego

open Bytes JsonText Sorting CanonicalJson

namespace Data

def DataError.code (error : DataError) : String :=
  match error with
  | .invalidStableId _ => "PLG-DAT-001"
  | .duplicateResource _ => "PLG-DAT-002"
  | .resourceUnavailable _ => "PLG-DAT-101"
  | .resourceTypeMismatch _ => "PLG-DAT-102"
  | .missingCapability _ _ => "PLG-DAT-103"
  | .contextClosed => "PLG-DAT-104"
  | .requestValues _ => "PLG-DAT-105"
  | .policyNotGranted _ => "PLG-DAT-106"
  | .invalidLoaderPolicy _ => "PLG-DAT-200"
  | .loaderInput _ => "PLG-DAT-201"
  | .loaderOutput _ _ => "PLG-DAT-202"
  | .cancelled | .deadline => "PLG-DAT-408"
  | .loaderFailure _ | .serialization => "PLG-DAT-500"
  | .actionAdmission _ => "PLG-ACT-101"
  | .actionInput _ => "PLG-ACT-201"
  | .actionOutput _ _ => "PLG-ACT-202"
  | .invalidActionState _ => "PLG-ACT-301"
  | .actionOutcomeUnknown => "PLG-ACT-409"
  | .actionIdempotencyConflict => "PLG-ACT-409"
  | .actionInProgress => "PLG-ACT-425"
  | .actionFailure _ => "PLG-ACT-500"
  | .cleanupLimit _ => "PLG-DAT-501"

def identityGrammar (value : String) : Bool :=
  let bytes := utf8 value
  !bytes.isEmpty
    && bytes.length ≤ 128
    && bytes.all (fun byte => isAsciiAlphanumeric byte || byte == 45 || byte == 95 || byte == 46 || byte == 58)

structure DataIdentityError where
  field : String
  value : String

structure DataIdentity where
  requestId : String
  routeId : String
  deploymentId : String
  validRequest : identityGrammar requestId = true
  validRoute : identityGrammar routeId = true
  validDeployment : identityGrammar deploymentId = true

def DataIdentity.new (requestId routeId deploymentId : String) : Except DataIdentityError DataIdentity :=
  if hrequest : identityGrammar requestId = true then
    if hroute : identityGrammar routeId = true then
      if hdeployment : identityGrammar deploymentId = true then
        .ok ⟨requestId, routeId, deploymentId, hrequest, hroute, hdeployment⟩
      else
        .error ⟨"deployment_id", deploymentId⟩
    else
      .error ⟨"route_id", routeId⟩
  else
    .error ⟨"request_id", requestId⟩

inductive DataOperation where
  | resourceLease
  | loader
  | action
  | session
  | outboundHttp
  deriving DecidableEq

inductive DataOutcome where
  | success
  | rejected
  | cancelled
  | failed
  deriving DecidableEq

inductive DataSizeBucket where
  | none
  | under1Kibibyte
  | under16Kibibytes
  | under256Kibibytes
  | atLeast256Kibibytes
  deriving DecidableEq

def DataSizeBucket.fromBytes (bytes : Nat) : DataSizeBucket :=
  if bytes = 0 then .none
  else if bytes < 1024 then .under1Kibibyte
  else if bytes < 16384 then .under16Kibibytes
  else if bytes < 262144 then .under256Kibibytes
  else .atLeast256Kibibytes

structure DataReceipt where
  operation : DataOperation
  operationId : String
  semanticRevision : Nat
  outcome : DataOutcome
  outputSizeBucket : DataSizeBucket
  deduplicated : Bool
  cancelReason : Option DataCancelReason
  diagnosticCode : Option String
  deriving DecidableEq

mutual

def writeCanonicalJson (value : Value) : List UInt8 :=
  match value with
  | .null => utf8 "null"
  | .bool true => utf8 "true"
  | .bool false => utf8 "false"
  | .number lexeme => utf8 lexeme
  | .text value => quoteText value
  | .array values => [91] ++ [44].intercalate (writeCanonicalValues values) ++ [93]
  | .object values =>
    [123] ++ [44].intercalate ((sortBy Prod.fst (writeCanonicalEntries values)).map
      fun entry => quoteText entry.1 ++ [58] ++ entry.2) ++ [125]

def writeCanonicalValues (values : List Value) : List (List UInt8) :=
  match values with
  | [] => []
  | value :: rest => writeCanonicalJson value :: writeCanonicalValues rest

def writeCanonicalEntries (values : List (String × Value)) : List (String × List UInt8) :=
  match values with
  | [] => []
  | (key, value) :: rest => (key, writeCanonicalJson value) :: writeCanonicalEntries rest

end

-- A value in memory as serde_json makes it.
structure JsonInput where
  value : Value
  unique : value.Every UniqueNames
  proper : value.Every ProperNumber
  addressable : (writeCanonicalJson value).length < 2 ^ 63

inductive LoaderInput where
  | value (json : JsonInput)
  | fails
  | panics

inductive Serialized where
  | bytes (text : List UInt8)
  | fails
  | panics
  deriving DecidableEq

def Serialized.len (serialized : Serialized) : Nat :=
  match serialized with
  | .bytes text => text.length
  | _ => 0

abbrev TypeId := Nat

structure ErasedOutput where
  type : TypeId
  serialized : Serialized
  deriving DecidableEq

abbrev LoaderResult := Except DataError ErasedOutput

def ErasedOutput.downcast (output : ErasedOutput) (type : TypeId) : LoaderResult :=
  if output.type = type then
    .ok output
  else
    .error (.loaderFailure "deduplicated output type mismatch")

def invocationFields (policy : LoaderPolicy) (input : List UInt8) (routeId : String) : List (List UInt8) :=
  [ utf8 policy.id,
    beBytes 4 policy.semanticRevision,
    utf8 policy.inputSchemaId,
    utf8 policy.outputSchemaId,
    utf8 (policy.cachePolicyId.getD ""),
    utf8 routeId,
    input ]

def invocationPreimage (policy : LoaderPolicy) (input : List UInt8) (routeId : String) : List UInt8 :=
  utf8 "pliego-loader-invocation-v1" ++ [0] ++ (invocationFields policy input routeId).flatMap lenPrefixed

def invocationKey (sha256 : Sha256) (policy : LoaderPolicy) (input : List UInt8) (routeId : String) : String :=
  encodeHex (sha256 (invocationPreimage policy input routeId)).bytes

structure LoadCall where
  policy : LoaderPolicy
  built : policy.Built
  input : LoaderInput
  outputType : TypeId

def LoadCall.key (sha256 : Sha256) (call : LoadCall) (routeId : String) : Option String :=
  match call.input with
  | .value json => some (invocationKey sha256 call.policy (writeCanonicalJson json.value) routeId)
  | _ => none

inductive CellState where
  | empty
  | running (call : Nat)
  | ready (result : LoaderResult)

/-!
The cells of a context in the order they were made. What is kept of a cell beside its state is history.
-/

structure LoaderCell where
  key : Option String
  late : Bool

structure Seat where
  cell : Nat
  deduplicated : Bool
  deriving DecidableEq

-- Where a call stands. The body of its cell is its own from `starting` to `polling`.
inductive LoadPoint where
  | entered
  | opened
  | locating
  | waiting (seat : Seat)
  | starting (seat : Seat)
  | loading (seat : Seat) (registered : Bool)
  | polling (seat : Seat)
  | finishing (seat : Seat) (result : LoaderResult)
  | returned (seat : Option Seat) (result : LoaderResult)
  | panicked
  | dropped

structure LoadTask where
  call : LoadCall
  point : LoadPoint

inductive LoadAnswer where
  | pending
  | ready (result : Except DataError Serialized)
  | panics

-- What a step meets: whether the cancellation has been notified, whether the deadline is past, what the loader does.
structure LoadReading where
  notified : Bool
  expired : Bool
  answer : LoadAnswer

inductive LoadMove where
  | call (call : LoadCall)
  | step (index : Nat) (reading : LoadReading)
  | drop (index : Nat)
  | context (move : ContextMove)
  | record (receipt : DataReceipt)

/-!
The field `completed` is history.
-/

structure DataLoads where
  identity : DataIdentity
  policyGrants : Option DataPolicyGrants
  context : CleanupContext
  cells : List LoaderCell
  states : Nat → CellState
  loaderCells : String → Option Nat
  tasks : List LoadTask
  receipts : List (Option Nat × DataReceipt)
  completed : List (Option String)

namespace DataLoads

def openLoads (identity : DataIdentity) (policyGrants : Option DataPolicyGrants) (options : DataContextOptions)
    : Except DataError DataLoads := do
  let context ← CleanupContext.openContext options
  .ok {
    identity := identity
    policyGrants := policyGrants
    context := context
    cells := []
    states := fun _ => .empty
    loaderCells := fun _ => none
    tasks := []
    receipts := []
    completed := []
  }

def requireLoaderPolicy (sha256 : Sha256) (loads : DataLoads) (policy : LoaderPolicy) : Except DataError Unit :=
  match loads.policyGrants with
  | none => .ok ()
  | some grants =>
    if !grants.permitsLoader sha256 policy then
      .error (.policyNotGranted policy.id)
    else
      .ok ()

def recordReceipt (loads : DataLoads) (index : Option Nat) (receipt : DataReceipt) : DataLoads :=
  if loads.receipts.length < loads.context.options.maxReceipts then
    { loads with receipts := loads.receipts ++ [(index, receipt)] }
  else
    loads

def goTo (loads : DataLoads) (index : Nat) (task : LoadTask) (point : LoadPoint) : DataLoads :=
  { loads with tasks := loads.tasks.set index { task with point := point } }

def refuse (loads : DataLoads) (index : Nat) (task : LoadTask) (error : DataError) : DataLoads :=
  loads.goTo index task (.returned none (.error error))

def setCell (loads : DataLoads) (cell : Nat) (state : CellState) : DataLoads :=
  { loads with states := Function.update loads.states cell state }

def makeCell (loads : DataLoads) (key : Option String) : DataLoads :=
  { loads with
    cells := loads.cells ++ [⟨key, loads.context.cancelled⟩]
    states := Function.update loads.states loads.cells.length .empty }

def locate (loads : DataLoads) (index : Nat) (task : LoadTask) (key : String) : DataLoads :=
  let fresh := loads.cells.length
  if task.call.policy.deduplicateInRequest then
    match loads.loaderCells key with
    | some existing => loads.goTo index task (.waiting ⟨existing, true⟩)
    | none =>
      { (loads.makeCell (some key)).goTo index task (.waiting ⟨fresh, false⟩) with
        loaderCells := Function.update loads.loaderCells key (some fresh) }
  else
    (loads.makeCell none).goTo index task (.waiting ⟨fresh, false⟩)

def fill (loads : DataLoads) (index : Nat) (task : LoadTask) (seat : Seat) (result : LoaderResult) : DataLoads :=
  (loads.goTo index task (.finishing seat result)).setCell seat.cell (.ready result)

def abandon (loads : DataLoads) (index : Nat) (task : LoadTask) (seat : Seat) (point : LoadPoint) : DataLoads :=
  (loads.goTo index task point).setCell seat.cell .empty

def complete (loads : DataLoads) (cell : Nat) : DataLoads :=
  { loads with completed := loads.completed ++ [(loads.cells[cell]?).bind LoaderCell.key] }

def settle (loads : DataLoads) (index : Nat) (task : LoadTask) (seat : Seat) (result : Except DataError Serialized)
    : DataLoads :=
  match result with
  | .error error => loads.fill index task seat (.error error)
  | .ok .panics => loads.abandon index task seat .panicked
  | .ok .fails => loads.fill index task seat (.error .serialization)
  | .ok (.bytes text) =>
    if task.call.policy.maxOutputBytes < text.length then
      loads.fill index task seat (.error (.loaderOutput text.length task.call.policy.maxOutputBytes))
    else
      loads.fill index task seat (.ok ⟨task.call.outputType, .bytes text⟩)

def outcomeOf (result : LoaderResult) (type : TypeId) : DataOutcome × Nat × Option String :=
  match result with
  | .ok output =>
    match output.downcast type with
    | .ok value => (.success, value.serialized.len, none)
    | .error _ => (.success, 0, none)
  | .error .cancelled | .error .deadline => (.cancelled, 0, some DataError.cancelled.code)
  | .error error => (.failed, 0, some error.code)

def receiptOf (loads : DataLoads) (call : LoadCall) (deduplicated : Bool) (result : LoaderResult) : DataReceipt :=
  let (outcome, outputSize, code) := outcomeOf result call.outputType
  { operation := .loader
    operationId := call.policy.id
    semanticRevision := call.policy.semanticRevision
    outcome := outcome
    outputSizeBucket := .fromBytes outputSize
    deduplicated := deduplicated
    cancelReason := loads.context.cancelReason
    diagnosticCode := code }

def finish (loads : DataLoads) (index : Nat) (task : LoadTask) (seat : Seat) (result : LoaderResult) : DataLoads :=
  let returned := result.bind fun output => output.downcast task.call.outputType
  (loads.goTo index task (.returned (some seat) returned)).recordReceipt (some index)
    (loads.receiptOf task.call seat.deduplicated result)

def stepLoad (sha256 : Sha256) (loads : DataLoads) (index : Nat) (task : LoadTask) (reading : LoadReading)
    : Option DataLoads :=
  match task.point with
  | .entered =>
    match loads.requireLoaderPolicy sha256 task.call.policy with
    | .error error => some (loads.refuse index task error)
    | .ok () =>
      if loads.context.closed then
        some (loads.refuse index task .contextClosed)
      else
        some (loads.goTo index task .opened)
  | .opened =>
    if loads.context.cancelled then
      some (loads.refuse index task .cancelled)
    else
      some (loads.goTo index task .locating)
  | .locating =>
    match task.call.input with
    | .fails => some (loads.refuse index task .serialization)
    | .panics => some (loads.goTo index task .panicked)
    | .value json =>
      some (loads.locate index task
        (invocationKey sha256 task.call.policy (writeCanonicalJson json.value) loads.identity.routeId))
  | .waiting seat =>
    match loads.states seat.cell with
    | .empty => some ((loads.goTo index task (.starting seat)).setCell seat.cell (.running index))
    | .running _ => none
    | .ready result => some (loads.goTo index task (.finishing seat result))
  | .starting seat =>
    match reading.answer with
    | .panics => some (loads.abandon index task seat .panicked)
    | _ => some (loads.goTo index task (.loading seat false))
  | .loading seat registered =>
    -- the first poll reads the flag, a later one waits for the notification
    if loads.context.cancelled && (!registered || reading.notified) then
      some (loads.fill index task seat (.error .cancelled))
    else if reading.expired then
      some (loads.fill index task seat (.error .deadline))
    else
      some (loads.goTo index task (.polling seat))
  | .polling seat =>
    match reading.answer with
    | .pending => some (loads.goTo index task (.loading seat true))
    | .panics => some (loads.abandon index task seat .panicked)
    | .ready result => some ((loads.complete seat.cell).settle index task seat result)
  | .finishing seat result => some (loads.finish index task seat result)
  | .returned _ _ | .panicked | .dropped => none

def dropLoad (loads : DataLoads) (index : Nat) (task : LoadTask) : Option DataLoads :=
  match task.point with
  | .entered | .waiting _ => some (loads.goTo index task .dropped)
  | .loading seat true => some (loads.abandon index task seat .dropped)
  | _ => none

def clears (context : CleanupContext) (move : ContextMove) : Bool :=
  match move with
  | .call _ => false
  | .step index =>
    match context.tasks[index]? with
    | some ⟨.close, .clearing, _⟩ => true
    | _ => false

def step (sha256 : Sha256) (loads : DataLoads) (move : LoadMove) : Option DataLoads :=
  match move with
  | .call call => some { loads with tasks := loads.tasks ++ [⟨call, .entered⟩] }
  | .step index reading =>
    match loads.tasks[index]? with
    | none => none
    | some task => loads.stepLoad sha256 index task reading
  | .drop index =>
    match loads.tasks[index]? with
    | none => none
    | some task => loads.dropLoad index task
  | .context move =>
    match loads.context.step move with
    | none => none
    | some context =>
      some { loads with
        context := context
        loaderCells := if clears loads.context move then fun _ => none else loads.loaderCells }
  | .record receipt => some (loads.recordReceipt none receipt)

end DataLoads

end Data

end Pliego
