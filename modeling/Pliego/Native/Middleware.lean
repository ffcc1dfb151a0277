import Pliego.Lib.Reach
import Pliego.Native.Enforcement

/-!
A request on its way through the layers: each runs as a future of its own, may call the next one once and may do
with the future that it gets what it likes. A task that it has spawned, or the body of its response, may read and call
when the layer has long left.
-/

namespace Pliego

open Router (MiddlewareCapability MiddlewareCapabilities)

namespace Native

-- `routed` is where the request is resolved, behind the pre-route layers.
inductive Station where
  | preRoute (capabilities : MiddlewareCapabilities)
  | routed
  | route (capabilities : MiddlewareCapabilities)
  | handler

def Station.capabilities (station : Station) : Option MiddlewareCapabilities :=
  match station with
  | .preRoute capabilities | .route capabilities => some capabilities
  | .routed | .handler => none

inductive Progress where
  | ready
  | running
  | left (response : Response)
  | dropped

def Progress.begun (progress : Progress) : Bool :=
  match progress with
  | .ready => false
  | _ => true

-- `readsAtEntry`, `nextCalled` and `downstream` are the cells of the enforcement. `holdsBody` and `ownReads` tell
-- whether the layer has the body that came in, and how often it has read it.
structure Frame where
  station : Station
  behind : List Station
  request : Request
  progress : Progress
  readsAtEntry : Nat
  nextCalled : Bool
  downstream : Option ResponseObservation
  holdsBody : Bool
  ownReads : Nat

def Frame.opened (station : Station) (behind : List Station) (request : Request) : Frame where
  station := station
  behind := behind
  request := request
  progress := .ready
  readsAtEntry := 0
  nextCalled := false
  downstream := none
  holdsBody := request.tracked
  ownReads := 0

def Frame.response (frame : Frame) : Option Response :=
  match frame.progress with
  | .left response => some response
  | _ => none

-- What a layer has forwarded, what has left it, what it had read when it was dropped, and a read behind that.
inductive Event where
  | forwarded (capabilities : MiddlewareCapabilities) (incoming request : Request) (ownReads : Nat)
  | left (capabilities : MiddlewareCapabilities) (nextCalled : Bool) (downstream : Option Response) (ownReads : Nat)
      (recovered : Bool) (response : Response)
  | dropped (capabilities : MiddlewareCapabilities) (ownReads : Nat)
  | readBehind (capabilities : MiddlewareCapabilities)

structure MiddlewareChain where
  preRoute : List MiddlewareCapabilities
  resolve : Request → Option (List MiddlewareCapabilities)
  display : Nat → String

-- The frame after another is the one that its `next` has opened.
structure Traversal where
  tracker : Nat
  reads : Nat
  frames : List Frame
  events : List Event

inductive Answer where
  | response (response : Response)
  | error (error : HandlerError)
  | panicked

inductive Doing where
  | begin
  | read
  | call (request : Request)
  | answer (answer : Answer) (boundaries : List BoundaryRun)
  | drop

namespace MiddlewareChain

def start (chain : MiddlewareChain) (tracker : Nat) (request : Request) : Traversal where
  tracker := tracker
  reads := 0
  frames :=
    match chain.preRoute.map Station.preRoute ++ [.routed] with
    | [] => []
    | station :: behind => [.opened station behind { request with tracker := some tracker, tracked := true }]
  events := []

end MiddlewareChain

namespace Traversal

def setFrame (traversal : Traversal) (index : Nat) (frame : Frame) : Traversal :=
  { traversal with frames := traversal.frames.set index frame }

def called (frame : Frame) (request : Request) : Frame :=
  { frame with nextCalled := true, holdsBody := frame.holdsBody && !request.tracked }

def opening (traversal : Traversal) (index : Nat) (frame : Frame) (next : Frame) (events : List Event) : Traversal :=
  { traversal with
    frames := traversal.frames.set index (called frame next.request) ++ [next]
    events := traversal.events ++ events }

def callNext (chain : MiddlewareChain) (traversal : Traversal) (index : Nat) (frame : Frame) (request : Request)
    : Option Traversal :=
  match frame.station.capabilities with
  | some capabilities =>
    match frame.behind with
    | [] => none
    | station :: behind =>
      match validateForwardedRequest frame.request request capabilities traversal.tracker traversal.reads
          frame.readsAtEntry with
      | .error _ => some (traversal.setFrame index (called frame request))
      | .ok () =>
        some (traversal.opening index frame (.opened station behind request)
          [.forwarded capabilities frame.request request frame.ownReads])
  | none =>
    match frame.station, chain.resolve frame.request with
    | .routed, some layers =>
      match layers.map Station.route ++ [.handler] with
      | [] => none
      | station :: behind => some (traversal.opening index frame (.opened station behind frame.request) [])
    | _, _ => none

def panicError (station : Station) : PublicError :=
  match station with
  | .preRoute _ => ⟨.internalFailure, 500, "PLG-RUN-506"⟩
  | _ => ⟨.internalFailure, 500, "PLG-RUN-502"⟩

def outcome (chain : MiddlewareChain) (frame : Frame) (reads : Nat) (answer : Answer) (boundaries : List BoundaryRun)
    : Response × Bool :=
  match answer with
  | .response response =>
    let enforcement := frame.station.capabilities.map fun capabilities =>
      ⟨capabilities, frame.nextCalled, frame.downstream, frame.readsAtEntry⟩
    match validateResponseEffects chain.display response enforcement reads with
    | .ok response => (response, false)
    | .error error => (recoverError boundaries (publicHandlerError error), true)
  | .error error => (recoverError boundaries (publicHandlerError error), true)
  | .panicked => (recoverError boundaries (panicError frame.station), true)

def downstreamOf (traversal : Traversal) (index : Nat) : Option Response :=
  (traversal.frames[index + 1]?).bind Frame.response

def observe (frames : List Frame) (index : Nat) (response : Response) : List Frame :=
  match index with
  | 0 => frames
  | index + 1 => frames.modify index fun frame => { frame with downstream := some response.observation }

def leave (chain : MiddlewareChain) (traversal : Traversal) (index : Nat) (frame : Frame) (answer : Answer)
    (boundaries : List BoundaryRun) : Traversal :=
  let (response, recovered) := outcome chain frame traversal.reads answer boundaries
  { traversal with
    frames := observe (traversal.frames.set index { frame with progress := .left response }) index response
    events := traversal.events ++ match frame.station.capabilities with
      | some capabilities => [.left capabilities frame.nextCalled (traversal.downstreamOf index) frame.ownReads
          recovered response]
      | none => [] }

def read (traversal : Traversal) (index : Nat) (frame : Frame) : Traversal :=
  { traversal with
    reads := traversal.reads + 1
    frames := traversal.frames.set index { frame with ownReads := frame.ownReads + 1 }
    events := traversal.events ++ match frame.progress, frame.station.capabilities with
      | .running, _ => []
      | _, some capabilities => [.readBehind capabilities]
      | _, none => [] }

def abandon (traversal : Traversal) (index : Nat) (frame : Frame) : Traversal :=
  { traversal with
    frames := traversal.frames.set index { frame with progress := .dropped }
    events := traversal.events ++ match frame.station.capabilities with
      | some capabilities => [.dropped capabilities frame.ownReads]
      | none => [] }

def step (chain : MiddlewareChain) (traversal : Traversal) (label : Nat × Doing) : Option Traversal :=
  match traversal.frames[label.1]? with
  | none => none
  | some frame =>
    match label.2, frame.progress with
    | .begin, .ready =>
      some (traversal.setFrame label.1 { frame with progress := .running, readsAtEntry := traversal.reads })
    | .read, progress =>
      if progress.begun && frame.holdsBody then some (traversal.read label.1 frame) else none
    | .call request, progress =>
      if !progress.begun || frame.nextCalled || (request.tracked && !frame.holdsBody) then none
      else callNext chain traversal label.1 frame request
    | .answer answer boundaries, .running => some (leave chain traversal label.1 frame answer boundaries)
    | .drop, .ready | .drop, .running => some (traversal.abandon label.1 frame)
    | _, _ => none

end Traversal

end Native

end Pliego
