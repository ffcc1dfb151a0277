import Pliego.Native.Lifecycle

/-!
The registry of the requests of a runtime: what it lets in, and what it still holds once a request is gone.
-/

namespace Pliego

namespace Native

structure RequestRegistry where
  accepting : Bool
  maximum : Nat
  scopes : List Nat

namespace RequestRegistry

def answer (registry : RequestRegistry) : Except AdmissionError Unit :=
  if !registry.accepting then .error .draining
  else if registry.maximum ≤ registry.scopes.length then .error .overloaded
  else .ok ()

def admitScope (registry : RequestRegistry) (scope : RequestScope) (id : Nat) : RequestRegistry :=
  match scope.registerInternalCleanup .removeRequest, registry.answer with
  | .ok _, .ok () => { registry with scopes := id :: registry.scopes }
  | _, _ => registry

def sweep (registry : RequestRegistry) (id : Nat) (ran : List Ran) : RequestRegistry :=
  if .internal .removeRequest ∈ ran then { registry with scopes := registry.scopes.filter (· ≠ id) } else registry

def activeCount (registry : RequestRegistry) : Nat := registry.scopes.length

end RequestRegistry

def Exchange.inFlight (exchange : Exchange) : Bool :=
  match exchange.stage with
  | .gone _ | .abandoned => false
  | _ => true

structure NativeRuntime where
  limits : RequestLimits
  registry : RequestRegistry
  requests : List Exchange

inductive RuntimeAct where
  | arrive
  | offer (id : Nat)
  | act (id : Nat) (act : Act)
  | beginShutdown

def Act.isAdmission (act : Act) : Bool :=
  match act with
  | .admission _ => true
  | _ => false

namespace NativeRuntime

def start (limits : RequestLimits) : NativeRuntime where
  limits := limits
  registry := ⟨true, limits.maxConcurrentRequests, []⟩
  requests := []

def replace (runtime : NativeRuntime) (registry : RequestRegistry) (id : Nat) (next : Exchange) : NativeRuntime :=
  { runtime with registry := registry.sweep id next.scope.ran, requests := runtime.requests.set id next }

-- The registry cancels what it holds; each of these cancellations is also an act of its own.
def beginShutdown (runtime : NativeRuntime) : NativeRuntime :=
  { runtime with
    registry := { runtime.registry with accepting := false }
    requests := runtime.requests.mapIdx fun id exchange =>
      if id ∈ runtime.registry.scopes then exchange.cancelled .shutdown else exchange }

def step (runtime : NativeRuntime) (label : RuntimeAct) : Option NativeRuntime :=
  match label with
  | .arrive =>
    some { runtime with requests := runtime.requests ++ [.arrive runtime.requests.length runtime.limits] }
  | .offer id =>
    match runtime.requests[id]? with
    | none => none
    | some exchange =>
      match exchange.step (.admission runtime.registry.answer) with
      | none => none
      | some next => some (runtime.replace (runtime.registry.admitScope exchange.scope id) id next)
  | .act id act =>
    match runtime.requests[id]? with
    | none => none
    | some exchange =>
      if act.isAdmission then
        none
      else
        match exchange.step act with
        | none => none
        | some next => some (runtime.replace runtime.registry id next)
  | .beginShutdown => some runtime.beginShutdown

def inFlight (runtime : NativeRuntime) : List Nat :=
  (List.range runtime.requests.length).filter fun id => (runtime.requests[id]?).any Exchange.inFlight

structure Released (runtime : NativeRuntime) (id : Nat) (exchange : Exchange) : Prop where
  unregistered : id ∉ runtime.registry.scopes
  closed : exchange.scope.state = .closed
  cleanups : exchange.scope.ran = exchange.duties exchange.scope.cancelReason
  receipt : exchange.scope.receipts.length = 1

structure LeakFree (runtime : NativeRuntime) : Prop where
  released : ∀ id exchange, runtime.requests[id]? = some exchange → exchange.inFlight = false →
    runtime.Released id exchange
  active : runtime.registry.activeCount ≤ runtime.inFlight.length
  overloaded : ∀ id exchange, runtime.requests[id]? = some exchange → exchange.stage = .dispatching .offered →
    runtime.registry.answer = .error .overloaded →
    runtime.limits.maxConcurrentRequests ≤ (runtime.inFlight.filter (· ≠ id)).length

def awaited (runtime : NativeRuntime) (label : RuntimeAct) : Bool :=
  match label with
  | .act id .drop =>
    match runtime.requests[id]? with
    | some exchange =>
      match exchange.stage with
      | .dispatching _ => false
      | _ => true
    | none => true
  | _ => true

end NativeRuntime

end Native

end Pliego
