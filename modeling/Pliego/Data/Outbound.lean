import Pliego.Data.Idempotency
import Pliego.Data.PublicAddress
import Pliego.Lib.SortedMap
import Pliego.Lib.Text

/-!
Outbound HTTP policies of `pliego-data`, and the permits that a guard issues under one. The parser of URLs is a
parameter.
-/

namespace Pliego

open Bytes Text

namespace Data

inductive OutboundHttpError where
  | invalidPolicy
  | invalidUrl
  | forbiddenUrlComponent
  | schemeRejected
  | missingHost
  | hostRejected
  | portRejected
  | pathRejected
  | dnsFailure
  | dnsAddressCount
  | privateAddressRejected
  | redirectLimit
  | policyMismatch
  | contextClosed
  | cancelled
  | deadline
deriving DecidableEq

inductive Host where
  | domain (name : String)
  | ipv4 (address : BitVec 32)
  | ipv6 (address : BitVec 128)

structure UrlParser (U : Type) where
  parse : String → Option U
  join : U → String → Option U
  parseHost : String → Option Host
  asStr : U → String
  username : U → String
  password : U → Option String
  fragment : U → Option String
  scheme : U → String
  host : U → Option Host
  portOrKnownDefault : U → Option Nat
  path : U → String

structure SocketAddr where
  ip : IpAddr
  port : Nat
deriving DecidableEq

namespace SocketAddr

def key (address : SocketAddr) : ℕ ×ₗ ℕ ×ₗ ℕ :=
  match address.ip with
  | .v4 number => toLex (0, toLex (number.toNat, address.port))
  | .v6 number => toLex (1, toLex (number.toNat, address.port))

theorem key_injective : Function.Injective key := by
  intro a b h
  obtain ⟨ip, port⟩ := a
  obtain ⟨ip', port'⟩ := b
  cases ip with
  | v4 number =>
    cases ip' with
    | v4 number' =>
      cases h' : (number.toNat, port) == (number'.toNat, port') <;> simp_all [key]
      exact BitVec.eq_of_toNat_eq h.1
    | v6 number' => simp [key] at h
  | v6 number =>
    cases ip' with
    | v4 number' => simp [key] at h
    | v6 number' =>
      simp [key] at h
      rw [BitVec.eq_of_toNat_eq h.1, h.2]

instance linearOrder : LinearOrder SocketAddr := LinearOrder.lift' key key_injective

end SocketAddr

/-
Policies
-/

structure OutboundHttpPolicy where
  id : String
  semanticRevision : Nat
  allowedHosts : SortedSet String
  allowedPorts : SortedSet Nat
  allowedPathPrefixes : SortedSet String
  allowHttp : Bool
  allowPrivateNetworks : Bool
  timeout : Nat
  maxRedirects : Nat
  maxResponseBytes : Nat
  maxResolvedAddresses : Nat

def normalizeParsedHost (host : Host) : String :=
  match host with
  | .domain value => toAsciiLowercase value
  | .ipv4 value => Ipv4Addr.display value
  | .ipv6 value => Ipv6Addr.display value

def normalizeHost {U : Type} (parser : UrlParser U) (value : String) : Except OutboundHttpError String :=
  match parser.parseHost value with
  | none => .error .invalidPolicy
  | some host => .ok (normalizeParsedHost host)

def nanosPerSecond : Nat := 1000000000

def isPathPrefix (pathPrefix : String) : Bool :=
  !(decide (pathPrefix = "")
    || !startsWith '/' pathPrefix
    || (decide (pathPrefix ≠ "/") && !endsWith '/' pathPrefix)
    || contains pathPrefix '%'
    || contains pathPrefix '?'
    || contains pathPrefix '#'
    || containsPair '/' '/' pathPrefix.toList
    || (split '/' pathPrefix).any (fun segment => segment == "." || segment == "..")
    || pathPrefix.toList.any Text.isControl)

namespace OutboundHttpPolicy

def new (id : String) (semanticRevision : Nat) : Except OutboundHttpError OutboundHttpPolicy :=
  if !validateStableId id || semanticRevision == 0 then
    .error .invalidPolicy
  else
    .ok ⟨id, semanticRevision, .empty, .ofList [443], .ofList ["/"], false, false, 5 * nanosPerSecond, 3, 8 * 1024 * 1024, 16⟩

def allowHost {U : Type} (parser : UrlParser U) (policy : OutboundHttpPolicy) (host : String)
    : Except OutboundHttpError OutboundHttpPolicy :=
  if 64 ≤ policy.allowedHosts.len then
    .error .invalidPolicy
  else
    match normalizeHost parser host with
    | .error error => .error error
    | .ok host => .ok { policy with allowedHosts := policy.allowedHosts.insert host () }

def allowPort (policy : OutboundHttpPolicy) (port : Nat) : Except OutboundHttpError OutboundHttpPolicy :=
  if port = 0 ∨ 16 ≤ policy.allowedPorts.len then
    .error .invalidPolicy
  else
    .ok { policy with allowedPorts := policy.allowedPorts.insert port () }

def restrictPathPrefix (policy : OutboundHttpPolicy) (pathPrefix : String) : Except OutboundHttpError OutboundHttpPolicy :=
  if !isPathPrefix pathPrefix then
    .error .invalidPolicy
  else
    -- The first restriction takes the place of the default.
    let kept : SortedSet String :=
      if policy.allowedPathPrefixes.len = 1 ∧ policy.allowedPathPrefixes.contains "/" = true ∧ pathPrefix ≠ "/" then
        .empty
      else
        policy.allowedPathPrefixes
    if 32 ≤ kept.len then
      .error .invalidPolicy
    else
      .ok { policy with allowedPathPrefixes := kept.insert pathPrefix () }

def allowPlainHttp (policy : OutboundHttpPolicy) (allowed : Bool) : OutboundHttpPolicy :=
  { policy with allowHttp := allowed }

def allowPrivate (policy : OutboundHttpPolicy) (allowed : Bool) : OutboundHttpPolicy :=
  { policy with allowPrivateNetworks := allowed }

def limits (policy : OutboundHttpPolicy) (timeout maxRedirects maxResponseBytes maxResolvedAddresses : Nat)
    : Except OutboundHttpError OutboundHttpPolicy :=
  if timeout = 0 ∨ 60 * nanosPerSecond < timeout ∨ 10 < maxRedirects ∨ maxResponseBytes = 0 ∨ 64 * 1024 * 1024 < maxResponseBytes
      ∨ maxResolvedAddresses = 0 ∨ 64 < maxResolvedAddresses then
    .error .invalidPolicy
  else
    .ok { policy with
      timeout := timeout
      maxRedirects := maxRedirects
      maxResponseBytes := maxResponseBytes
      maxResolvedAddresses := maxResolvedAddresses }

end OutboundHttpPolicy

/-
Permits
-/

inductive Resolution where
  | cancelled
  | timedOut
  | answered (result : Except OutboundHttpError (List SocketAddr))

structure OutboundCall where
  closed : Bool
  cancelled : Bool
  now : Nat
  deadline : Nat
  resolution : Resolution

structure OutboundHttpPermit where
  policyId : String
  semanticRevision : Nat
  url : String
  host : String
  addresses : List SocketAddr
  expiresAt : Nat
  redirectsRemaining : Nat
  maxResponseBytes : Nat
deriving DecidableEq

def pathIsAllowed (path : String) (prefixes : SortedSet String) : Bool :=
  if prefixes.contains "/" then
    true
  else if contains path '%' || contains path '\\' || containsPair '/' '/' path.toList then
    false
  else
    prefixes.keys.any fun pathPrefix =>
      path.toList == pathPrefix.toList.rdropWhile (· == '/') || pathPrefix.toList.isPrefixOf path.toList

section Guard

variable {U : Type}

def checkScheme (policy : OutboundHttpPolicy) (scheme : String) : Except OutboundHttpError Unit :=
  if scheme = "https" then
    .ok ()
  else if scheme = "http" ∧ policy.allowHttp = true then
    .ok ()
  else
    .error .schemeRejected

def resolveHost (call : OutboundCall) (host : Host) (port : Nat) : Except OutboundHttpError (List SocketAddr) :=
  match host with
  | .ipv4 address => .ok [⟨.v4 address, port⟩]
  | .ipv6 address => .ok [⟨.v6 address, port⟩]
  | .domain _ =>
    match call.resolution with
    | .cancelled => .error .cancelled
    | .timedOut => .error .deadline
    | .answered result => result

def checkAddresses (policy : OutboundHttpPolicy) (port : Nat) (addresses : List SocketAddr)
    : Except OutboundHttpError (SortedSet SocketAddr) :=
  if addresses.isEmpty || decide (policy.maxResolvedAddresses < addresses.length) then
    .error .dnsAddressCount
  else
    let unique : SortedSet SocketAddr := .ofList addresses
    if unique.keys.any (fun address => address.port != port) then
      .error .dnsAddressCount
    else if !policy.allowPrivateNetworks && unique.keys.any (fun address => !isPublicIp address.ip) then
      .error .privateAddressRejected
    else
      .ok unique

def authorizeInner (parser : UrlParser U) (policy : OutboundHttpPolicy) (call : OutboundCall) (authored : String)
    (redirectsRemaining : Nat)
    : Except OutboundHttpError OutboundHttpPermit :=
  if call.closed then
    .error .contextClosed
  else if call.cancelled then
    .error .cancelled
  else if call.deadline ≤ call.now then
    .error .deadline
  else
    match parser.parse authored with
    | none => .error .invalidUrl
    | some parsed =>
      if parser.username parsed ≠ "" ∨ (parser.password parsed).isSome = true ∨ (parser.fragment parsed).isSome = true then
        .error .forbiddenUrlComponent
      else
        match checkScheme policy (parser.scheme parsed) with
        | .error error => .error error
        | .ok () =>
          match parser.host parsed with
          | none => .error .missingHost
          | some host =>
            if policy.allowedHosts.contains (normalizeParsedHost host) = false then
              .error .hostRejected
            else
              match parser.portOrKnownDefault parsed with
              | none => .error .portRejected
              | some port =>
                if policy.allowedPorts.contains port = false then
                  .error .portRejected
                else if pathIsAllowed (parser.path parsed) policy.allowedPathPrefixes = false then
                  .error .pathRejected
                else
                  match resolveHost call host port with
                  | .error error => .error error
                  | .ok addresses =>
                    match checkAddresses policy port addresses with
                    | .error error => .error error
                    | .ok unique =>
                      .ok {
                        policyId := policy.id
                        semanticRevision := policy.semanticRevision
                        url := parser.asStr parsed
                        host := normalizeParsedHost host
                        addresses := unique.keys
                        expiresAt := call.now + min policy.timeout (call.deadline - call.now)
                        redirectsRemaining := redirectsRemaining
                        maxResponseBytes := policy.maxResponseBytes }

structure OutboundHttpGuard where
  policy : OutboundHttpPolicy
  hosts : policy.allowedHosts.entries.isEmpty = false

def OutboundHttpGuard.new (policy : OutboundHttpPolicy) : Except OutboundHttpError OutboundHttpGuard :=
  if h : policy.allowedHosts.entries.isEmpty = true then
    .error .invalidPolicy
  else
    .ok ⟨policy, Bool.eq_false_iff.mpr h⟩

namespace OutboundHttpGuard

def authorize (parser : UrlParser U) (guard : OutboundHttpGuard) (call : OutboundCall) (url : String)
    : Except OutboundHttpError OutboundHttpPermit :=
  authorizeInner parser guard.policy call url guard.policy.maxRedirects

def redirected (parser : UrlParser U) (previous : OutboundHttpPermit) (location : String) : Option String := do
  let base ← parser.parse previous.url
  let next ← parser.join base location
  some (parser.asStr next)

def authorizeRedirect (parser : UrlParser U) (guard : OutboundHttpGuard) (call : OutboundCall)
    (previous : OutboundHttpPermit) (location : String)
    : Except OutboundHttpError OutboundHttpPermit :=
  if previous.policyId ≠ guard.policy.id ∨ previous.semanticRevision ≠ guard.policy.semanticRevision then
    .error .policyMismatch
  else if previous.redirectsRemaining = 0 then
    .error .redirectLimit
  else
    match redirected parser previous location with
    | none => .error .invalidUrl
    | some next => authorizeInner parser guard.policy call next (previous.redirectsRemaining - 1)

end OutboundHttpGuard

end Guard

end Data

end Pliego
