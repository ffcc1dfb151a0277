import Pliego.Data.CacheManager

/-!
Sessions: the in-memory store, whose operations are each one access, and the calls of the manager as
threads that run from one access, or one reading of the clock, to the next.
-/

namespace Pliego

open Bytes

namespace Data

inductive SameSitePolicy where
  | strict
  | lax
  | none
  deriving DecidableEq, Repr

structure SessionCookiePolicy where
  name : String
  path : String
  secure : Bool
  httpOnly : Bool
  sameSite : SameSitePolicy
  deriving DecidableEq, Repr

structure SessionPolicy where
  id : String
  schemaVersion : Nat
  cookie : SessionCookiePolicy
  idleTimeout : Nat
  absoluteTimeout : Nat
  maxClaimBytes : Nat
  assurance : String
  deriving DecidableEq, Repr

inductive SessionError where
  | invalidPolicy (message : String)
  | invalidToken
  | entropyUnavailable
  | invalidClaims
  | claimsTooLarge (actual maximum : Nat)
  | versionMismatch
  | storeConflict
  | storeFailure (message : String)
  | clock
  deriving DecidableEq, Repr

structure SessionToken where
  text : String
  deriving DecidableEq, Repr

def SessionToken.digest (sha256 : Sha256) (token : SessionToken) : String :=
  encodeHex (sha256 (utf8 token.text)).bytes

structure StoredSession where
  policyId : String
  schemaVersion : Nat
  assurance : String
  claims : List UInt8
  createdAtMs : Nat
  rotatedAtMs : Nat
  lastSeenAtMs : Nat
  idleExpiresAtMs : Nat
  absoluteExpiresAtMs : Nat
  deriving DecidableEq, Repr

structure LoadedSession (Claims : Type) where
  tokenDigest : String
  schemaVersion : Nat
  assurance : String
  claims : Claims
  createdAtMs : Nat
  rotatedAtMs : Nat
  lastSeenAtMs : Nat
  idleExpiresAtMs : Nat
  absoluteExpiresAtMs : Nat

structure SessionCookie where
  token : SessionToken
  policy : SessionCookiePolicy
  maxAge : Nat

structure CreatedSession (Claims : Type) where
  session : LoadedSession Claims
  cookie : SessionCookie

abbrev InMemorySessionStore := String → Option StoredSession

namespace InMemorySessionStore

variable (sha256 : Sha256) (entries : InMemorySessionStore)

def create (token : SessionToken) (session : StoredSession)
    : InMemorySessionStore × Except SessionError Unit :=
  -- the record is replaced also when the conflict is reported
  (Function.update entries (token.digest sha256) (some session),
    if (entries (token.digest sha256)).isSome then .error .storeConflict else .ok ())

def read (token : SessionToken) : Option StoredSession :=
  entries (token.digest sha256)

def replace (oldToken newToken : SessionToken) (session : StoredSession)
    : InMemorySessionStore × Except SessionError Bool :=
  let oldKey := oldToken.digest sha256
  let newKey := newToken.digest sha256
  if (entries oldKey).isNone then
    (entries, .ok false)
  else if (entries newKey).isSome then
    (entries, .error .storeConflict)
  else
    (Function.update (Function.update entries oldKey none) newKey (some session), .ok true)

def update (token : SessionToken) (session : StoredSession) : InMemorySessionStore × Bool :=
  let key := token.digest sha256
  if (entries key).isNone then (entries, false) else (Function.update entries key (some session), true)

def revoke (token : SessionToken) : InMemorySessionStore × Bool :=
  let key := token.digest sha256
  (Function.update entries key none, (entries key).isSome)

end InMemorySessionStore

structure ClaimsCodec (Claims : Type) where
  toVec : Claims → Option (List UInt8)
  fromSlice : List UInt8 → Option Claims

def unixMillis (reading : Option Nat) : Except SessionError Nat :=
  match reading with
  | none => .error .clock
  | some millis => if millis ≥ 2 ^ 64 then .error .clock else .ok millis

def sessionMillis (nanos : Nat) : Except SessionError Nat :=
  if asMillis nanos ≥ 2 ^ 64 then
    .error (.invalidPolicy "duration is too large")
  else
    .ok (asMillis nanos)

def loaded {Claims : Type} (sha256 : Sha256) (token : SessionToken) (stored : StoredSession)
    (claims : Claims) : LoadedSession Claims :=
  { tokenDigest := token.digest sha256
    schemaVersion := stored.schemaVersion
    assurance := stored.assurance
    claims := claims
    createdAtMs := stored.createdAtMs
    rotatedAtMs := stored.rotatedAtMs
    lastSeenAtMs := stored.lastSeenAtMs
    idleExpiresAtMs := stored.idleExpiresAtMs
    absoluteExpiresAtMs := stored.absoluteExpiresAtMs }

namespace SessionPolicy

variable {Claims : Type} (codec : ClaimsCodec Claims) (policy : SessionPolicy)

def stored (claims : Claims) (createdAtMs rotatedAtMs lastSeenAtMs : Nat)
    : Except SessionError StoredSession :=
  match codec.toVec claims with
  | none => .error .invalidClaims
  | some bytes =>
    if bytes.length > policy.maxClaimBytes then
      .error (.claimsTooLarge bytes.length policy.maxClaimBytes)
    else do
      let idleMs ← sessionMillis policy.idleTimeout
      let absoluteMs ← sessionMillis policy.absoluteTimeout
      .ok {
        policyId := policy.id
        schemaVersion := policy.schemaVersion
        assurance := policy.assurance
        claims := bytes
        createdAtMs := createdAtMs
        rotatedAtMs := rotatedAtMs
        lastSeenAtMs := lastSeenAtMs
        idleExpiresAtMs := saturatingAdd lastSeenAtMs idleMs
        absoluteExpiresAtMs := saturatingAdd createdAtMs absoluteMs }

def cookieOf (token : SessionToken) : SessionCookie :=
  { token := token, policy := policy.cookie, maxAge := policy.absoluteTimeout }

def ofThisVersion (stored : StoredSession) : Bool :=
  stored.policyId == policy.id && stored.schemaVersion == policy.schemaVersion

def expired (stored : StoredSession) (now : Nat) : Bool :=
  now ≥ stored.idleExpiresAtMs || now ≥ stored.absoluteExpiresAtMs

/--
What `load` does with the record it has read, after the clock.
-/
def refresh (stored : StoredSession) (now : Nat) : Except SessionError (Option StoredSession) :=
  if !policy.ofThisVersion stored then
    .error .versionMismatch
  else if expired stored now then
    .ok none
  else do
    let idleMs ← sessionMillis policy.idleTimeout
    .ok (some { stored with
      lastSeenAtMs := now
      idleExpiresAtMs := min (saturatingAdd now idleMs) stored.absoluteExpiresAtMs })

/--
What `rotate` does with the record it has read, after the clock.
-/
def successor (claims : Claims) (existing : StoredSession) (now : Nat)
    : Except SessionError StoredSession := do
  let stored ← policy.stored codec claims existing.createdAtMs now now
  .ok { stored with absoluteExpiresAtMs := existing.absoluteExpiresAtMs }

theorem stored_ok {codec : ClaimsCodec Claims} {policy : SessionPolicy} {claims : Claims}
    {created rotated lastSeen : Nat} {session : StoredSession}
    (h : policy.stored codec claims created rotated lastSeen = .ok session)
    : session.lastSeenAtMs = lastSeen ∧
        session.idleExpiresAtMs = saturatingAdd lastSeen (asMillis policy.idleTimeout) := by
  unfold SessionPolicy.stored sessionMillis at h
  split at h
  . cases h
  . split at h
    . cases h
    . by_cases hidle : asMillis policy.idleTimeout ≥ 2 ^ 64
      . rw [if_pos hidle] at h
        cases h
      . rw [if_neg hidle] at h
        by_cases habsolute : asMillis policy.absoluteTimeout ≥ 2 ^ 64
        . rw [if_pos habsolute] at h
          cases h
        . rw [if_neg habsolute] at h
          cases h
          exact ⟨rfl, rfl⟩

theorem refresh_some {policy : SessionPolicy} {stored session : StoredSession} {now : Nat}
    (h : policy.refresh stored now = .ok (some session))
    : now < stored.idleExpiresAtMs ∧ now < stored.absoluteExpiresAtMs ∧
        session.lastSeenAtMs = now ∧ session.absoluteExpiresAtMs = stored.absoluteExpiresAtMs ∧
        session.idleExpiresAtMs
          = min (saturatingAdd now (asMillis policy.idleTimeout)) stored.absoluteExpiresAtMs := by
  unfold refresh sessionMillis at h
  split at h
  . cases h
  . split at h
    . cases h
    . next hlive =>
      simp only [expired, Bool.or_eq_true, decide_eq_true_eq, not_or, not_le] at hlive
      by_cases hidle : asMillis policy.idleTimeout ≥ 2 ^ 64
      . rw [if_pos hidle] at h
        cases h
      . rw [if_neg hidle] at h
        cases h
        exact ⟨hlive.1, hlive.2, rfl, rfl, rfl⟩

theorem successor_ok {codec : ClaimsCodec Claims} {policy : SessionPolicy} {claims : Claims}
    {existing session : StoredSession} {now : Nat} (h : policy.successor codec claims existing now = .ok session)
    : session.lastSeenAtMs = now ∧
        session.idleExpiresAtMs = saturatingAdd now (asMillis policy.idleTimeout) ∧
        session.absoluteExpiresAtMs = existing.absoluteExpiresAtMs := by
  unfold successor at h
  cases hstored : policy.stored codec claims existing.createdAtMs now now with
  | error error =>
    rw [hstored] at h
    cases h
  | ok stored =>
    rw [hstored] at h
    cases h
    obtain ⟨hseen, hidle⟩ := stored_ok hstored
    exact ⟨hseen, hidle, rfl⟩

end SessionPolicy

end Data

end Pliego
