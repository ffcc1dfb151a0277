import Pliego.Data.Session
import Pliego.Data.CacheIsolation
import Pliego.Lib.Reach

/-!
Concurrent calls of one session manager.
-/

namespace Pliego

namespace Data

variable {sha256 : Sha256} {Claims : Type}

inductive SessionPc (Claims : Type) where
  | creating (token : SessionToken) (session : StoredSession) (claims : Claims)
  | created (result : Except SessionError (CreatedSession Claims))
  | loading (token : SessionToken)
  | found (token : SessionToken) (session : StoredSession)
  | expiring (token : SessionToken)
  | refreshing (token : SessionToken) (stored : StoredSession) (now : Nat) (session : StoredSession)
  | loaded (token : SessionToken) (result : Except SessionError (Option (LoadedSession Claims)))
    (seen : Option (StoredSession × Nat)) (time : Nat)
  | rotating (token : SessionToken) (claims : Claims)
  | existing (token : SessionToken) (claims : Claims) (session : StoredSession)
  | retiring (token : SessionToken)
  | replacing (oldToken newToken : SessionToken) (session : StoredSession) (claims : Claims)
  | rotated (oldToken : SessionToken)
    (result : Except SessionError (Option (CreatedSession Claims)))
  | revoking (token : SessionToken)
  | revoked (token : SessionToken) (existed : Bool)

/--
The store and the calls. What no call reads is kept for the results: the tokens that have been drawn, the
records that have been stored, what has been removed, with the time, and the record that a load has read, with
the clock it was compared with.
-/
structure Sessions (Claims : Type) where
  time : Nat
  clock : Nat
  entries : InMemorySessionStore
  threads : List (SessionPc Claims)
  issued : List String
  records : List (String × StoredSession)
  dead : List (String × Nat)

inductive SessionStep (Claims : Type) where
  | create (claims : Claims) (reading : Option Nat) (drawn : Option SessionToken)
  | load (token : SessionToken)
  | rotate (token : SessionToken) (claims : Claims)
  | revoke (token : SessionToken)
  | read (i : Nat)
  | clock (i : Nat) (reading : Option Nat) (drawn : Option SessionToken)
  | write (i : Nat)

namespace Sessions

def call (sessions : Sessions Claims) (pc : SessionPc Claims) : Sessions Claims :=
  { sessions with threads := sessions.threads ++ [pc] }

def setPc (sessions : Sessions Claims) (i : Nat) (pc : SessionPc Claims) : Sessions Claims :=
  { sessions with threads := sessions.threads.set i pc }

def readClock (sessions : Sessions Claims) (reading : Option Nat) : Sessions Claims :=
  match unixMillis reading with
  | .ok now => { sessions with clock := now }
  | .error _ => sessions

def random (drawn : Option SessionToken) : Except SessionError SessionToken :=
  match drawn with
  | none => .error .entropyUnavailable
  | some token => .ok token

def issue (sha256 : Sha256) (sessions : Sessions Claims) (token : SessionToken) : Sessions Claims :=
  { sessions with issued := token.digest sha256 :: sessions.issued }

def create (sha256 : Sha256) (codec : ClaimsCodec Claims) (policy : SessionPolicy)
    (sessions : Sessions Claims) (claims : Claims) (reading : Option Nat)
    (drawn : Option SessionToken) : Sessions Claims :=
  let clocked := sessions.readClock reading
  match unixMillis reading with
  | .error error => clocked.call (.created (.error error))
  | .ok now =>
    match random drawn with
    | .error error => clocked.call (.created (.error error))
    | .ok token =>
      let issued := clocked.issue sha256 token
      match policy.stored codec claims now now now with
      | .error error => issued.call (.created (.error error))
      | .ok session => issued.call (.creating token session claims)

def read (sha256 : Sha256) (sessions : Sessions Claims) (i : Nat) : Option (Sessions Claims) :=
  match sessions.threads[i]? with
  | some (.loading token) =>
    match sessions.entries.read sha256 token with
    | none => some (sessions.setPc i (.loaded token (.ok none) none sessions.time))
    | some session => some (sessions.setPc i (.found token session))
  | some (.rotating token claims) =>
    match sessions.entries.read sha256 token with
    | none => some (sessions.setPc i (.rotated token (.ok none)))
    | some session => some (sessions.setPc i (.existing token claims session))
  | _ => none

def clockLoad (policy : SessionPolicy) (sessions : Sessions Claims) (i : Nat) (token : SessionToken)
    (session : StoredSession) (reading : Option Nat) : Sessions Claims :=
  let clocked := sessions.readClock reading
  match unixMillis reading with
  | .error error => clocked.setPc i (.loaded token (.error error) none sessions.time)
  | .ok now =>
    match policy.refresh session now with
    | .error error => clocked.setPc i (.loaded token (.error error) (some (session, now)) sessions.time)
    | .ok none => clocked.setPc i (.expiring token)
    | .ok (some refreshed) => clocked.setPc i (.refreshing token session now refreshed)

def clockRotate (sha256 : Sha256) (codec : ClaimsCodec Claims) (policy : SessionPolicy)
    (sessions : Sessions Claims) (i : Nat) (token : SessionToken) (claims : Claims)
    (session : StoredSession) (reading : Option Nat) (drawn : Option SessionToken)
    : Sessions Claims :=
  let clocked := sessions.readClock reading
  match unixMillis reading with
  | .error error => clocked.setPc i (.rotated token (.error error))
  | .ok now =>
    if !policy.ofThisVersion session || SessionPolicy.expired session now then
      clocked.setPc i (.retiring token)
    else
      match random drawn with
      | .error error => clocked.setPc i (.rotated token (.error error))
      | .ok newToken =>
        let issued := clocked.issue sha256 newToken
        match policy.successor codec claims session now with
        | .error error => issued.setPc i (.rotated token (.error error))
        | .ok successor => issued.setPc i (.replacing token newToken successor claims)

def clockStep (sha256 : Sha256) (codec : ClaimsCodec Claims) (policy : SessionPolicy)
    (sessions : Sessions Claims) (i : Nat) (reading : Option Nat) (drawn : Option SessionToken)
    : Option (Sessions Claims) :=
  match sessions.threads[i]? with
  | some (.found token session) => some (sessions.clockLoad policy i token session reading)
  | some (.existing token claims session) =>
    some (sessions.clockRotate sha256 codec policy i token claims session reading drawn)
  | _ => none

def bury (sessions : Sessions Claims) (digest : String) : Sessions Claims :=
  { sessions with dead := (digest, sessions.time) :: sessions.dead }

def record (sessions : Sessions Claims) (digest : String) (session : StoredSession)
    : Sessions Claims :=
  { sessions with records := (digest, session) :: sessions.records }

def remove (sha256 : Sha256) (sessions : Sessions Claims) (token : SessionToken)
    : Sessions Claims × Bool :=
  let (entries, existed) := sessions.entries.revoke sha256 token
  let removed := { sessions with entries := entries }
  (if existed then removed.bury (token.digest sha256) else removed, existed)

def writeCreate (sha256 : Sha256) (policy : SessionPolicy) (sessions : Sessions Claims) (i : Nat)
    (token : SessionToken) (session : StoredSession) (claims : Claims) : Sessions Claims :=
  let (entries, result) := sessions.entries.create sha256 token session
  let stored := Sessions.record { sessions with entries := entries } (token.digest sha256) session
  match result with
  | .error error => stored.setPc i (.created (.error error))
  | .ok () =>
    stored.setPc i (.created (.ok ⟨loaded sha256 token session claims, policy.cookieOf token⟩))

def writeUpdate (sha256 : Sha256) (codec : ClaimsCodec Claims) (sessions : Sessions Claims) (i : Nat)
    (token : SessionToken) (read : StoredSession) (now : Nat) (session : StoredSession) : Sessions Claims :=
  let (entries, existed) := sessions.entries.update sha256 token session
  if existed then
    let stored := Sessions.record { sessions with entries := entries } (token.digest sha256) session
    match codec.fromSlice session.claims with
    | none => stored.setPc i (.loaded token (.error .invalidClaims) (some (read, now)) sessions.time)
    | some claims =>
      stored.setPc i
        (.loaded token (.ok (some (loaded sha256 token session claims))) (some (read, now)) sessions.time)
  else
    sessions.setPc i (.loaded token (.ok none) (some (read, now)) sessions.time)

def writeReplace (sha256 : Sha256) (policy : SessionPolicy) (sessions : Sessions Claims) (i : Nat)
    (oldToken newToken : SessionToken) (session : StoredSession) (claims : Claims)
    : Sessions Claims :=
  match sessions.entries.replace sha256 oldToken newToken session with
  | (_, .error error) => sessions.setPc i (.rotated oldToken (.error error))
  | (_, .ok false) => sessions.setPc i (.rotated oldToken (.ok none))
  | (entries, .ok true) =>
    let replaced := Sessions.record { sessions with entries := entries } (newToken.digest sha256) session
    (replaced.bury (oldToken.digest sha256)).setPc i
      (.rotated oldToken
        (.ok (some ⟨loaded sha256 newToken session claims, policy.cookieOf newToken⟩)))

def write (sha256 : Sha256) (codec : ClaimsCodec Claims) (policy : SessionPolicy)
    (sessions : Sessions Claims) (i : Nat) : Option (Sessions Claims) :=
  match sessions.threads[i]? with
  | some (.creating token session claims) =>
    some (sessions.writeCreate sha256 policy i token session claims)
  | some (.expiring token) =>
    some ((sessions.remove sha256 token).1.setPc i
      (.loaded token (.ok none) none sessions.time))
  | some (.refreshing token stored now session) =>
    some (sessions.writeUpdate sha256 codec i token stored now session)
  | some (.retiring token) =>
    some ((sessions.remove sha256 token).1.setPc i (.rotated token (.ok none)))
  | some (.replacing oldToken newToken session claims) =>
    some (sessions.writeReplace sha256 policy i oldToken newToken session claims)
  | some (.revoking token) =>
    let (removed, existed) := sessions.remove sha256 token
    some (removed.setPc i (.revoked token existed))
  | _ => none

def act (sha256 : Sha256) (codec : ClaimsCodec Claims) (policy : SessionPolicy)
    (sessions : Sessions Claims) (label : SessionStep Claims) : Option (Sessions Claims) :=
  match label with
  | .create claims reading drawn => some (sessions.create sha256 codec policy claims reading drawn)
  | .load token => some (sessions.call (.loading token))
  | .rotate token claims => some (sessions.call (.rotating token claims))
  | .revoke token => some (sessions.call (.revoking token))
  | .read i => sessions.read sha256 i
  | .clock i reading drawn => sessions.clockStep sha256 codec policy i reading drawn
  | .write i => sessions.write sha256 codec policy i

def step (sha256 : Sha256) (codec : ClaimsCodec Claims) (policy : SessionPolicy)
    (sessions : Sessions Claims) (label : SessionStep Claims) : Option (Sessions Claims) :=
  (sessions.act sha256 codec policy label).map
    (fun next => { next with time := sessions.time + 1 })

def Initial (sessions : Sessions Claims) : Prop :=
  sessions = ⟨0, sessions.clock, fun _ => none, [], [], [], []⟩

/--
The clock does not go back, and a token that is drawn is a new one.
-/
def Steady (sha256 : Sha256) (sessions : Sessions Claims) (label : SessionStep Claims) : Prop :=
  match label with
  | .create _ reading drawn | .clock _ reading drawn =>
    (∀ now, unixMillis reading = .ok now → sessions.clock ≤ now) ∧
      ∀ token, drawn = some token → token.digest sha256 ∉ sessions.issued
  | _ => True

structure RecordSound (policy : SessionPolicy) (clock : Nat) (session : StoredSession) : Prop where
  seen : session.lastSeenAtMs ≤ clock
  idle : session.idleExpiresAtMs ≤ session.lastSeenAtMs + asMillis policy.idleTimeout
  bound : session.idleExpiresAtMs ≤ 2 ^ 64 - 1

structure Kept (policy : SessionPolicy) (sessions : Sessions Claims) : Prop where
  stored : ∀ digest session, sessions.entries digest = some session →
    (digest, session) ∈ sessions.records
  issued : ∀ digest session, (digest, session) ∈ sessions.records → digest ∈ sessions.issued
  sound : ∀ digest session, (digest, session) ∈ sessions.records →
    RecordSound policy sessions.clock session
  agree : ∀ digest session session', (digest, session) ∈ sessions.records →
    (digest, session') ∈ sessions.records →
    session.absoluteExpiresAtMs = session'.absoluteExpiresAtMs
  dead : ∀ digest time, (digest, time) ∈ sessions.dead → sessions.entries digest = none ∧
    ∃ session, (digest, session) ∈ sessions.records

def Recorded (sessions : Sessions Claims) (digest : String) : Prop :=
  ∃ session, (digest, session) ∈ sessions.records

/--
What the store can do in one step. A new record is of a digest that has one, or of the calling thread's
own new token.
-/
inductive Moves (policy : SessionPolicy) (sessions next : Sessions Claims) (own : Option String)
    : Prop where
  | same (hentries : next.entries = sessions.entries) (hrecords : next.records = sessions.records)
    (hdead : next.dead = sessions.dead)
  | removed {digest : String} (hsome : sessions.entries digest ≠ none)
    (hentries : next.entries = Function.update sessions.entries digest none)
    (hrecords : next.records = sessions.records)
    (hdead : next.dead = (digest, sessions.time) :: sessions.dead)
  | updated {digest : String} {session session' : StoredSession}
    (hsome : sessions.entries digest ≠ none) (hsound : RecordSound policy next.clock session)
    (hold : (digest, session') ∈ sessions.records)
    (habsolute : session'.absoluteExpiresAtMs = session.absoluteExpiresAtMs)
    (hentries : next.entries = Function.update sessions.entries digest (some session))
    (hrecords : next.records = (digest, session) :: sessions.records)
    (hdead : next.dead = sessions.dead)
  | inserted {digest : String} {session : StoredSession} (hown : own = some digest)
    (hfresh : ¬ Recorded sessions digest) (hissued : digest ∈ sessions.issued)
    (hsound : RecordSound policy next.clock session)
    (hentries : next.entries = Function.update sessions.entries digest (some session))
    (hrecords : next.records = (digest, session) :: sessions.records)
    (hdead : next.dead = sessions.dead)
  | replaced {oldDigest digest : String} {session : StoredSession} (hown : own = some digest)
    (hsome : sessions.entries oldDigest ≠ none) (hfresh : ¬ Recorded sessions digest)
    (hissued : digest ∈ sessions.issued) (hsound : RecordSound policy next.clock session)
    (hentries : next.entries
      = Function.update (Function.update sessions.entries oldDigest none) digest (some session))
    (hrecords : next.records = (digest, session) :: sessions.records)
    (hdead : next.dead = (oldDigest, sessions.time) :: sessions.dead)

variable {policy : SessionPolicy} {codec : ClaimsCodec Claims} {sessions next : Sessions Claims}
  {own : Option String}

variable {session : StoredSession} {digest : String} {pc : SessionPc Claims} {i : Nat} {reading : Option Nat}
  {acted : Sessions Claims} {token : SessionToken} {claims : Claims}

theorem RecordSound.mono {clock clock' : Nat} (h : RecordSound policy clock session) (hclock : clock ≤ clock')
    : RecordSound policy clock' session :=
  ⟨h.seen.trans hclock, h.idle, h.bound⟩

section

variable (h : Kept policy sessions)

include h

theorem Kept.recorded_of_entry (hsome : sessions.entries digest ≠ none)
    : Recorded sessions digest := by
  obtain ⟨session, hsession⟩ := Option.ne_none_iff_exists'.mp hsome
  exact ⟨session, h.stored digest session hsession⟩

theorem Kept.not_dead (hsome : sessions.entries digest ≠ none) (time : Nat)
    : (digest, time) ∉ sessions.dead :=
  fun hdead => hsome (h.dead digest time hdead).1

theorem Kept.addRecord (hclock : sessions.clock ≤ next.clock) (hissued : sessions.issued ⊆ next.issued)
    (hin : digest ∈ sessions.issued) (hsound : RecordSound policy next.clock session)
    (habsolute : ∀ session', (digest, session') ∈ sessions.records →
      session'.absoluteExpiresAtMs = session.absoluteExpiresAtMs)
    (hrecords : next.records = (digest, session) :: sessions.records)
    (hstored : ∀ digest' session', next.entries digest' = some session' →
      (digest', session') = (digest, session) ∨ sessions.entries digest' = some session')
    (hdead : ∀ digest' time, (digest', time) ∈ next.dead → next.entries digest' = none ∧
      Recorded sessions digest')
    : Kept policy next where
  stored := by
    intro digest' session' hentry
    rw [hrecords, List.mem_cons]
    exact (hstored digest' session' hentry).imp_right (h.stored digest' session')
  issued := by
    intro digest' session' hmem
    rw [hrecords, List.mem_cons, Prod.mk.injEq] at hmem
    rcases hmem with ⟨rfl, rfl⟩ | hmem
    . exact hissued hin
    . exact hissued (h.issued digest' session' hmem)
  sound := by
    intro digest' session' hmem
    rw [hrecords, List.mem_cons, Prod.mk.injEq] at hmem
    rcases hmem with ⟨rfl, rfl⟩ | hmem
    . exact hsound
    . exact (h.sound digest' session' hmem).mono hclock
  agree := by
    intro digest' session₁ session₂ h₁ h₂
    rw [hrecords, List.mem_cons, Prod.mk.injEq] at h₁ h₂
    rcases h₁ with ⟨rfl, rfl⟩ | h₁
    . rcases h₂ with ⟨-, rfl⟩ | h₂
      . rfl
      . exact (habsolute session₂ h₂).symm
    . rcases h₂ with ⟨rfl, rfl⟩ | h₂
      . exact habsolute session₁ h₁
      . exact h.agree digest' session₁ session₂ h₁ h₂
  dead := by
    intro digest' time hmem
    obtain ⟨hnone, session', hrecorded⟩ := hdead digest' time hmem
    refine ⟨hnone, session', ?_⟩
    rw [hrecords]
    exact List.mem_cons_of_mem _ hrecorded

theorem Kept.moves (hclock : sessions.clock ≤ next.clock)
    (hissued : sessions.issued ⊆ next.issued) (hmoves : Moves policy sessions next own)
    : Kept policy next := by
  cases hmoves with
  | same hentries hrecords hdead =>
    refine ⟨?_, ?_, ?_, ?_, ?_⟩
    . rw [hentries, hrecords]
      exact h.stored
    . rw [hrecords]
      exact fun digest session hmem => hissued (h.issued digest session hmem)
    . rw [hrecords]
      exact fun digest session hmem => (h.sound digest session hmem).mono hclock
    . rw [hrecords]
      exact h.agree
    . rw [hentries, hrecords, hdead]
      exact h.dead
  | @removed digest hsome hentries hrecords hdead =>
    refine ⟨?_, ?_, ?_, ?_, ?_⟩
    . rw [hentries, hrecords]
      intro digest' session hentry
      by_cases hsame : digest' = digest
      . rw [hsame, Function.update_self] at hentry
        cases hentry
      . rw [Function.update_of_ne hsame] at hentry
        exact h.stored digest' session hentry
    . rw [hrecords]
      exact fun digest session hmem => hissued (h.issued digest session hmem)
    . rw [hrecords]
      exact fun digest session hmem => (h.sound digest session hmem).mono hclock
    . rw [hrecords]
      exact h.agree
    . rw [hentries, hrecords, hdead]
      intro digest' time hmem
      rw [List.mem_cons, Prod.mk.injEq] at hmem
      rcases hmem with ⟨rfl, -⟩ | hmem
      . exact ⟨Function.update_self .., h.recorded_of_entry hsome⟩
      . obtain ⟨hnone, hrecorded⟩ := h.dead digest' time hmem
        refine ⟨?_, hrecorded⟩
        rw [Function.update_of_ne]
        . exact hnone
        . rintro rfl
          exact hsome hnone
  | @updated digest session session' hsome hsound hold habsolute hentries hrecords hdead =>
    apply h.addRecord hclock hissued (h.issued digest session' hold) hsound _ hrecords
    . intro digest' session'' hentry
      rw [hentries] at hentry
      by_cases hsame : digest' = digest
      . rw [hsame, Function.update_self] at hentry
        cases hentry
        exact .inl (by rw [hsame])
      . rw [Function.update_of_ne hsame] at hentry
        exact .inr hentry
    . intro digest' time hmem
      rw [hdead] at hmem
      obtain ⟨hnone, hrecorded⟩ := h.dead digest' time hmem
      refine ⟨?_, hrecorded⟩
      rw [hentries, Function.update_of_ne]
      . exact hnone
      . rintro rfl
        exact hsome hnone
    . exact fun session'' hmem => (h.agree digest session'' session' hmem hold).trans habsolute
  | @inserted digest session hown hfresh hin hsound hentries hrecords hdead =>
    apply h.addRecord hclock hissued hin hsound _ hrecords
    . intro digest' session'' hentry
      rw [hentries] at hentry
      by_cases hsame : digest' = digest
      . rw [hsame, Function.update_self] at hentry
        cases hentry
        exact .inl (by rw [hsame])
      . rw [Function.update_of_ne hsame] at hentry
        exact .inr hentry
    . intro digest' time hmem
      rw [hdead] at hmem
      obtain ⟨hnone, hrecorded⟩ := h.dead digest' time hmem
      refine ⟨?_, hrecorded⟩
      rw [hentries, Function.update_of_ne]
      . exact hnone
      . rintro rfl
        exact hfresh hrecorded
    . exact fun session'' hmem => absurd ⟨session'', hmem⟩ hfresh
  | @replaced oldDigest digest session hown hsome hfresh hin hsound hentries hrecords hdead =>
    have hold := h.recorded_of_entry hsome
    have hne : oldDigest ≠ digest := by
      rintro rfl
      exact hfresh hold
    apply h.addRecord hclock hissued hin hsound _ hrecords
    . intro digest' session'' hentry
      rw [hentries] at hentry
      by_cases hsame : digest' = digest
      . rw [hsame, Function.update_self] at hentry
        cases hentry
        exact .inl (by rw [hsame])
      . rw [Function.update_of_ne hsame] at hentry
        by_cases hgone : digest' = oldDigest
        . rw [hgone, Function.update_self] at hentry
          cases hentry
        . rw [Function.update_of_ne hgone] at hentry
          exact .inr hentry
    . intro digest' time hmem
      rw [hdead, List.mem_cons, Prod.mk.injEq] at hmem
      rcases hmem with ⟨rfl, -⟩ | hmem
      . refine ⟨?_, hold⟩
        rw [hentries, Function.update_of_ne hne, Function.update_self]
      . obtain ⟨hnone, hrecorded⟩ := h.dead digest' time hmem
        refine ⟨?_, hrecorded⟩
        rw [hentries, Function.update_of_ne (by rintro rfl; exact hfresh hrecorded),
          Function.update_of_ne (by rintro rfl; exact hsome hnone)]
        exact hnone
    . exact fun session'' hmem => absurd ⟨session'', hmem⟩ hfresh

end

-- A step of this relation is all that a thread which is not moved sees of the others.
structure Grows (sessions next : Sessions Claims) : Prop where
  time : sessions.time ≤ next.time
  clock : sessions.clock ≤ next.clock
  issued : sessions.issued ⊆ next.issued
  records : sessions.records ⊆ next.records
  dead : ∀ digest time, (digest, time) ∈ next.dead →
    (digest, time) ∈ sessions.dead ∨ time = sessions.time
  stillDead : sessions.dead ⊆ next.dead

theorem Moves.grows (h : Moves policy sessions next own) (htime : sessions.time ≤ next.time)
    (hclock : sessions.clock ≤ next.clock) (hissued : sessions.issued ⊆ next.issued)
    : Grows sessions next := by
  have hsame : next.dead = sessions.dead →
      (∀ digest time, (digest, time) ∈ next.dead →
        (digest, time) ∈ sessions.dead ∨ time = sessions.time) ∧ sessions.dead ⊆ next.dead := by
    intro hdead
    rw [hdead]
    exact ⟨fun _ _ => .inl, List.Subset.refl _⟩
  have hburied : ∀ {digest : String}, next.dead = (digest, sessions.time) :: sessions.dead →
      (∀ digest time, (digest, time) ∈ next.dead →
        (digest, time) ∈ sessions.dead ∨ time = sessions.time) ∧ sessions.dead ⊆ next.dead := by
    intro digest hdead
    rw [hdead]
    refine ⟨?_, List.subset_cons_self _ _⟩
    intro digest' time hmem
    rw [List.mem_cons, Prod.mk.injEq] at hmem
    exact hmem.elim (fun h => .inr h.2) .inl
  have hcons : ∀ {entry : String × StoredSession}, next.records = entry :: sessions.records →
      sessions.records ⊆ next.records := by
    intro entry hrecords
    rw [hrecords]
    exact List.subset_cons_self _ _
  cases h with
  | same _ hrecords hdead =>
    exact ⟨htime, hclock, hissued, by rw [hrecords]; exact List.Subset.refl _, (hsame hdead).1,
      (hsame hdead).2⟩
  | removed _ _ hrecords hdead =>
    exact ⟨htime, hclock, hissued, by rw [hrecords]; exact List.Subset.refl _, (hburied hdead).1,
      (hburied hdead).2⟩
  | updated _ _ _ _ _ hrecords hdead =>
    exact ⟨htime, hclock, hissued, hcons hrecords, (hsame hdead).1, (hsame hdead).2⟩
  | inserted _ _ _ _ _ hrecords hdead =>
    exact ⟨htime, hclock, hissued, hcons hrecords, (hsame hdead).1, (hsame hdead).2⟩
  | replaced _ _ _ _ _ _ hrecords hdead =>
    exact ⟨htime, hclock, hissued, hcons hrecords, (hburied hdead).1, (hburied hdead).2⟩

theorem Moves.recorded (h : Moves policy sessions next own)
    (hrecorded : Recorded next digest) (hown : own ≠ some digest)
    : Recorded sessions digest := by
  obtain ⟨session, hmem⟩ := hrecorded
  cases h with
  | same _ hrecords _ => exact ⟨session, hrecords ▸ hmem⟩
  | removed _ _ hrecords _ => exact ⟨session, hrecords ▸ hmem⟩
  | updated _ _ hold _ _ hrecords _ =>
    rw [hrecords, List.mem_cons, Prod.mk.injEq] at hmem
    rcases hmem with ⟨rfl, -⟩ | hmem
    . exact ⟨_, hold⟩
    . exact ⟨session, hmem⟩
  | inserted hself _ _ _ _ hrecords _ =>
    rw [hrecords, List.mem_cons, Prod.mk.injEq] at hmem
    rcases hmem with ⟨rfl, -⟩ | hmem
    . exact absurd hself hown
    . exact ⟨session, hmem⟩
  | replaced hself _ _ _ _ _ hrecords _ =>
    rw [hrecords, List.mem_cons, Prod.mk.injEq] at hmem
    rcases hmem with ⟨rfl, -⟩ | hmem
    . exact absurd hself hown
    . exact ⟨session, hmem⟩

def pending (sha256 : Sha256) (pc : SessionPc Claims) : Option String :=
  match pc with
  | .creating token _ _ => some (token.digest sha256)
  | .replacing _ newToken _ _ => some (newToken.digest sha256)
  | _ => none

def won (sha256 : Sha256) (pc : SessionPc Claims) : Option String :=
  match pc with
  | .rotated oldToken (.ok (some _)) => some (oldToken.digest sha256)
  | _ => none

def Inherits (sessions : Sessions Claims) (digest digest' : String) : Prop :=
  ∃ session session', (digest, session) ∈ sessions.records ∧ (digest', session') ∈ sessions.records ∧
    session.absoluteExpiresAtMs = session'.absoluteExpiresAtMs

structure Live (policy : SessionPolicy) (now : Nat) (session : StoredSession) : Prop where
  idle : now < session.idleExpiresAtMs
  absolute : now < session.absoluteExpiresAtMs
  seen : now < session.lastSeenAtMs + asMillis policy.idleTimeout

def PcSound (sha256 : Sha256) (policy : SessionPolicy) (sessions : Sessions Claims)
    (pc : SessionPc Claims) : Prop :=
  match pc with
  | .creating _ session _ => RecordSound policy sessions.clock session
  | .found token session => (token.digest sha256, session) ∈ sessions.records
  | .refreshing token stored now session =>
    RecordSound policy sessions.clock session ∧ now < session.idleExpiresAtMs ∧ Live policy now stored ∧
      (token.digest sha256, stored) ∈ sessions.records ∧
      stored.absoluteExpiresAtMs = session.absoluteExpiresAtMs
  | .loaded token (.ok (some session)) seen time =>
    time < sessions.time ∧ (∀ death, (token.digest sha256, death) ∈ sessions.dead → time < death) ∧
      ∃ stored now, seen = some (stored, now) ∧ (token.digest sha256, stored) ∈ sessions.records ∧
        Live policy now stored ∧ now < session.idleExpiresAtMs ∧
        session.absoluteExpiresAtMs = stored.absoluteExpiresAtMs
  | .existing token _ session => (token.digest sha256, session) ∈ sessions.records
  | .replacing oldToken _ session _ =>
    RecordSound policy sessions.clock session ∧
      ∃ session', (oldToken.digest sha256, session') ∈ sessions.records ∧
        session'.absoluteExpiresAtMs = session.absoluteExpiresAtMs
  | .rotated oldToken (.ok (some created)) =>
    (∃ time, (oldToken.digest sha256, time) ∈ sessions.dead) ∧
      Inherits sessions (oldToken.digest sha256) created.session.tokenDigest
  | .revoked token true => ∃ time, (token.digest sha256, time) ∈ sessions.dead
  | _ => True

theorem PcSound.grow (h : PcSound sha256 policy sessions pc) (hgrows : Grows sessions next)
    : PcSound sha256 policy next pc := by
  unfold PcSound at h ⊢
  split at h
  . exact h.mono hgrows.clock
  . exact hgrows.records h
  . obtain ⟨hsound, hidle, hlive, hmem, hsame⟩ := h
    exact ⟨hsound.mono hgrows.clock, hidle, hlive, hgrows.records hmem, hsame⟩
  . obtain ⟨htime, hdead, stored, now, hseen, hmem, hlive⟩ := h
    refine ⟨lt_of_lt_of_le htime hgrows.time, ?_, stored, now, hseen, hgrows.records hmem, hlive⟩
    intro death hmem
    cases hgrows.dead _ death hmem with
    | inl hold => exact hdead death hold
    | inr hnew =>
      rw [hnew]
      exact htime
  . exact hgrows.records h
  . obtain ⟨hsound, session', hmem, hsame⟩ := h
    exact ⟨hsound.mono hgrows.clock, session', hgrows.records hmem, hsame⟩
  . obtain ⟨⟨time, hdead⟩, session, session', hmem, hmem', hsame⟩ := h
    exact ⟨⟨time, hgrows.stillDead hdead⟩, session, session', hgrows.records hmem,
      hgrows.records hmem', hsame⟩
  . obtain ⟨time, hdead⟩ := h
    exact ⟨time, hgrows.stillDead hdead⟩
  . trivial

structure Sound (sha256 : Sha256) (policy : SessionPolicy) (sessions : Sessions Claims) : Prop where
  kept : Kept policy sessions
  pcs : ∀ pc ∈ sessions.threads, PcSound sha256 policy sessions pc
  fresh : ∀ pc ∈ sessions.threads, ∀ digest, pending sha256 pc = some digest →
    digest ∈ sessions.issued ∧ ¬ Recorded sessions digest
  pendingUnique : ∀ (i j : Nat) pc pc' digest, sessions.threads[i]? = some pc →
    sessions.threads[j]? = some pc' → pending sha256 pc = some digest →
    pending sha256 pc' = some digest → i = j
  wonUnique : ∀ (i j : Nat) pc pc' digest, sessions.threads[i]? = some pc →
    sessions.threads[j]? = some pc' → won sha256 pc = some digest → won sha256 pc' = some digest →
    i = j

theorem Sound.initial (h : Initial sessions) : Sound sha256 policy sessions := by
  rw [h]
  refine ⟨⟨?_, ?_, ?_, ?_, ?_⟩, ?_, ?_, ?_, ?_⟩ <;> simp

def Turns (sessions next : Sessions Claims) (n : Nat) (pc : SessionPc Claims) : Prop :=
  ∀ (j : Nat) other, next.threads[j]? = some other →
    (j = n ∧ other = pc) ∨ (j ≠ n ∧ sessions.threads[j]? = some other)

theorem turns_call (h : next.threads = sessions.threads ++ [pc])
    : Turns sessions next sessions.threads.length pc := by
  intro j other hother
  rw [h, List.getElem?_append] at hother
  split at hother
  . next hlt => exact .inr ⟨by omega, hother⟩
  . rw [List.getElem?_singleton] at hother
    split at hother
    . cases hother
      exact .inl ⟨by omega, rfl⟩
    . cases hother

theorem turns_set (h : next.threads = sessions.threads.set i pc)
    : Turns sessions next i pc := by
  intro j other hother
  rw [h, List.getElem?_set] at hother
  split at hother
  . next hij =>
    split at hother
    . cases hother
      exact .inl ⟨hij.symm, rfl⟩
    . cases hother
  . next hij => exact .inr ⟨Ne.symm hij, hother⟩

theorem Sound.turn {n : Nat} (h : Sound sha256 policy sessions)
    (hturns : Turns sessions next n pc) (hmoves : Moves policy sessions next own)
    (htime : sessions.time ≤ next.time) (hclock : sessions.clock ≤ next.clock)
    (hissued : sessions.issued ⊆ next.issued)
    (hown : ∀ digest, own = some digest → ∃ before, sessions.threads[n]? = some before ∧
      pending sha256 before = some digest)
    (hpc : PcSound sha256 policy next pc)
    (hpending : ∀ digest, pending sha256 pc = some digest →
      digest ∉ sessions.issued ∧ digest ∈ next.issued)
    (hwon : ∀ digest, won sha256 pc = some digest → ∀ time, (digest, time) ∉ sessions.dead)
    : Sound sha256 policy next := by
  have hgrows := hmoves.grows htime hclock hissued
  have hmem : ∀ {j : Nat} {other : SessionPc Claims}, sessions.threads[j]? = some other →
      other ∈ sessions.threads := fun h => List.mem_of_getElem? h
  constructor
  . exact h.kept.moves hclock hissued hmoves
  . intro other hother
    obtain ⟨j, hj⟩ := List.mem_iff_getElem?.mp hother
    rcases hturns j other hj with ⟨-, rfl⟩ | ⟨-, hold⟩
    . exact hpc
    . exact (h.pcs other (hmem hold)).grow hgrows
  . intro other hother digest hdigest
    obtain ⟨j, hj⟩ := List.mem_iff_getElem?.mp hother
    rcases hturns j other hj with ⟨-, rfl⟩ | ⟨hne, hold⟩
    . obtain ⟨hnew, hin⟩ := hpending digest hdigest
      refine ⟨hin, ?_⟩
      intro hrecorded
      have howned : own ≠ some digest := by
        intro hself
        obtain ⟨before, hbefore, hself⟩ := hown digest hself
        exact hnew (h.fresh before (hmem hbefore) digest hself).1
      obtain ⟨session, hrecord⟩ := hmoves.recorded hrecorded howned
      exact hnew (h.kept.issued digest session hrecord)
    . obtain ⟨hin, hnot⟩ := h.fresh other (hmem hold) digest hdigest
      refine ⟨hissued hin, ?_⟩
      intro hrecorded
      apply hnot
      apply hmoves.recorded hrecorded
      intro hself
      obtain ⟨before, hbefore, hself⟩ := hown digest hself
      exact hne (h.pendingUnique j n other before digest hold hbefore hdigest hself)
  . intro i j pc₁ pc₂ digest h₁ h₂ hd₁ hd₂
    rcases hturns i pc₁ h₁ with ⟨rfl, rfl⟩ | ⟨hne₁, hold₁⟩
    . rcases hturns j pc₂ h₂ with ⟨rfl, -⟩ | ⟨-, hold₂⟩
      . rfl
      . exact absurd (h.fresh pc₂ (hmem hold₂) digest hd₂).1 (hpending digest hd₁).1
    . rcases hturns j pc₂ h₂ with ⟨rfl, rfl⟩ | ⟨-, hold₂⟩
      . exact absurd (h.fresh pc₁ (hmem hold₁) digest hd₁).1 (hpending digest hd₂).1
      . exact h.pendingUnique i j pc₁ pc₂ digest hold₁ hold₂ hd₁ hd₂
  . have hburied : ∀ {pc : SessionPc Claims} {digest : String}, pc ∈ sessions.threads →
        won sha256 pc = some digest → ∃ time, (digest, time) ∈ sessions.dead := by
      intro pc digest hpc hdigest
      have hsound := h.pcs pc hpc
      unfold won at hdigest
      split at hdigest
      . cases hdigest
        exact hsound.1
      . cases hdigest
    intro i j pc₁ pc₂ digest h₁ h₂ hd₁ hd₂
    rcases hturns i pc₁ h₁ with ⟨rfl, rfl⟩ | ⟨hne₁, hold₁⟩
    . rcases hturns j pc₂ h₂ with ⟨rfl, -⟩ | ⟨-, hold₂⟩
      . rfl
      . obtain ⟨time, hdead⟩ := hburied (hmem hold₂) hd₂
        exact absurd hdead (hwon digest hd₁ time)
    . rcases hturns j pc₂ h₂ with ⟨rfl, rfl⟩ | ⟨-, hold₂⟩
      . obtain ⟨time, hdead⟩ := hburied (hmem hold₁) hd₁
        exact absurd hdead (hwon digest hd₂ time)
      . exact h.wonUnique i j pc₁ pc₂ digest hold₁ hold₂ hd₁ hd₂

def tick (sessions acted : Sessions Claims) : Sessions Claims :=
  { acted with time := sessions.time + 1 }

structure Keeps (sessions acted : Sessions Claims) : Prop where
  threads : acted.threads = sessions.threads
  entries : acted.entries = sessions.entries
  records : acted.records = sessions.records
  dead : acted.dead = sessions.dead
  clock : sessions.clock ≤ acted.clock
  issued : sessions.issued ⊆ acted.issued

theorem Keeps.refl (sessions : Sessions Claims) : Keeps sessions sessions :=
  ⟨rfl, rfl, rfl, rfl, Nat.le_refl _, List.Subset.refl _⟩

theorem Keeps.readClock (h : ∀ now, unixMillis reading = .ok now → sessions.clock ≤ now)
    : Keeps sessions (sessions.readClock reading) := by
  unfold Sessions.readClock
  split
  . next now hnow => exact ⟨rfl, rfl, rfl, rfl, h now hnow, List.Subset.refl _⟩
  . exact .refl sessions

theorem Keeps.issue (h : Keeps sessions acted) (token : SessionToken)
    : Keeps sessions (acted.issue sha256 token) :=
  ⟨h.threads, h.entries, h.records, h.dead, h.clock, List.subset_cons_of_subset _ h.issued⟩

theorem readClock_clock {now : Nat} (h : unixMillis reading = .ok now)
    : (sessions.readClock reading).clock = now := by
  unfold readClock
  rw [h]

theorem Sound.call (h : Sound sha256 policy sessions) (hkeeps : Keeps sessions acted)
    (hpc : PcSound sha256 policy (sessions.tick (acted.call pc)) pc)
    (hpending : ∀ digest, pending sha256 pc = some digest →
      digest ∉ sessions.issued ∧ digest ∈ acted.issued)
    (hwon : won sha256 pc = none)
    : Sound sha256 policy (sessions.tick (acted.call pc)) := by
  have hmoves : Moves policy sessions (sessions.tick (acted.call pc)) none :=
    .same hkeeps.entries hkeeps.records hkeeps.dead
  have hturns : Turns sessions (sessions.tick (acted.call pc)) sessions.threads.length pc :=
    turns_call (by rw [← hkeeps.threads]; rfl)
  refine h.turn hturns hmoves (Nat.le_succ _) hkeeps.clock hkeeps.issued (by simp) hpc hpending ?_
  intro digest hdigest
  rw [hwon] at hdigest
  cases hdigest

theorem Sound.setPc (h : Sound sha256 policy sessions) (hkeeps : Keeps sessions acted)
    (hpc : PcSound sha256 policy (sessions.tick (acted.setPc i pc)) pc)
    (hpending : ∀ digest, pending sha256 pc = some digest →
      digest ∉ sessions.issued ∧ digest ∈ acted.issued)
    (hwon : won sha256 pc = none)
    : Sound sha256 policy (sessions.tick (acted.setPc i pc)) := by
  have hmoves : Moves policy sessions (sessions.tick (acted.setPc i pc)) none :=
    .same hkeeps.entries hkeeps.records hkeeps.dead
  have hturns : Turns sessions (sessions.tick (acted.setPc i pc)) i pc :=
    turns_set (by rw [← hkeeps.threads]; rfl)
  refine h.turn hturns hmoves (Nat.le_succ _) hkeeps.clock hkeeps.issued (by simp) hpc hpending ?_
  intro digest hdigest
  rw [hwon] at hdigest
  cases hdigest

theorem recordSound_of_seen {now : Nat} (hseen : session.lastSeenAtMs = now)
    (hidle : session.idleExpiresAtMs ≤ saturatingAdd now (asMillis policy.idleTimeout))
    : RecordSound policy now session := by
  unfold saturatingAdd at hidle
  exact ⟨le_of_eq hseen, by omega, by omega⟩

theorem random_ok {drawn : Option SessionToken} (h : random drawn = .ok token)
    : drawn = some token := by
  unfold random at h
  split at h
  . cases h
  . cases h
    rfl

section

variable (h : Sound sha256 policy sessions)

include h

theorem Sound.create {drawn : Option SessionToken}
    (hclock : ∀ now, unixMillis reading = .ok now → sessions.clock ≤ now)
    (hdrawn : ∀ token, drawn = some token → token.digest sha256 ∉ sessions.issued)
    : Sound sha256 policy
        (sessions.tick (sessions.create sha256 codec policy claims reading drawn)) := by
  have hkeeps := Keeps.readClock hclock
  unfold Sessions.create
  split
  . exact h.call hkeeps trivial (by simp [pending]) rfl
  . next now hnow =>
    split
    . exact h.call hkeeps trivial (by simp [pending]) rfl
    . next token htoken =>
      have hnew := hdrawn token (random_ok htoken)
      split
      . exact h.call (hkeeps.issue token) trivial (by simp [pending]) rfl
      . next session hsession =>
        obtain ⟨hseen, hidle⟩ := SessionPolicy.stored_ok hsession
        apply h.call (hkeeps.issue token) _ _ rfl
        . dsimp only [PcSound, tick, Sessions.call, issue]
          rw [readClock_clock hnow]
          exact recordSound_of_seen hseen (le_of_eq hidle)
        . rintro digest ⟨⟩
          exact ⟨hnew, List.mem_cons_self⟩

theorem Sound.read (hacted : sessions.read sha256 i = some acted)
    : Sound sha256 policy (sessions.tick acted) := by
  unfold Sessions.read at hacted
  split at hacted
  . split at hacted
    . cases hacted
      exact h.setPc (.refl sessions) trivial (by simp [pending]) rfl
    . next session hsession =>
      cases hacted
      exact h.setPc (.refl sessions) (h.kept.stored _ session hsession) (by simp [pending]) rfl
  . split at hacted
    . cases hacted
      exact h.setPc (.refl sessions) trivial (by simp [pending]) rfl
    . next session hsession =>
      cases hacted
      exact h.setPc (.refl sessions) (h.kept.stored _ session hsession) (by simp [pending]) rfl
  . cases hacted

theorem Sound.clockLoad (hthread : sessions.threads[i]? = some (.found token session))
    (hclock : ∀ now, unixMillis reading = .ok now → sessions.clock ≤ now)
    : Sound sha256 policy (sessions.tick (sessions.clockLoad policy i token session reading)) := by
  have hkeeps := Keeps.readClock hclock
  have hrecord : (token.digest sha256, session) ∈ sessions.records :=
    h.pcs _ (List.mem_of_getElem? hthread)
  unfold Sessions.clockLoad
  split
  . exact h.setPc hkeeps trivial (by simp [pending]) rfl
  . next now hnow =>
    split
    . exact h.setPc hkeeps trivial (by simp [pending]) rfl
    . exact h.setPc hkeeps trivial (by simp [pending]) rfl
    . next refreshed hrefreshed =>
      obtain ⟨hidle, habsolute, hseen, hsame, hnew⟩ := SessionPolicy.refresh_some hrefreshed
      have hsound := h.kept.sound _ session hrecord
      have hle := hclock now hnow
      have := hsound.seen
      have := hsound.idle
      have := hsound.bound
      have hlater : now < saturatingAdd now (asMillis policy.idleTimeout) := by
        unfold saturatingAdd
        omega
      apply h.setPc hkeeps _ (by simp [pending]) rfl
      dsimp only [PcSound, tick, Sessions.setPc]
      rw [readClock_clock hnow]
      refine ⟨recordSound_of_seen hseen (by omega), by omega, ⟨hidle, habsolute, by omega⟩, ?_, hsame.symm⟩
      rw [hkeeps.records]
      exact hrecord

theorem Sound.clockRotate {drawn : Option SessionToken}
    (hthread : sessions.threads[i]? = some (.existing token claims session))
    (hclock : ∀ now, unixMillis reading = .ok now → sessions.clock ≤ now)
    (hdrawn : ∀ token, drawn = some token → token.digest sha256 ∉ sessions.issued)
    : Sound sha256 policy
        (sessions.tick (sessions.clockRotate sha256 codec policy i token claims session reading drawn))
    := by
  have hkeeps := Keeps.readClock hclock
  have hrecord : (token.digest sha256, session) ∈ sessions.records :=
    h.pcs _ (List.mem_of_getElem? hthread)
  unfold Sessions.clockRotate
  split
  . exact h.setPc hkeeps trivial (by simp [pending]) rfl
  . next now hnow =>
    split
    . exact h.setPc hkeeps trivial (by simp [pending]) rfl
    . split
      . exact h.setPc hkeeps trivial (by simp [pending]) rfl
      . next newToken htoken =>
        have hnew := hdrawn newToken (random_ok htoken)
        split
        . exact h.setPc (hkeeps.issue newToken) trivial (by simp [pending]) rfl
        . next successor hsuccessor =>
          obtain ⟨hseen, hidle, habsolute⟩ := SessionPolicy.successor_ok hsuccessor
          apply h.setPc (hkeeps.issue newToken) _ _ rfl
          . dsimp only [PcSound, tick, Sessions.setPc, issue]
            rw [readClock_clock hnow, hkeeps.records]
            exact ⟨recordSound_of_seen hseen (le_of_eq hidle), session, hrecord, habsolute.symm⟩
          . rintro digest ⟨⟩
            exact ⟨hnew, List.mem_cons_self⟩

end

theorem remove_moves (sessions : Sessions Claims) (token : SessionToken) (i : Nat) (pc : SessionPc Claims)
    : Moves policy sessions (sessions.tick ((sessions.remove sha256 token).1.setPc i pc)) none := by
  cases hentry : sessions.entries (token.digest sha256) with
  | none =>
    have hentries : Function.update sessions.entries (token.digest sha256) none = sessions.entries := by
      rw [← hentry]
      exact Function.update_eq_self ..
    apply Moves.same
    . simp [tick, setPc, remove, InMemorySessionStore.revoke, hentry, hentries]
    . simp [tick, setPc, remove, InMemorySessionStore.revoke, hentry]
    . simp [tick, setPc, remove, InMemorySessionStore.revoke, hentry]
  | some session =>
    have hsome : sessions.entries (token.digest sha256) ≠ none := by simp [hentry]
    apply Moves.removed hsome
    . simp [tick, setPc, remove, InMemorySessionStore.revoke, hentry, bury]
    . simp [tick, setPc, remove, InMemorySessionStore.revoke, hentry, bury]
    . simp [tick, setPc, remove, InMemorySessionStore.revoke, hentry, bury]

theorem remove_rest (sessions : Sessions Claims) (token : SessionToken)
    : (sessions.remove sha256 token).1.threads = sessions.threads ∧
        (sessions.remove sha256 token).1.clock = sessions.clock ∧
        (sessions.remove sha256 token).1.issued = sessions.issued := by
  unfold remove
  dsimp only
  split <;> exact ⟨rfl, rfl, rfl⟩

theorem dead_of_remove (h : (sessions.remove sha256 token).2 = true)
    : (token.digest sha256, sessions.time) ∈ (sessions.remove sha256 token).1.dead := by
  unfold Sessions.remove at h ⊢
  dsimp only at h ⊢
  rw [if_pos h]
  exact List.mem_cons_self

theorem revoked_sound (sessions : Sessions Claims) (i : Nat) (token : SessionToken)
    : PcSound sha256 policy
        (sessions.tick ((sessions.remove sha256 token).1.setPc i
          (.revoked token (sessions.remove sha256 token).2)))
        (.revoked token (sessions.remove sha256 token).2) := by
  cases hexisted : (sessions.remove sha256 token).2 with
  | false => trivial
  | true => exact ⟨sessions.time, dead_of_remove hexisted⟩

section

variable (h : Sound sha256 policy sessions)

include h

theorem Sound.remove (hpc : PcSound sha256 policy
      (sessions.tick ((sessions.remove sha256 token).1.setPc i pc)) pc)
    (hpending : pending sha256 pc = none) (hwon : won sha256 pc = none)
    : Sound sha256 policy (sessions.tick ((sessions.remove sha256 token).1.setPc i pc)) := by
  have hrest : (sessions.remove sha256 token).1.threads = sessions.threads ∧ _ :=
    remove_rest sessions token
  obtain ⟨hthreads, hclock, hissued⟩ := hrest
  have hturns : Turns sessions (sessions.tick ((sessions.remove sha256 token).1.setPc i pc)) i pc :=
    turns_set (by rw [← hthreads]; rfl)
  refine h.turn hturns (remove_moves sessions token i pc) (Nat.le_succ _) (le_of_eq hclock.symm) ?_
    (by simp) hpc (by simp [hpending]) (by simp [hwon])
  dsimp only [tick, Sessions.setPc]
  rw [hissued]
  exact List.Subset.refl _

theorem Sound.writeCreate (hthread : sessions.threads[i]? = some (.creating token session claims))
    : Sound sha256 policy
        (sessions.tick (sessions.writeCreate sha256 policy i token session claims)) := by
  have hmem := List.mem_of_getElem? hthread
  have hsound : RecordSound policy sessions.clock session := h.pcs _ hmem
  obtain ⟨hissued, hfresh⟩ := h.fresh _ hmem _ rfl
  have hown : ∀ digest, some (token.digest sha256) = some digest →
      ∃ before, sessions.threads[i]? = some before ∧ pending sha256 before = some digest := by
    rintro digest ⟨⟩
    exact ⟨_, hthread, rfl⟩
  unfold Sessions.writeCreate
  dsimp only
  split
  . refine h.turn (turns_set rfl) (.inserted rfl hfresh hissued hsound rfl rfl rfl) (Nat.le_succ _)
      (Nat.le_refl _) (List.Subset.refl _) hown trivial (by simp [pending]) (by simp [won])
  . refine h.turn (turns_set rfl) (.inserted rfl hfresh hissued hsound rfl rfl rfl) (Nat.le_succ _)
      (Nat.le_refl _) (List.Subset.refl _) hown trivial (by simp [pending]) (by simp [won])

theorem Sound.writeUpdate {stored : StoredSession} {now : Nat}
    (hthread : sessions.threads[i]? = some (.refreshing token stored now session))
    : Sound sha256 policy
        (sessions.tick (sessions.writeUpdate sha256 codec i token stored now session)) := by
  obtain ⟨hsound, hidle, hlive, hold, hsame⟩ := h.pcs _ (List.mem_of_getElem? hthread)
  unfold Sessions.writeUpdate InMemorySessionStore.update
  dsimp only
  by_cases hentry : (sessions.entries (token.digest sha256)).isNone
  . rw [if_pos hentry]
    exact h.setPc (.refl sessions) trivial (by simp [pending]) rfl
  . rw [if_neg hentry]
    have hsome : sessions.entries (token.digest sha256) ≠ none := by simpa using hentry
    have hown : ∀ digest, (none : Option String) = some digest →
        ∃ before, sessions.threads[i]? = some before ∧ pending sha256 before = some digest := by simp
    rw [if_pos rfl]
    split
    . refine h.turn (turns_set rfl) (.updated hsome hsound hold hsame rfl rfl rfl) (Nat.le_succ _)
        (Nat.le_refl _) (List.Subset.refl _) hown trivial (by simp [pending]) (by simp [won])
    . refine h.turn (turns_set rfl) (.updated hsome hsound hold hsame rfl rfl rfl) (Nat.le_succ _)
        (Nat.le_refl _) (List.Subset.refl _) hown ?_ (by simp [pending]) (by simp [won])
      -- the token is in the store at this time, so it is not dead
      refine ⟨Nat.lt_succ_self _, ?_, stored, now, rfl, List.mem_cons_of_mem _ hold, hlive, hidle, hsame.symm⟩
      intro death hdead
      exact absurd hdead (h.kept.not_dead hsome death)

theorem Sound.writeReplace {oldToken newToken : SessionToken}
    (hthread : sessions.threads[i]? = some (.replacing oldToken newToken session claims))
    : Sound sha256 policy
        (sessions.tick (sessions.writeReplace sha256 policy i oldToken newToken session claims)) := by
  have hmem := List.mem_of_getElem? hthread
  obtain ⟨hsound, session', hold, hsame⟩ := h.pcs _ hmem
  obtain ⟨hissued, hfresh⟩ := h.fresh _ hmem _ rfl
  have hown : ∀ digest, some (newToken.digest sha256) = some digest →
      ∃ before, sessions.threads[i]? = some before ∧ pending sha256 before = some digest := by
    rintro digest ⟨⟩
    exact ⟨_, hthread, rfl⟩
  unfold Sessions.writeReplace InMemorySessionStore.replace
  by_cases hentry : (sessions.entries (oldToken.digest sha256)).isNone
  . rw [if_pos hentry]
    exact h.setPc (.refl sessions) trivial (by simp [pending]) rfl
  . rw [if_neg hentry]
    have hsome : sessions.entries (oldToken.digest sha256) ≠ none := by simpa using hentry
    by_cases hnew : (sessions.entries (newToken.digest sha256)).isSome
    . rw [if_pos hnew]
      exact h.setPc (.refl sessions) trivial (by simp [pending]) rfl
    . rw [if_neg hnew]
      refine h.turn (turns_set rfl) (.replaced rfl hsome hfresh hissued hsound rfl rfl rfl)
        (Nat.le_succ _) (Nat.le_refl _) (List.Subset.refl _) hown ?_ (by simp [pending]) ?_
      . refine ⟨⟨sessions.time, List.mem_cons_self⟩, session', session, ?_, List.mem_cons_self, hsame⟩
        exact List.mem_cons_of_mem _ hold
      . rintro digest ⟨⟩
        exact h.kept.not_dead hsome

theorem Sound.write (hacted : sessions.write sha256 codec policy i = some acted)
    : Sound sha256 policy (sessions.tick acted) := by
  unfold Sessions.write at hacted
  split at hacted
  . next hthread =>
    cases hacted
    exact h.writeCreate hthread
  . cases hacted
    exact h.remove trivial rfl rfl
  . next hthread =>
    cases hacted
    exact h.writeUpdate hthread
  . cases hacted
    exact h.remove trivial rfl rfl
  . next hthread =>
    cases hacted
    exact h.writeReplace hthread
  . cases hacted
    exact h.remove (revoked_sound sessions i _) rfl rfl
  . cases hacted

theorem Sound.step {label : SessionStep Claims} (hsteady : Steady sha256 sessions label)
    (hstep : sessions.step sha256 codec policy label = some next)
    : Sound sha256 policy next := by
  obtain ⟨acted, hacted, rfl⟩ := Option.map_eq_some_iff.mp hstep
  cases label with
  | create claims reading drawn =>
    cases hacted
    exact h.create hsteady.1 hsteady.2
  | load token =>
    cases hacted
    exact h.call (.refl sessions) trivial (by simp [pending]) rfl
  | rotate token claims =>
    cases hacted
    exact h.call (.refl sessions) trivial (by simp [pending]) rfl
  | revoke token =>
    cases hacted
    exact h.call (.refl sessions) trivial (by simp [pending]) rfl
  | read i => exact h.read hacted
  | clock i reading drawn =>
    dsimp only [act] at hacted
    unfold clockStep at hacted
    split at hacted
    . next hthread =>
      cases hacted
      exact h.clockLoad hthread hsteady.1
    . next hthread =>
      cases hacted
      exact h.clockRotate hthread hsteady.1 hsteady.2
    . cases hacted
  | write i => exact h.write hacted

end

theorem sound_of_run (h : Reach.Under Initial (step sha256 codec policy) (Steady sha256) sessions)
    : Sound sha256 policy sessions := by
  apply h.invariant
  . exact fun _ => Sound.initial
  . exact fun _ _ _ hs hsteady hstep => hs.step hsteady hstep

/--
One rotation of a thread after another, from the first token to the last.
-/
inductive Chain (sha256 : Sha256) (sessions : Sessions Claims) : String → String → Prop where
  | refl (digest : String) : Chain sha256 sessions digest digest
  | rotated {digest : String} {oldToken : SessionToken} {created : CreatedSession Claims}
    (hchain : Chain sha256 sessions digest (oldToken.digest sha256))
    (hthread : .rotated oldToken (.ok (some created)) ∈ sessions.threads) :
    Chain sha256 sessions digest created.session.tokenDigest

theorem Sound.absolute_of_chain (h : Sound sha256 policy sessions) {digest digest' : String}
    (hchain : Chain sha256 sessions digest digest') {session session' : StoredSession}
    (hfirst : (digest, session) ∈ sessions.records) (hlast : (digest', session') ∈ sessions.records)
    : session'.absoluteExpiresAtMs = session.absoluteExpiresAtMs := by
  induction hchain generalizing session' with
  | refl => exact h.kept.agree digest session' session hlast hfirst
  | rotated _ hthread ih =>
    obtain ⟨-, middle, middle', hmiddle, hmiddle', hsame⟩ := h.pcs _ hthread
    rw [h.kept.agree _ session' middle' hlast hmiddle', ← hsame]
    exact ih hmiddle

end Sessions

/--
With a clock that does not go back and new tokens: what has been rotated away, revoked or found expired is
never in the store again, and no later load returns it; no two rotations of one token succeed; along a
chain of rotations the absolute expiry does not grow; and a load returns a session only where the record that
it has read had not expired.
-/
theorem session_lifecycle (sha256 : Sha256) {Claims : Type} (codec : ClaimsCodec Claims)
    (policy : SessionPolicy) (sessions : Sessions Claims)
    (hrun : Reach.Under Sessions.Initial (Sessions.step sha256 codec policy)
      (Sessions.Steady sha256) sessions)
    : (∀ token death, (SessionToken.digest sha256 token, death) ∈ sessions.dead →
        sessions.entries.read sha256 token = none ∧
        ∀ session seen time,
          .loaded token (.ok (some session)) seen time ∈ sessions.threads → time < death) ∧
      (∀ (i j : Nat) oldToken created created',
        sessions.threads[i]? = some (.rotated oldToken (.ok (some created))) →
        sessions.threads[j]? = some (.rotated oldToken (.ok (some created'))) → i = j) ∧
      (∀ oldToken created, .rotated oldToken (.ok (some created)) ∈ sessions.threads →
        ∃ death, (oldToken.digest sha256, death) ∈ sessions.dead) ∧
      (∀ token, .revoked token true ∈ sessions.threads →
        ∃ death, (token.digest sha256, death) ∈ sessions.dead) ∧
      (∀ digest digest' session session', Sessions.Chain sha256 sessions digest digest' →
        (digest, session) ∈ sessions.records → (digest', session') ∈ sessions.records →
        session'.absoluteExpiresAtMs ≤ session.absoluteExpiresAtMs) ∧
      ∀ token session seen time, .loaded token (.ok (some session)) seen time ∈ sessions.threads →
        ∃ stored now, seen = some (stored, now) ∧ (token.digest sha256, stored) ∈ sessions.records ∧
          Sessions.Live policy now stored ∧ now < session.idleExpiresAtMs ∧
          now < session.absoluteExpiresAtMs := by
  have h := Sessions.sound_of_run hrun
  refine ⟨?_, ?_, ?_, ?_, ?_, ?_⟩
  . intro token death hdead
    refine ⟨(h.kept.dead _ death hdead).1, ?_⟩
    intro session seen time hthread
    obtain ⟨-, hbefore, -⟩ := h.pcs _ hthread
    exact hbefore death hdead
  . intro i j oldToken created created' hi hj
    exact h.wonUnique i j _ _ (oldToken.digest sha256) hi hj rfl rfl
  . intro oldToken created hthread
    exact (h.pcs _ hthread).1
  . intro token hthread
    exact h.pcs _ hthread
  . intro digest digest' session session' hchain hfirst hlast
    exact le_of_eq (h.absolute_of_chain hchain hfirst hlast)
  . intro token session seen time hthread
    obtain ⟨-, -, stored, now, hseen, hmem, hlive, hidle, hsame⟩ := h.pcs _ hthread
    exact ⟨stored, now, hseen, hmem, hlive, hidle, by rw [hsame]; exact hlive.absolute⟩

namespace Sessions

-- The guard evaluated, for runs on fixed calls.
def steady (sha256 : Sha256) (sessions : Sessions Claims) (label : SessionStep Claims) : Bool :=
  match label with
  | .create _ reading drawn | .clock _ reading drawn =>
    (unixMillis reading).toOption.all (fun now => sessions.clock ≤ now) &&
      drawn.all (fun token => token.digest sha256 ∉ sessions.issued)
  | _ => true

theorem steady_of_eq_true {label : SessionStep Claims} (h : sessions.steady sha256 label = true)
    : Steady sha256 sessions label := by
  unfold steady at h
  unfold Steady
  split at h
  . rw [Bool.and_eq_true, Option.all_eq_true, Option.all_eq_true] at h
    refine ⟨?_, ?_⟩
    . intro now hnow
      exact of_decide_eq_true (h.1 now (by rw [hnow]; rfl))
    . intro token htoken
      exact of_decide_eq_true (h.2 token htoken)
  . rw [Bool.and_eq_true, Option.all_eq_true, Option.all_eq_true] at h
    refine ⟨?_, ?_⟩
    . intro now hnow
      exact of_decide_eq_true (h.1 now (by rw [hnow]; rfl))
    . intro token htoken
      exact of_decide_eq_true (h.2 token htoken)
  . trivial

end Sessions

def memberPolicy : SessionPolicy :=
  { id := "member"
    schemaVersion := 1
    cookie := ⟨"__Host-pliego", "/", true, true, .lax⟩
    idleTimeout := 1800 * 10 ^ 9
    absoluteTimeout := 86400 * 10 ^ 9
    maxClaimBytes := 4096
    assurance := "password" }

def boolClaims : ClaimsCodec Bool := ⟨boolCodec.toVec, boolCodec.fromSlice⟩

def memberToken (letter : Char) : SessionToken :=
  ⟨String.ofList (List.replicate 43 letter)⟩

def rotateTwiceThenRevoke : List (SessionStep Bool) :=
  [ .create true (some 1000) (some (memberToken 'a')),
    .write 0,
    .rotate (memberToken 'a') true,
    .rotate (memberToken 'a') false,
    .read 1,
    .read 2,
    .clock 1 (some 2000) (some (memberToken 'b')),
    .clock 2 (some 2000) (some (memberToken 'c')),
    .write 1,
    .write 2,
    .load (memberToken 'b'),
    .read 3,
    .clock 3 (some 3000) none,
    .write 3,
    .load (memberToken 'b'),
    .read 4,
    .clock 4 (some 4000) none,
    .revoke (memberToken 'b'),
    .write 5,
    .write 4 ]

namespace Sessions

def noSessions : Sessions Bool := ⟨0, 0, fun _ => none, [], [], [], []⟩

theorem noSessions_initial : Initial noSessions := rfl

def rotatedBy (sessions : Sessions Bool) (i : Nat) : Option SessionToken :=
  match sessions.threads[i]? with
  | some (.rotated oldToken (.ok (some _))) => some oldToken
  | _ => none

def loadedBy (sessions : Sessions Bool) (i : Nat) : Option (SessionToken × Nat) :=
  match sessions.threads[i]? with
  | some (.loaded token (.ok (some _)) (some (_, now)) _) => some (token, now)
  | _ => none

theorem rotatedBy_eq_some {sessions : Sessions Bool} {i : Nat} {oldToken : SessionToken}
    (h : sessions.rotatedBy i = some oldToken)
    : ∃ created, sessions.threads[i]? = some (.rotated oldToken (.ok (some created))) := by
  unfold rotatedBy at h
  split at h
  . next created hthread =>
    cases h
    exact ⟨created, hthread⟩
  . cases h

theorem loadedBy_eq_some {sessions : Sessions Bool} {i now : Nat} {token : SessionToken}
    (h : sessions.loadedBy i = some (token, now))
    : ∃ session stored time,
        sessions.threads[i]? = some (.loaded token (.ok (some session)) (some (stored, now)) time) := by
  unfold loadedBy at h
  split at h
  . next session stored _ time hthread =>
    cases h
    exact ⟨session, stored, time, hthread⟩
  . cases h

end Sessions

-- The rotated token is gone, and the new one was loaded before it was revoked.
theorem session_lifecycle_rotateTwiceThenRevoke
    : ∃ sessions,
        Reach.exec (Sessions.step sha256Digest boolClaims memberPolicy) Sessions.noSessions
          rotateTwiceThenRevoke = some sessions ∧
        sessions.entries.read sha256Digest (memberToken 'a') = none ∧
        (∃ death, ((memberToken 'a').digest sha256Digest, death) ∈ sessions.dead) ∧
        ∃ session stored time,
          .loaded (memberToken 'b') (.ok (some session)) (some (stored, 3000)) time ∈ sessions.threads ∧
          ((memberToken 'b').digest sha256Digest, stored) ∈ sessions.records ∧ 3000 < stored.idleExpiresAtMs := by
  have hran : (Reach.execWhen (Sessions.step sha256Digest boolClaims memberPolicy)
      (Sessions.steady sha256Digest) Sessions.noSessions rotateTwiceThenRevoke).any (fun sessions =>
        sessions.rotatedBy 1 = some (memberToken 'a')
          && sessions.loadedBy 3 = some (memberToken 'b', 3000)) = true := by decide +kernel
  obtain ⟨sessions, hexec, htest⟩ := (Option.any_eq_true _ _).mp hran
  rw [Bool.and_eq_true, decide_eq_true_eq, decide_eq_true_eq] at htest
  obtain ⟨created, hrotated⟩ := Sessions.rotatedBy_eq_some htest.1
  obtain ⟨session, stored, time, hloaded⟩ := Sessions.loadedBy_eq_some htest.2
  have hrun : Reach.Under Sessions.Initial (Sessions.step sha256Digest boolClaims memberPolicy)
      (Sessions.Steady sha256Digest) sessions :=
    (Reach.execWhen_under _ (.init Sessions.noSessions_initial) hexec).mono
      (fun _ _ => Sessions.steady_of_eq_true)
  obtain ⟨hgone, -, hdead, -, -, hlive⟩ :=
    session_lifecycle sha256Digest boolClaims memberPolicy sessions hrun
  obtain ⟨death, hmem⟩ := hdead _ created (List.mem_of_getElem? hrotated)
  obtain ⟨_, _, ⟨⟩, hrecord, hlive, -⟩ := hlive _ _ _ _ (List.mem_of_getElem? hloaded)
  exact ⟨sessions, Reach.exec_of_execWhen hexec, (hgone _ death hmem).1, ⟨death, hmem⟩, session, stored, time,
    List.mem_of_getElem? hloaded, hrecord, hlive.idle⟩

end Data

end Pliego
