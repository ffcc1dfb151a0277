import Pliego.Fold.Projection
import Pliego.Lib.Reach
import Pliego.Log.Chain

/-!
Incremental folding agrees with one replay of the whole log, for every interleaving of appends,
reads, snapshots and restores.
-/

namespace Pliego

namespace Fold

variable {S E : Type} (sha256 : Sha256) {contract : ProjectionContract S E}

def replay (contract : ProjectionContract S E) (initial : S) (events : List Event)
    : Except ProjectionError S :=
  match events with
  | [] => .ok initial
  | event :: rest =>
    match applyEvent contract initial event with
    | .error error => .error error
    | .ok state => replay contract state rest

def replaySnapshot (sha256 : Sha256) (contract : ProjectionContract S E) (initial : S) (log : Log)
    : Except ProjectionError ProjectionSnapshot :=
  match replay contract initial log.events with
  | .error error => .error error
  | .ok state =>
    match codecEncode contract.codec state with
    | .error error => .error error
    | .ok bytes => createSnapshot sha256 contract log.cursor bytes

theorem replay_append (initial : S) (events more : List Event)
    : replay contract initial (events ++ more)
        =
      match replay contract initial events with
      | .error error => .error error
      | .ok state => replay contract state more := by
  induction events generalizing initial with
  | nil => rfl
  | cons event rest ih =>
    rw [List.cons_append, replay, replay]
    cases applyEvent contract initial event with
    | error error => rfl
    | ok state => exact ih state

/--
States that the reducer and the codec do not tell apart.
-/
structure Alike (contract : ProjectionContract S E) (same : S → S → Prop) : Prop where
  refl : ∀ state, same state state
  trans : ∀ first second third, same first second → same second third → same first third
  apply : ∀ left right event next, same left right → contract.reducer.apply left event = .ok next
    → ∃ other, contract.reducer.apply right event = .ok other ∧ same next other
  encode : ∀ left right, same left right → contract.codec.encode left = contract.codec.encode right

theorem alike_eq : Alike contract Eq := by
  refine ⟨fun _ => rfl, fun _ _ _ => Eq.trans, ?_, ?_⟩
  . intro left right event next hsame hnext
    subst hsame
    exact ⟨next, hnext, rfl⟩
  . intro left right hsame
    rw [hsame]

/--
The codec reads its own bytes back as a state like the one it wrote.
-/
def Restores (contract : ProjectionContract S E) (same : S → S → Prop) : Prop :=
  ∀ state bytes decoded, canonicalStateBytes contract state = .ok bytes
    → codecDecode contract.codec bytes = .ok decoded → same decoded state

def Folds (contract : ProjectionContract S E) (same : S → S → Prop) (initial : S)
    (events : List Event) (state : S) : Prop :=
  ∃ folded, replay contract initial events = .ok folded ∧ same state folded

variable {same : S → S → Prop}

@[simp]
theorem folds_eq {initial state : S} {events : List Event}
    : Folds contract Eq initial events state ↔ replay contract initial events = .ok state := by
  constructor
  . rintro ⟨folded, hreplay, rfl⟩
    exact hreplay
  . intro hreplay
    exact ⟨state, hreplay, rfl⟩

theorem Alike.replay (halike : Alike contract same) {left right next : S} {events : List Event}
    (hsame : same left right) (h : Fold.replay contract left events = .ok next)
    : Folds contract same right events next := by
  induction events generalizing left right with
  | nil =>
    cases h
    exact ⟨right, rfl, hsame⟩
  | cons event rest ih =>
    unfold Fold.replay applyEvent at h
    unfold Folds Fold.replay applyEvent
    cases hdecode : contract.catalog.decode event with
    | panicked =>
      rw [hdecode] at h
      cases h
    | err error =>
      rw [hdecode] at h
      cases h
    | ok resolved =>
      rw [hdecode] at h
      dsimp only at h ⊢
      cases happly : contract.reducer.apply left resolved with
      | panicked =>
        rw [happly] at h
        cases h
      | err message =>
        rw [happly] at h
        cases h
      | ok state =>
        rw [happly] at h
        rcases halike.apply left right resolved state hsame happly with ⟨other, hother, hsame'⟩
        rw [hother]
        exact ih hsame' h

theorem Folds.append (halike : Alike contract same) {initial state next : S} {events more : List Event}
    (h : Folds contract same initial events state) (hmore : Fold.replay contract state more = .ok next)
    : Folds contract same initial (events ++ more) next := by
  rcases h with ⟨folded, hreplay, hsame⟩
  rcases halike.replay hsame hmore with ⟨other, hother, hlike⟩
  refine ⟨other, ?_, hlike⟩
  rw [replay_append, hreplay]
  exact hother

theorem Folds.codecEncode (halike : Alike contract same) {initial state : S} {events : List Event}
    (h : Folds contract same initial events state)
    : ∃ folded, Fold.replay contract initial events = .ok folded
        ∧ Fold.codecEncode contract.codec folded = Fold.codecEncode contract.codec state := by
  rcases h with ⟨folded, hreplay, hsame⟩
  refine ⟨folded, hreplay, ?_⟩
  unfold Fold.codecEncode
  rw [halike.encode state folded hsame]

theorem reduceTail_eq_replay (log : Log) (sequence count : Nat) (candidate : S) (h : sequence + count = log.len)
    : reduceTail contract log sequence count candidate
        =
      replay contract candidate (log.events.drop sequence) := by
  induction count generalizing sequence candidate with
  | zero =>
    have hdrop : log.events.drop sequence = [] := by
      apply List.drop_eq_nil_of_le
      unfold Log.len at h
      omega
    rw [hdrop]
    rfl
  | succ count ih =>
    have hlt : sequence < log.events.length := by
      unfold Log.len at h
      omega
    have hget : log.get sequence = some log.events[sequence] := by
      unfold Log.get
      exact List.getElem?_eq_getElem hlt
    rw [List.drop_eq_getElem_cons hlt]
    unfold reduceTail replay
    rw [hget]
    dsimp only
    cases applyEvent contract candidate log.events[sequence] with
    | error error => rfl
    | ok state =>
      apply ih
      omega

theorem canonicalStateBytes_eq_ok {state : S} {bytes : List UInt8}
    (h : canonicalStateBytes contract state = .ok bytes)
    : codecEncode contract.codec state = .ok bytes
        ∧ ∃ decoded, codecDecode contract.codec bytes = .ok decoded
          ∧ contract.eq decoded state = true := by
  unfold canonicalStateBytes at h
  split at h
  . cases h
  . next bytes' hencode =>
    split at h
    . cases h
    . next decoded hdecode =>
      split at h
      . cases h
      . next heq =>
        split at h
        . cases h
        . split at h
          . cases h
          . cases h
            refine ⟨hencode, decoded, hdecode, ?_⟩
            simpa using heq

structure Stable.At (contract : ProjectionContract S E) (same : S → S → Prop) (initial : S)
    (log : Log) (stable : Stable S) : Prop where
  history : log.cursorAt stable.history.position = .ok stable.history
  state : Folds contract same initial (log.events.take stable.history.position) stable.state
  bytes : canonicalStateBytes contract stable.state = .ok stable.stateBytes

variable {initial : S} {log : Log} {stable : Stable S}

theorem Stable.At.tail (h : stable.At contract same initial log)
    : log.tail stable.history = .ok (log.events.drop stable.history.position) :=
  Log.tail_eq_ok_iff.mpr ⟨h.history, rfl⟩

theorem Stable.At.position_le (h : stable.At contract same initial log)
    : stable.history.position ≤ log.len :=
  (Log.cursorAt_eq_ok_iff.mp h.history).1

variable {events : List Event} {longer : Log}

theorem cursorAt_of_extends (hlonger : longer.events = log.events ++ events) {position : Nat} {cursor : LogCursor}
    (h : log.cursorAt position = .ok cursor)
    : longer.cursorAt position = .ok cursor
        ∧ longer.events.take position = log.events.take position := by
  rw [Log.cursorAt_eq_ok_iff] at h ⊢
  rcases h with ⟨hle, hcursor⟩
  have htake : longer.events.take position = log.events.take position := by
    rw [hlonger]
    exact List.take_append_of_le_length hle
  refine ⟨⟨?_, ?_⟩, htake⟩
  . unfold Log.len at hle ⊢
    rw [hlonger, List.length_append]
    omega
  . rw [htake]
    assumption

theorem Stable.At.extend (h : stable.At contract same initial log) (hlonger : longer.events = log.events ++ events)
    : stable.At contract same initial longer := by
  have hcursor := cursorAt_of_extends hlonger h.history
  refine ⟨hcursor.1, ?_, h.bytes⟩
  rw [hcursor.2]
  exact h.state

/--
What a successful preparation holds: the replay of the whole candidate log, at its head.
-/
structure PreparedProjection.For (sha256 : Sha256) (contract : ProjectionContract S E)
    (same : S → S → Prop) (initial : S) (log : Log) (stable : Stable S) (prepared : PreparedProjection S) : Prop where
  expectedHistory : prepared.expectedHistory = stable.history
  nextHistory : prepared.nextHistory = log.cursor
  state : Folds contract same initial log.events prepared.state
  bytes : canonicalStateBytes contract prepared.state = .ok prepared.stateBytes
  stateRoot : ∃ snapshot, createSnapshot sha256 contract log.cursor prepared.stateBytes = .ok snapshot
    ∧ prepared.stateRoot = StateRoot.fromSnapshot sha256 snapshot

theorem prepareProjection_eq_ok (halike : Alike contract same) (hstable : stable.At contract same initial log)
    {prepared : PreparedProjection S} (h : prepareProjection sha256 contract log stable = .ok prepared)
    : prepared.For sha256 contract same initial log stable := by
  unfold prepareProjection at h
  dsimp only at h
  rw [hstable.tail] at h
  dsimp only at h
  have hle := hstable.position_le
  have hposition : log.cursor.position = log.len := rfl
  have hreduce : reduceTail contract log stable.history.position
      (log.cursor.position - stable.history.position) stable.state
      = replay contract stable.state (log.events.drop stable.history.position) := by
    apply reduceTail_eq_replay
    omega
  rw [hreduce] at h
  split at h
  . cases h
  . split at h
    . cases h
    . next candidate hcandidate =>
      split at h
      . cases h
      . next bytes hbytes =>
        split at h
        . cases h
        . split at h
          . cases h
          . split at h
            . cases h
            . next snapshot hsnapshot =>
              cases h
              have hfolds := hstable.state.append halike hcandidate
              rw [List.take_append_drop] at hfolds
              exact ⟨rfl, rfl, hfolds, hbytes, snapshot, hsnapshot, rfl⟩

theorem PreparedProjection.For.at_head {prepared : PreparedProjection S}
    (h : prepared.For sha256 contract same initial log stable) {next : Stable S}
    (hcommit : commitStable stable prepared = .ok next)
    : next.At contract same initial log ∧ next.history = log.cursor := by
  unfold commitStable at hcommit
  split at hcommit
  . cases hcommit
  . cases hcommit
    have hcursor := Log.cursor_eq_cursorAt log
    have hwhole : log.events.take log.len = log.events := List.take_length
    refine ⟨⟨?_, ?_, h.bytes⟩, h.nextHistory⟩
    . dsimp only
      rw [h.nextHistory]
      exact hcursor
    . dsimp only
      rw [h.nextHistory]
      unfold Log.cursor
      dsimp only
      rw [hwhole]
      exact h.state

theorem synchronize_at (halike : Alike contract same) (hstable : stable.At contract same initial log)
    : (synchronize sha256 contract log stable).1.At contract same initial log
        ∧ ∀ history, (synchronize sha256 contract log stable).2 = .ok history
          → history = log.cursor
            ∧ (synchronize sha256 contract log stable).1.history = log.cursor := by
  unfold synchronize
  dsimp only
  rw [hstable.tail]
  dsimp only
  split
  . next hposition =>
    -- the checkpoint sits at the head already
    refine ⟨hstable, ?_⟩
    intro history hhistory
    cases hhistory
    have hcursor := hstable.history
    rw [← hposition] at hcursor
    have hhead := Log.cursor_eq_cursorAt log
    have : stable.history = log.cursor := Except.ok.inj (hcursor.symm.trans hhead)
    exact ⟨this, this⟩
  . split
    . refine ⟨hstable, ?_⟩
      intro history hhistory
      cases hhistory
    . next prepared hprepared =>
      have hfor := prepareProjection_eq_ok sha256 halike hstable hprepared
      split
      . refine ⟨hstable, ?_⟩
        intro history hhistory
        cases hhistory
      . next next hcommit =>
        have hnext := hfor.at_head sha256 hcommit
        refine ⟨hnext.1, ?_⟩
        intro history hhistory
        cases hhistory
        exact ⟨hfor.nextHistory, hnext.2⟩

structure Projection.On (contract : ProjectionContract S E) (same : S → S → Prop) (initial : S) (log : Log)
    (projection : Projection S) : Prop where
  stable : projection.stable.At contract same initial log
  memo : ∀ history, projection.memo = some ⟨history, none⟩
    → history = log.cursor ∧ projection.stable.history = log.cursor

variable {projection : Projection S}

section

variable (h : projection.On contract same initial log)

include h

theorem Projection.On.invalidate
    : projection.invalidate.On contract same initial log := by
  refine ⟨h.stable, ?_⟩
  intro history hmemo
  cases hmemo

theorem Projection.On.extend (hlonger : longer.events = log.events ++ events)
    : projection.invalidate.On contract same initial longer := by
  refine ⟨h.stable.extend hlonger, ?_⟩
  intro history hmemo
  cases hmemo

theorem Projection.On.memoGet (halike : Alike contract same)
    : (projection.memoGet sha256 contract log).1.On contract same initial log
        ∧ (projection.memoGet sha256 contract log).1.memo
            = some (projection.memoGet sha256 contract log).2 := by
  unfold Projection.memoGet
  cases hmemo : projection.memo with
  | some read => exact ⟨h, hmemo⟩
  | none =>
    have hsync := synchronize_at sha256 halike h.stable
    dsimp only
    split
    . next stable history heq =>
      rw [heq] at hsync
      refine ⟨⟨hsync.1, ?_⟩, rfl⟩
      intro history' hread
      cases hread
      exact hsync.2 _ rfl
    . next stable error heq =>
      rw [heq] at hsync
      refine ⟨⟨hsync.1, ?_⟩, rfl⟩
      intro history' hread
      cases hread

theorem Projection.On.settle (halike : Alike contract same)
    : (projection.settle sha256 contract log).1.On contract same initial log
        ∧ ((projection.settle sha256 contract log).2 = .ok ()
          → (projection.settle sha256 contract log).1.stable.history = log.cursor
            ∧ (projection.settle sha256 contract log).1.memo = some ⟨log.cursor, none⟩) := by
  have hget := h.memoGet sha256 halike
  unfold Projection.settle
  generalize projection.memoGet sha256 contract log = got at hget
  rcases got with ⟨after, history, error⟩
  cases error with
  | some error =>
    refine ⟨hget.1, ?_⟩
    intro hok
    cases hok
  | none =>
    dsimp only
    have hhead := hget.1.memo history hget.2
    split
    . refine ⟨hget.1, ?_⟩
      intro hok
      cases hok
    . refine ⟨hget.1, fun _ => ⟨hhead.2, ?_⟩⟩
      rw [← hhead.1]
      exact hget.2

theorem Projection.On.folds (hhead : projection.stable.history = log.cursor)
    : Folds contract same initial log.events projection.stable.state := by
  have hstate := h.stable.state
  have hwhole : log.events.take log.len = log.events := List.take_length
  rw [hhead] at hstate
  unfold Log.cursor at hstate
  dsimp only at hstate
  rw [hwhole] at hstate
  exact hstate

theorem Projection.On.tryGet (halike : Alike contract same)
    : (projection.tryGet sha256 contract log).1.On contract same initial log
        ∧ ∀ state, (projection.tryGet sha256 contract log).2 = .ok state
          → Folds contract same initial log.events state := by
  have hsettle := h.settle sha256 halike
  unfold Projection.tryGet
  generalize projection.settle sha256 contract log = settled at hsettle
  rcases settled with ⟨after, result⟩
  cases result with
  | error error =>
    refine ⟨hsettle.1, ?_⟩
    intro state hok
    cases hok
  | ok done =>
    refine ⟨hsettle.1, ?_⟩
    intro state hok
    cases hok
    exact hsettle.1.folds (hsettle.2 rfl).1

theorem Projection.On.snapshot (halike : Alike contract same)
    : (projection.snapshot sha256 contract log).1.On contract same initial log
        ∧ ∀ snapshot, (projection.snapshot sha256 contract log).2 = .ok snapshot
          → replaySnapshot sha256 contract initial log = .ok snapshot := by
  have hsettle := h.settle sha256 halike
  unfold Projection.snapshot
  generalize projection.settle sha256 contract log = settled at hsettle
  rcases settled with ⟨after, result⟩
  cases result with
  | error error =>
    refine ⟨hsettle.1, ?_⟩
    intro snapshot hok
    cases hok
  | ok done =>
    refine ⟨hsettle.1, ?_⟩
    intro snapshot hok
    have hhead := (hsettle.2 rfl).1
    dsimp only at hok hhead
    rcases (hsettle.1.folds hhead).codecEncode halike with ⟨folded, hreplay, hencode⟩
    unfold replaySnapshot
    rw [hreplay]
    dsimp only
    rw [hencode, (canonicalStateBytes_eq_ok hsettle.1.stable.bytes).1]
    dsimp only
    rw [← hhead]
    exact hok

theorem Projection.On.stateRoot (halike : Alike contract same)
    : (projection.stateRoot sha256 contract log).1.On contract same initial log
        ∧ ∀ root, (projection.stateRoot sha256 contract log).2 = .ok root
          → ∃ snapshot, replaySnapshot sha256 contract initial log = .ok snapshot
            ∧ root = StateRoot.fromSnapshot sha256 snapshot := by
  have hsnapshot := h.snapshot sha256 halike
  unfold Projection.stateRoot
  generalize projection.snapshot sha256 contract log = taken at hsnapshot
  rcases taken with ⟨after, result⟩
  cases result with
  | error error =>
    refine ⟨hsnapshot.1, ?_⟩
    intro root hok
    cases hok
  | ok snapshot =>
    refine ⟨hsnapshot.1, ?_⟩
    intro root hok
    cases hok
    exact ⟨snapshot, hsnapshot.2 snapshot rfl, rfl⟩

end

theorem Projection.On.fromStable {state : S} {expected : Option (List UInt8)} {history : LogCursor}
    (h : Projection.fromStable contract state expected history = .ok projection)
    (hhistory : log.cursorAt history.position = .ok history)
    (hstate : Folds contract same initial (log.events.take history.position) state)
    : projection.On contract same initial log := by
  unfold Projection.fromStable at h
  split at h
  . cases h
  . next bytes hbytes =>
    split at h
    . cases h
    . cases h
      refine ⟨⟨hhistory, hstate, hbytes⟩, ?_⟩
      intro history hmemo
      cases hmemo

theorem Projection.On.new (halike : Alike contract same) (h : Projection.new contract log initial = .ok projection)
    : projection.On contract same initial log := by
  unfold Projection.new at h
  split at h
  . cases h
  . next history hhistory =>
    rcases Log.cursorAt_eq_ok_iff.mp hhistory with ⟨-, rfl⟩
    exact Projection.On.fromStable h hhistory ⟨initial, rfl, halike.refl initial⟩

structure ProjectionSnapshot.Of (contract : ProjectionContract S E) (same : S → S → Prop) (initial : S) (log : Log)
    (snapshot : ProjectionSnapshot) : Prop where
  history : log.cursorAt snapshot.history.position = .ok snapshot.history
  state : ∃ state, Folds contract same initial (log.events.take snapshot.history.position) state
    ∧ canonicalStateBytes contract state = .ok snapshot.stateBytes

theorem ProjectionSnapshot.Of.extend {snapshot : ProjectionSnapshot} (h : snapshot.Of contract same initial log)
    (hlonger : longer.events = log.events ++ events)
    : snapshot.Of contract same initial longer := by
  have hcursor := cursorAt_of_extends hlonger h.history
  refine ⟨hcursor.1, ?_⟩
  rw [hcursor.2]
  exact h.state

theorem Projection.On.restore {snapshot : ProjectionSnapshot}
    (halike : Alike contract same) (hrestores : Restores contract same) (hsnapshot : snapshot.Of contract same initial log)
    (h : Projection.restore sha256 contract log snapshot = .ok projection)
    : projection.On contract same initial log := by
  unfold Projection.restore at h
  repeat' split at h
  any_goals cases h
  next state hdecode _ restored hrestored _ _ hget =>
  rcases hsnapshot.state with ⟨original, ⟨folded, hreplay, hfolded⟩, hbytes⟩
  -- the decoded state is like the state the snapshot encoded
  have hsame := hrestores original _ state hbytes hdecode
  have hon : restored.On contract same initial log :=
    Projection.On.fromStable hrestored hsnapshot.history
      ⟨folded, hreplay, halike.trans state original folded hsame hfolded⟩
  have hafter := (hon.tryGet sha256 halike).1
  rw [hget] at hafter
  exact hafter

theorem Projection.On.snapshot_of (halike : Alike contract same) (h : projection.On contract same initial log)
    {snapshot : ProjectionSnapshot}
    (hsnapshot : (projection.snapshot sha256 contract log).2 = .ok snapshot)
    : snapshot.Of contract same initial log := by
  have hsettle := h.settle sha256 halike
  unfold Projection.snapshot at hsnapshot
  generalize projection.settle sha256 contract log = settled at hsettle hsnapshot
  rcases settled with ⟨after, result⟩
  cases result with
  | error error => cases hsnapshot
  | ok done =>
    dsimp only at hsnapshot
    unfold createSnapshot ProjectionSnapshot.create at hsnapshot
    split at hsnapshot
    . cases hsnapshot
    . next created hcreated =>
      split at hcreated
      . cases hcreated
      . cases hcreated
        cases hsnapshot
        have hstable := hsettle.1.stable
        exact ⟨hstable.history, after.stable.state, hstable.state, hstable.bytes⟩

/--
The log of an application, the projections folded over it, and the snapshots taken of them.
-/
structure Replica (S : Type) where
  log : Log
  projections : List (Projection S)
  snapshots : List ProjectionSnapshot

/--
`ι` indexes the payload types an application appends.
-/
inductive ReplicaStep (ι : Type) (T : ι → Type) where
  | append (i : ι) (payload : T i)
  | new
  | restore (index : Nat)
  | tryGet (index : Nat)
  | sync (index : Nat)
  | snapshot (index : Nat)
  | stateRoot (index : Nat)

namespace Replica

variable {ι : Type} {T : ι → Type}

def readWith {α : Type} (replica : Replica S) (index : Nat)
    (read : Log → Projection S → Projection S × α) : Option (Replica S × α) :=
  match replica.projections[index]? with
  | none => none
  | some projection =>
    let after := read replica.log projection
    some ({ replica with projections := replica.projections.set index after.1 }, after.2)

def appendTyped (sha256 : Sha256) (schemas : (i : ι) → EventSchema (T i)) (replica : Replica S)
    (i : ι) (payload : T i) : Replica S :=
  -- `Signal::update` marks the subscribers of the log whether or not the event was admitted
  let projections := replica.projections.map Projection.invalidate
  match replica.log.appendTyped sha256 (schemas i) payload with
  | .ok log => { replica with log := log, projections := projections }
  | .error _ => { replica with projections := projections }

def step (sha256 : Sha256) (contract : ProjectionContract S E) (initial : S)
    (schemas : (i : ι) → EventSchema (T i)) (replica : Replica S) (label : ReplicaStep ι T)
    : Option (Replica S) :=
  match label with
  | .append i payload => some (replica.appendTyped sha256 schemas i payload)
  | .new =>
    match Projection.new contract replica.log initial with
    | .error _ => some replica
    | .ok projection =>
      some { replica with projections := replica.projections ++ [projection] }
  | .restore index =>
    match replica.snapshots[index]? with
    | none => none
    | some snapshot =>
      match Projection.restore sha256 contract replica.log snapshot with
      | .error _ => some replica
      | .ok projection =>
        some { replica with projections := replica.projections ++ [projection] }
  | .tryGet index =>
    (replica.readWith index (fun log projection => projection.tryGet sha256 contract log)).map
      Prod.fst
  | .sync index =>
    (replica.readWith index (fun log projection => projection.sync sha256 contract log)).map
      Prod.fst
  | .snapshot index =>
    match replica.readWith index (fun log projection => projection.snapshot sha256 contract log) with
    | none => none
    | some (replica, .error _) => some replica
    | some (replica, .ok snapshot) =>
      some { replica with snapshots := replica.snapshots ++ [snapshot] }
  | .stateRoot index =>
    (replica.readWith index (fun log projection => projection.stateRoot sha256 contract log)).map
      Prod.fst

structure Inv (contract : ProjectionContract S E) (same : S → S → Prop) (initial : S)
    (replica : Replica S) : Prop where
  projections : ∀ projection ∈ replica.projections, projection.On contract same initial replica.log
  snapshots : ∀ snapshot ∈ replica.snapshots, snapshot.Of contract same initial replica.log

theorem appendTyped_extends {schemas : (i : ι) → EventSchema (T i)} {i : ι} {payload : T i}
    {longer : Log} (h : log.appendTyped sha256 (schemas i) payload = .ok longer)
    : ∃ event, longer.events = log.events ++ [event] := by
  rcases Log.appendTyped_eq_ok h with ⟨canonical, hcanonical⟩
  unfold Log.appendCanonical at hcanonical
  repeat' split at hcanonical
  any_goals cases hcanonical
  exact ⟨_, rfl⟩

theorem Inv.append {replica : Replica S} (hinv : replica.Inv contract same initial)
    (schemas : (i : ι) → EventSchema (T i)) (i : ι) (payload : T i)
    : (replica.appendTyped sha256 schemas i payload).Inv contract same initial := by
  unfold Replica.appendTyped
  dsimp only
  split
  . next longer hlonger =>
    rcases appendTyped_extends sha256 hlonger with ⟨event, hevents⟩
    constructor
    . intro projection hmem
      rcases List.mem_map.mp hmem with ⟨before, hbefore, rfl⟩
      exact (hinv.projections before hbefore).extend hevents
    . intro snapshot hmem
      exact (hinv.snapshots snapshot hmem).extend hevents
  . refine ⟨?_, hinv.snapshots⟩
    intro projection hmem
    rcases List.mem_map.mp hmem with ⟨before, hbefore, rfl⟩
    exact (hinv.projections before hbefore).invalidate

theorem Inv.push {replica : Replica S} (hinv : replica.Inv contract same initial)
    (hon : projection.On contract same initial replica.log)
    : Inv contract same initial
        { replica with projections := replica.projections ++ [projection] } := by
  refine ⟨?_, hinv.snapshots⟩
  intro other hmem
  rcases List.mem_append.mp hmem with hold | hnew
  . exact hinv.projections other hold
  . rw [List.mem_singleton.mp hnew]
    exact hon

theorem Inv.readWith {α : Type} {replica after : Replica S} {index : Nat} {value : α}
    {read : Log → Projection S → Projection S × α} (hinv : replica.Inv contract same initial)
    (hread : ∀ projection : Projection S, projection.On contract same initial replica.log
      → (read replica.log projection).1.On contract same initial replica.log)
    (h : replica.readWith index read = some (after, value))
    : after.Inv contract same initial
        ∧ after.log = replica.log
        ∧ ∃ projection, projection ∈ replica.projections
          ∧ (read replica.log projection).2 = value := by
  unfold Replica.readWith at h
  split at h
  . cases h
  . next projection hprojection =>
    cases h
    have hmem := List.mem_of_getElem? hprojection
    have hon := hread projection (hinv.projections projection hmem)
    refine ⟨⟨?_, hinv.snapshots⟩, rfl, projection, hmem, rfl⟩
    intro other hother
    rcases List.mem_or_eq_of_mem_set hother with hold | rfl
    . exact hinv.projections other hold
    . exact hon

theorem Inv.step {replica after : Replica S} {schemas : (i : ι) → EventSchema (T i)}
    {label : ReplicaStep ι T} (halike : Alike contract same) (hrestores : Restores contract same)
    (hinv : replica.Inv contract same initial)
    (h : replica.step sha256 contract initial schemas label = some after)
    : after.Inv contract same initial := by
  unfold Replica.step at h
  cases label with
  | append i payload =>
    cases h
    exact hinv.append sha256 schemas i payload
  | new =>
    dsimp only at h
    split at h
    . cases h
      exact hinv
    . next projection hnew =>
      cases h
      exact hinv.push (Projection.On.new halike hnew)
  | restore index =>
    dsimp only at h
    split at h
    . cases h
    . next snapshot hsnapshot =>
      split at h
      . cases h
        exact hinv
      . next projection hrestored =>
        cases h
        have hof := hinv.snapshots snapshot (List.mem_of_getElem? hsnapshot)
        exact hinv.push (Projection.On.restore sha256 halike hrestores hof hrestored)
  | tryGet index =>
    rcases Option.map_eq_some_iff.mp h with ⟨⟨after, value⟩, hread, rfl⟩
    exact (hinv.readWith (fun _ hon => (hon.tryGet sha256 halike).1) hread).1
  | sync index =>
    rcases Option.map_eq_some_iff.mp h with ⟨⟨after, value⟩, hread, rfl⟩
    exact (hinv.readWith (fun _ hon => (hon.tryGet sha256 halike).1) hread).1
  | snapshot index =>
    dsimp only at h
    split at h
    . cases h
    . next hread =>
      cases h
      exact (hinv.readWith (fun _ hon => (hon.snapshot sha256 halike).1) hread).1
    . next taken snapshot hread =>
      cases h
      rcases hinv.readWith (fun _ hon => (hon.snapshot sha256 halike).1) hread with
        ⟨hafter, hlog, projection, hmem, hvalue⟩
      refine ⟨hafter.projections, ?_⟩
      intro other hother
      rcases List.mem_append.mp hother with hold | hnew
      . exact hafter.snapshots other hold
      . rw [List.mem_singleton.mp hnew]
        dsimp only
        rw [hlog]
        exact (hinv.projections projection hmem).snapshot_of sha256 halike hvalue
  | stateRoot index =>
    rcases Option.map_eq_some_iff.mp h with ⟨⟨after, value⟩, hread, rfl⟩
    exact (hinv.readWith (fun _ hon => (hon.stateRoot sha256 halike).1) hread).1

def noteCatalog : SealedEventCatalog Nat where
  kinds name :=
    if name = "app_note_added" then
      some
        {
          schemas := fun version => if version = 1 then some "note/1" else none
          current := ⟨1, "note-count", fun _ _ => .ok 1⟩
          upcasters := fun _ => none
          adjacent := by
            intro source edge h
            cases h
        }
    else
      none
  digest := genesisHash

def noteSchema : EventSchema Unit where
  kind := "app_note_added"
  version := 1
  schemaId := "note/1"
  serialize _ := .ok ⟨Bytes.utf8 "\x7b\x7d", by decide⟩
  deserialize json :=
    if json.bytes = Bytes.utf8 "\x7b\x7d" then .ok ()
    else .error (.invalid "expected an empty object")
  eq _ _ := true

def noteContract : ProjectionContract Nat Nat where
  catalog := noteCatalog
  reducer := ⟨⟨"count", 1, genesisHash⟩, fun total added => .ok (total + added)⟩
  codec :=
    {
      identity := ⟨"unary", 1, genesisHash⟩
      encode := fun total => .ok (List.replicate total 49)
      decode := fun bytes => .ok bytes.length
    }
  eq a b := a == b

end Replica

end Fold

end Pliego
