import Pliego.Fold.Replay

/-!
Failures of a projection.
-/

namespace Pliego

namespace Fold

variable {S E : Type}

-- What a call leaves of the state that it is handed, and what it returns.
structure InPlaceReducer (S E : Type) where
  identity : ReducerIdentity
  apply : S → E → S × Attempt String Unit

structure InPlaceContract (S E : Type) where
  catalog : SealedEventCatalog E
  reducer : InPlaceReducer S E
  codec : StateCodec S
  eq : S → S → Bool

-- The reducer as a function, which forgets what a failed call has left behind.
def InPlaceReducer.functional (reducer : InPlaceReducer S E) : Reducer S E where
  identity := reducer.identity
  apply state event :=
    match reducer.apply state event with
    | (_, .panicked) => .panicked
    | (_, .err message) => .err message
    | (state, .ok ()) => .ok state

def InPlaceContract.functional (contract : InPlaceContract S E) : ProjectionContract S E where
  catalog := contract.catalog
  reducer := contract.reducer.functional
  codec := contract.codec
  eq := contract.eq

-- The checkpoint, and the variable that the loop hands to the reducer.
structure Cells (S : Type) where
  stable : Stable S
  candidate : S

def Cells.setCandidate (cells : Cells S) (candidate : S) : Cells S := { cells with candidate }

@[simp]
theorem Cells.setCandidate_candidate (cells : Cells S) (candidate : S)
    : (cells.setCandidate candidate).candidate = candidate := rfl

def applyInPlace (contract : InPlaceContract S E) (cells : Cells S) (stored : Event)
    : Cells S × Except ProjectionError Unit :=
  match contract.catalog.decode stored with
  | .panicked => (cells, .error (.schemaPanicked stored.seq))
  | .err error => (cells, .error (.schema stored.seq (boundedMessage error.display)))
  | .ok resolved =>
    match contract.reducer.apply cells.candidate resolved with
    | (left, .panicked) => (cells.setCandidate left, .error (.reducerPanicked stored.seq))
    | (left, .err message) => (cells.setCandidate left, .error (.reducer stored.seq (boundedMessage message)))
    | (left, .ok ()) => (cells.setCandidate left, .ok ())

def reduceInPlace (contract : InPlaceContract S E) (log : Log) (sequence count : Nat) (cells : Cells S)
    : Cells S × Except ProjectionError Unit :=
  match count with
  | 0 => (cells, .ok ())
  | count + 1 =>
    match log.get sequence with
    | none => (cells, .error .concurrentMutation)
    | some stored =>
      match applyInPlace contract cells stored with
      | (cells, .error error) => (cells, .error error)
      | (cells, .ok ()) => reduceInPlace contract log (sequence + 1) count cells

def prepareInPlace (sha256 : Sha256) (contract : InPlaceContract S E) (candidateLog : Log) (cells : Cells S)
    : Cells S × Except ProjectionError (PreparedProjection S) :=
  let expected := cells.stable.history
  let folded := cells.stable.folded
  let cells := cells.setCandidate cells.stable.state
  match candidateLog.tail expected with
  | .error error => (cells, .error (.cursor error))
  | .ok _ =>
    let next := candidateLog.cursor
    if next.position < expected.position then
      (cells, .error .concurrentMutation)
    else
      let eventCount := next.position - expected.position
      match reduceInPlace contract candidateLog expected.position eventCount cells with
      | (cells, .error error) => (cells, .error error)
      | (cells, .ok ()) =>
        match canonicalStateBytes contract.functional cells.candidate with
        | .error error => (cells, .error error)
        | .ok candidateBytes =>
          if contract.eq cells.candidate cells.stable.state && candidateBytes ≠ cells.stable.stateBytes then
            (cells, .error .nonCanonicalState)
          else if folded + eventCount ≥ 2 ^ 64 then
            (cells, .error .counterOverflow)
          else
            match createSnapshot sha256 contract.functional next candidateBytes with
            | .error error => (cells, .error error)
            | .ok snapshot =>
              (cells,
                .ok
                  {
                    expectedHistory := expected
                    nextHistory := next
                    state := cells.candidate
                    stateBytes := candidateBytes
                    folded := folded + eventCount
                    stateRoot := StateRoot.fromSnapshot sha256 snapshot
                  })

def commitInPlace (cells : Cells S) (prepared : PreparedProjection S) : Cells S × Except ProjectionError Unit :=
  match commitStable cells.stable prepared with
  | .error error => (cells, .error error)
  | .ok stable => ({ cells with stable }, .ok ())

def synchronizeInPlace (sha256 : Sha256) (contract : InPlaceContract S E) (log : Log) (cells : Cells S)
    : Cells S × Except ProjectionError LogCursor :=
  let expected := cells.stable.history
  match log.tail expected with
  | .error error => (cells, .error (.cursor error))
  | .ok _ =>
    if log.cursor.position = expected.position then
      (cells, .ok expected)
    else
      match prepareInPlace sha256 contract log cells with
      | (cells, .error error) => (cells, .error error)
      | (cells, .ok prepared) =>
        match commitInPlace cells prepared with
        | (cells, .error error) => (cells, .error error)
        | (cells, .ok ()) => (cells, .ok prepared.nextHistory)

def outcome (result : Cells S × Except ProjectionError Unit) : Except ProjectionError S :=
  match result with
  | (_, .error error) => .error error
  | (cells, .ok ()) => .ok cells.candidate

section InPlace

variable (contract : InPlaceContract S E) (sha256 : Sha256)

theorem applyInPlace_eq (cells : Cells S) (stored : Event)
    : (applyInPlace contract cells stored).1.stable = cells.stable ∧
      outcome (applyInPlace contract cells stored) = applyEvent contract.functional cells.candidate stored := by
  unfold applyInPlace applyEvent InPlaceContract.functional InPlaceReducer.functional
  dsimp only
  cases contract.catalog.decode stored with
  | panicked => exact ⟨rfl, rfl⟩
  | err error => exact ⟨rfl, rfl⟩
  | ok resolved =>
    dsimp only
    cases contract.reducer.apply cells.candidate resolved with
    | mk left result =>
      cases result with
      | _ => exact ⟨rfl, rfl⟩

theorem reduceInPlace_eq (log : Log) (sequence count : Nat) (cells : Cells S)
    : (reduceInPlace contract log sequence count cells).1.stable = cells.stable ∧
      outcome (reduceInPlace contract log sequence count cells)
        = reduceTail contract.functional log sequence count cells.candidate := by
  induction count generalizing sequence cells with
  | zero => exact ⟨rfl, rfl⟩
  | succ count ih =>
    unfold reduceInPlace reduceTail
    cases log.get sequence with
    | none => exact ⟨rfl, rfl⟩
    | some stored =>
      obtain ⟨hstable, houtcome⟩ := applyInPlace_eq contract cells stored
      dsimp only
      rw [← houtcome]
      cases h : applyInPlace contract cells stored with
      | mk after result =>
        rw [h] at hstable
        cases result with
        | error error => exact ⟨hstable, rfl⟩
        | ok value =>
          obtain ⟨hkept, hrest⟩ := ih (sequence + 1) after
          exact ⟨hkept.trans hstable, hrest⟩

theorem prepareInPlace_eq (log : Log) (cells : Cells S)
    : (prepareInPlace sha256 contract log cells).1.stable = cells.stable ∧
      (prepareInPlace sha256 contract log cells).2
        = prepareProjection sha256 contract.functional log cells.stable := by
  unfold prepareInPlace prepareProjection
  dsimp only
  cases log.tail cells.stable.history with
  | error error => exact ⟨rfl, rfl⟩
  | ok tail =>
    dsimp only
    by_cases hbefore : log.cursor.position < cells.stable.history.position
    . rw [if_pos hbefore, if_pos hbefore]
      exact ⟨rfl, rfl⟩
    . rw [if_neg hbefore, if_neg hbefore]
      obtain ⟨hstable, houtcome⟩ := reduceInPlace_eq contract log cells.stable.history.position
        (log.cursor.position - cells.stable.history.position) (cells.setCandidate cells.stable.state)
      rw [Cells.setCandidate_candidate] at houtcome
      rw [← houtcome]
      cases h : reduceInPlace contract log cells.stable.history.position
          (log.cursor.position - cells.stable.history.position) (cells.setCandidate cells.stable.state) with
      | mk after result =>
        rw [h] at hstable
        cases result with
        | error error => exact ⟨hstable, rfl⟩
        | ok value =>
          have hkept : after.stable = cells.stable := hstable
          unfold outcome
          dsimp only
          cases canonicalStateBytes contract.functional after.candidate with
          | error error => exact ⟨hkept, rfl⟩
          | ok bytes =>
            dsimp only
            rw [hkept, show contract.functional.eq = contract.eq from rfl]
            by_cases hsame : (contract.eq after.candidate cells.stable.state
                && decide (bytes ≠ cells.stable.stateBytes)) = true
            . rw [if_pos hsame, if_pos hsame]
              exact ⟨hkept, rfl⟩
            . rw [if_neg hsame, if_neg hsame]
              by_cases hfolded : cells.stable.folded + (log.cursor.position - cells.stable.history.position) ≥ 2 ^ 64
              . rw [if_pos hfolded, if_pos hfolded]
                exact ⟨hkept, rfl⟩
              . rw [if_neg hfolded, if_neg hfolded]
                cases createSnapshot sha256 contract.functional log.cursor bytes with
                | error error => exact ⟨hkept, rfl⟩
                | ok snapshot => exact ⟨hkept, rfl⟩

theorem synchronizeInPlace_eq (log : Log) (cells : Cells S)
    : ((synchronizeInPlace sha256 contract log cells).1.stable, (synchronizeInPlace sha256 contract log cells).2)
        = synchronize sha256 contract.functional log cells.stable := by
  unfold synchronizeInPlace synchronize
  dsimp only
  cases log.tail cells.stable.history with
  | error error => rfl
  | ok tail =>
    dsimp only
    by_cases hsame : log.cursor.position = cells.stable.history.position
    . rw [if_pos hsame, if_pos hsame]
    . rw [if_neg hsame, if_neg hsame]
      obtain ⟨hstable, hresult⟩ := prepareInPlace_eq contract sha256 log cells
      rw [← hresult]
      cases h : prepareInPlace sha256 contract log cells with
      | mk after result =>
        rw [h] at hstable
        have hkept : after.stable = cells.stable := hstable
        cases result with
        | error error =>
          dsimp only
          rw [hkept]
        | ok prepared =>
          unfold commitInPlace
          dsimp only
          rw [hkept]
          cases commitStable cells.stable prepared with
          | error error =>
            dsimp only
            rw [hkept]
          | ok next => rfl

end InPlace

section Synchronized

variable {contract : ProjectionContract S E} {sha256 : Sha256} {log : Log} {stable next : Stable S}

-- The checkpoint `next` is `stable` with the events that the log has behind it folded in, each of them once.
structure CaughtUp (contract : ProjectionContract S E) (log : Log) (stable next : Stable S) (tail : List Event)
    : Prop where
  found : log.tail stable.history = .ok tail
  state : replay contract stable.state tail = .ok next.state
  history : next.history = log.cursor
  folded : next.folded = stable.folded + tail.length
  bytes : (tail = [] ∧ next = stable) ∨ canonicalStateBytes contract next.state = .ok next.stateBytes

theorem cursor_of_tail_nil {cursor : LogCursor} (h : log.tail cursor = .ok []) : cursor = log.cursor := by
  obtain ⟨hcursor, hdrop⟩ := Log.tail_eq_ok_iff.mp h
  have hle := (Log.cursorAt_eq_ok_iff.mp hcursor).1
  have hlength := congrArg List.length hdrop
  rw [List.length_nil, List.length_drop] at hlength
  have hlen : log.len = log.events.length := rfl
  have hposition : cursor.position = log.len := by omega
  rw [hposition, Log.cursor_eq_cursorAt] at hcursor
  cases hcursor
  rfl

theorem tail_cursor (log : Log) : log.tail log.cursor = .ok [] := by
  apply Log.tail_eq_ok_iff.mpr
  refine ⟨Log.cursor_eq_cursorAt log, ?_⟩
  exact (List.drop_eq_nil_of_le (Nat.le_refl _)).symm

theorem CaughtUp.none (h : log.tail stable.history = .ok []) : CaughtUp contract log stable stable [] :=
  ⟨h, rfl, cursor_of_tail_nil h, rfl, .inl ⟨rfl, rfl⟩⟩

theorem CaughtUp.of_prepared {prepared : PreparedProjection S}
    (h : prepareProjection sha256 contract log stable = .ok prepared)
    (hcommit : commitStable stable prepared = .ok next)
    : prepared.nextHistory = log.cursor ∧ ∃ tail, CaughtUp contract log stable next tail := by
  unfold prepareProjection at h
  dsimp only at h
  cases htail : log.tail stable.history with
  | error error =>
    rw [htail] at h
    cases h
  | ok tail =>
    rw [htail] at h
    dsimp only at h
    obtain ⟨hcursor, hdrop⟩ := Log.tail_eq_ok_iff.mp htail
    have hle := (Log.cursorAt_eq_ok_iff.mp hcursor).1
    have hposition : log.cursor.position = log.len := rfl
    have hreduce : reduceTail contract log stable.history.position
        (log.cursor.position - stable.history.position) stable.state = replay contract stable.state tail := by
      rw [hdrop]
      apply reduceTail_eq_replay
      omega
    have hcount : log.cursor.position - stable.history.position = tail.length := by
      rw [hdrop, List.length_drop]
      rfl
    rw [hreduce] at h
    split at h
    . cases h
    . split at h
      . cases h
      . next candidate hcandidate =>
        split at h
        . cases h
        . next bytes hbytes =>
          split at h
          . cases h
          . split at h
            . cases h
            . split at h
              . cases h
              . next snapshot hsnapshot =>
                cases h
                unfold commitStable at hcommit
                rw [if_neg (not_not.mpr rfl)] at hcommit
                cases hcommit
                refine ⟨rfl, tail, htail, hcandidate, rfl, ?_, .inr hbytes⟩
                dsimp only
                rw [hcount]

theorem synchronize_error {error : ProjectionError} (h : (synchronize sha256 contract log stable).2 = .error error)
    : (synchronize sha256 contract log stable).1 = stable := by
  unfold synchronize at h ⊢
  dsimp only at h ⊢
  cases htail : log.tail stable.history with
  | error error => rfl
  | ok tail =>
    rw [htail] at h
    dsimp only at h ⊢
    by_cases hsame : log.cursor.position = stable.history.position
    . rw [if_pos hsame]
    . rw [if_neg hsame] at h ⊢
      cases hprepared : prepareProjection sha256 contract log stable with
      | error error => rfl
      | ok prepared =>
        rw [hprepared] at h
        dsimp only at h ⊢
        cases hcommit : commitStable stable prepared with
        | error error => rfl
        | ok next =>
          rw [hcommit] at h
          cases h

theorem synchronize_ok {history : LogCursor} (h : synchronize sha256 contract log stable = (next, .ok history))
    : history = log.cursor ∧ ∃ tail, CaughtUp contract log stable next tail := by
  unfold synchronize at h
  dsimp only at h
  cases htail : log.tail stable.history with
  | error error =>
    rw [htail] at h
    cases h
  | ok tail =>
    rw [htail] at h
    dsimp only at h
    by_cases hsame : log.cursor.position = stable.history.position
    . rw [if_pos hsame] at h
      cases h
      have hnil : log.tail stable.history = .ok [] := by
        obtain ⟨hcursor, hdrop⟩ := Log.tail_eq_ok_iff.mp htail
        apply Log.tail_eq_ok_iff.mpr
        refine ⟨hcursor, ?_⟩
        rw [← hsame]
        exact (List.drop_eq_nil_of_le (Nat.le_refl _)).symm
      exact ⟨cursor_of_tail_nil hnil, [], .none hnil⟩
    . rw [if_neg hsame] at h
      cases hprepared : prepareProjection sha256 contract log stable with
      | error error =>
        rw [hprepared] at h
        cases h
      | ok prepared =>
        rw [hprepared] at h
        dsimp only at h
        cases hcommit : commitStable stable prepared with
        | error error =>
          rw [hcommit] at h
          cases h
        | ok after =>
          rw [hcommit] at h
          cases h
          exact CaughtUp.of_prepared hprepared hcommit

end Synchronized

structure Node (S : Type) where
  log : Log
  memo : Option ProjectionRead
  cells : Cells S

namespace Node

variable (sha256 : Sha256)

def write (log : Log) (node : Node S) : Node S := { node with log, memo := none }

def memoGet (contract : InPlaceContract S E) (node : Node S) : Node S × ProjectionRead :=
  match node.memo with
  | some read => (node, read)
  | none =>
    match synchronizeInPlace sha256 contract node.log node.cells with
    | (cells, .ok history) => ({ node with memo := some ⟨history, none⟩, cells }, ⟨history, none⟩)
    | (cells, .error error) =>
      ({ node with memo := some ⟨cells.stable.history, some error⟩, cells }, ⟨cells.stable.history, some error⟩)

def settle (contract : InPlaceContract S E) (node : Node S) : Node S × Except ProjectionError Unit :=
  match node.memoGet sha256 contract with
  | (node, ⟨_, some error⟩) => (node, .error error)
  | (node, ⟨history, none⟩) =>
    if node.cells.stable.history ≠ history then (node, .error .concurrentMutation) else (node, .ok ())

def tryGet (contract : InPlaceContract S E) (node : Node S) : Node S × Except ProjectionError S :=
  match node.settle sha256 contract with
  | (node, .error error) => (node, .error error)
  | (node, .ok ()) => (node, .ok node.cells.stable.state)

def prepare (contract : InPlaceContract S E) (candidateLog : Log) (node : Node S)
    : Node S × Except ProjectionError (PreparedProjection S) :=
  let (cells, result) := prepareInPlace sha256 contract candidateLog node.cells
  ({ node with cells }, result)

def commitPrepared (prepared : PreparedProjection S) (node : Node S) : Node S × Except ProjectionError Unit :=
  let (cells, result) := commitInPlace node.cells prepared
  ({ node with cells }, result)

end Node

-- What is done to a projection and its log. The callbacks of every call may be others.
inductive ProjectionCall (S E : Type) where
  | write (log : Log)
  | tryGet (contract : InPlaceContract S E)
  | prepare (contract : InPlaceContract S E) (candidateLog : Log)
  | commitPrepared (prepared : PreparedProjection S)

namespace ProjectionCall

variable (sha256 : Sha256)

-- The node that is left, and the error if there is one.
def told {α : Type} (result : Node S × Except ProjectionError α) : Node S × Option ProjectionError :=
  match result.2 with
  | .error error => (result.1, some error)
  | .ok _ => (result.1, none)

def exec (call : ProjectionCall S E) (node : Node S) : Node S × Option ProjectionError :=
  match call with
  | .write log => (node.write log, none)
  | .tryGet contract => told (node.tryGet sha256 contract)
  | .prepare contract candidateLog => told (node.prepare sha256 contract candidateLog)
  | .commitPrepared prepared => told (node.commitPrepared prepared)

def execAll (calls : List (ProjectionCall S E)) (node : Node S) : Node S :=
  calls.foldl (fun node call => (call.exec sha256 node).1) node

def isWrite (call : ProjectionCall S E) : Bool :=
  match call with
  | .write _ => true
  | _ => false

def AllFail (calls : List (ProjectionCall S E)) (node : Node S) : Prop :=
  match calls with
  | [] => True
  | call :: calls =>
    (call.isWrite = true ∨ ∃ error, (call.exec sha256 node).2 = some error) ∧
      AllFail calls (call.exec sha256 node).1

end ProjectionCall

namespace Node

variable {contract : InPlaceContract S E} {sha256 : Sha256} {node : Node S}

-- A memo that holds no error is up to the log.
def Settled (node : Node S) : Prop := ∀ history, node.memo = some ⟨history, none⟩ → history = node.log.cursor

theorem memoGet_spec (h : node.Settled)
    : (node.memoGet sha256 contract).1.log = node.log ∧
      (node.memoGet sha256 contract).1.memo = some (node.memoGet sha256 contract).2 ∧
      ((node.memoGet sha256 contract).1.cells.stable = node.cells.stable ∧
          (∀ history, (node.memoGet sha256 contract).2 = ⟨history, none⟩ → history = node.log.cursor)
        ∨ (node.memoGet sha256 contract).2 = ⟨node.log.cursor, none⟩ ∧
          ∃ tail, CaughtUp contract.functional node.log node.cells.stable
            (node.memoGet sha256 contract).1.cells.stable tail) := by
  unfold memoGet
  cases hmemo : node.memo with
  | some read =>
    refine ⟨rfl, hmemo, .inl ⟨rfl, ?_⟩⟩
    intro history hread
    apply h
    rw [hmemo]
    exact congrArg some hread
  | none =>
    have hsame := synchronizeInPlace_eq contract sha256 node.log node.cells
    cases hresult : synchronizeInPlace sha256 contract node.log node.cells with
    | mk cells result =>
      rw [hresult] at hsame
      cases result with
      | error error =>
        have herror := @synchronize_error _ _ contract.functional sha256 node.log node.cells.stable error
        rw [← hsame] at herror
        refine ⟨rfl, rfl, .inl ⟨herror rfl, ?_⟩⟩
        intro history hread
        cases hread
      | ok history =>
        obtain ⟨hhistory, tail, hcaught⟩ := synchronize_ok hsame.symm
        dsimp only
        rw [hhistory]
        exact ⟨rfl, rfl, .inr ⟨rfl, tail, hcaught⟩⟩

theorem tryGet_spec (h : node.Settled)
    : (node.tryGet sha256 contract).1.log = node.log ∧
      (node.tryGet sha256 contract).1.Settled ∧
      (∀ error, (node.tryGet sha256 contract).2 = .error error →
        (node.tryGet sha256 contract).1.cells.stable = node.cells.stable) ∧
      ∀ state, (node.tryGet sha256 contract).2 = .ok state →
        (node.tryGet sha256 contract).1.cells.stable.state = state ∧
        ∃ tail, CaughtUp contract.functional node.log node.cells.stable
          (node.tryGet sha256 contract).1.cells.stable tail := by
  obtain ⟨hlog, hmemo, hspec⟩ := @memoGet_spec _ _ contract sha256 node h
  unfold tryGet settle
  cases hget : node.memoGet sha256 contract with
  | mk after read =>
    rw [hget] at hlog hmemo hspec
    dsimp only at hlog hmemo hspec
    have hsettled : after.Settled := by
      intro history hread
      rw [hmemo] at hread
      cases hread
      rw [hlog]
      obtain ⟨-, hcursor⟩ | ⟨hcursor, -⟩ := hspec
      . exact hcursor history rfl
      . cases hcursor
        rfl
    cases read with
    | mk history error =>
      cases error with
      | some error =>
        refine ⟨hlog, hsettled, ?_, nofun⟩
        intro _ _
        obtain ⟨hstable, -⟩ | ⟨hcursor, -⟩ := hspec
        . exact hstable
        . cases hcursor
      | none =>
        dsimp only
        by_cases hmoved : after.cells.stable.history ≠ history
        . rw [if_pos hmoved]
          refine ⟨hlog, hsettled, ?_, nofun⟩
          intro _ _
          obtain ⟨hstable, -⟩ | ⟨hcursor, tail, hcaught⟩ := hspec
          . exact hstable
          . cases hcursor
            exact absurd hcaught.history hmoved
        . rw [if_neg hmoved]
          refine ⟨hlog, hsettled, nofun, ?_⟩
          intro state hstate
          cases hstate
          refine ⟨rfl, ?_⟩
          obtain ⟨hstable, hcursor⟩ | ⟨-, hcaught⟩ := hspec
          . have hhistory : node.cells.stable.history = node.log.cursor := by
              rw [← hstable, not_not.mp hmoved, hcursor history rfl]
            have htail : node.log.tail node.cells.stable.history = .ok [] := by
              rw [hhistory]
              exact tail_cursor node.log
            dsimp only
            rw [hstable]
            exact ⟨[], .none htail⟩
          . exact hcaught

end Node

namespace ProjectionCall

variable {sha256 : Sha256} {node : Node S}

@[simp]
theorem told_node {α : Type} (result : Node S × Except ProjectionError α) : (told result).1 = result.1 := by
  unfold told
  cases result.2 with
  | error error => rfl
  | ok value => rfl

theorem told_error {α : Type} {result : Node S × Except ProjectionError α} {error : ProjectionError}
    (h : (told result).2 = some error)
    : result.2 = .error error := by
  unfold told at h
  cases hresult : result.2 with
  | error other =>
    rw [hresult] at h
    cases h
    rfl
  | ok value =>
    rw [hresult] at h
    cases h

theorem exec_settled (call : ProjectionCall S E) (h : node.Settled) : (call.exec sha256 node).1.Settled := by
  cases call with
  | write log =>
    intro history hmemo
    cases hmemo
  | tryGet contract =>
    rw [exec, told_node]
    exact (Node.tryGet_spec h).2.1
  | prepare contract candidateLog =>
    rw [exec, told_node]
    exact h
  | commitPrepared prepared =>
    rw [exec, told_node]
    exact h

theorem execAll_settled (calls : List (ProjectionCall S E)) (h : node.Settled)
    : (execAll sha256 calls node).Settled := by
  induction calls generalizing node with
  | nil => exact h
  | cons call calls ih => exact ih (call.exec_settled h)

theorem exec_keeps (call : ProjectionCall S E) (h : node.Settled)
    (hfails : call.isWrite = true ∨ ∃ error, (call.exec sha256 node).2 = some error)
    : (call.exec sha256 node).1.cells.stable = node.cells.stable := by
  cases call with
  | write log => rfl
  | tryGet contract =>
    obtain hwrite | ⟨error, hsome⟩ := hfails
    . cases hwrite
    . rw [exec, told_node]
      exact (Node.tryGet_spec h).2.2.1 error (told_error hsome)
  | prepare contract candidateLog =>
    rw [exec, told_node]
    exact (prepareInPlace_eq contract sha256 candidateLog node.cells).1
  | commitPrepared prepared =>
    obtain hwrite | ⟨error, hsome⟩ := hfails
    . cases hwrite
    . have herror := told_error hsome
      rw [exec, told_node]
      unfold Node.commitPrepared commitInPlace at herror ⊢
      cases hcommit : commitStable node.cells.stable prepared with
      | error error => rfl
      | ok stable =>
        rw [hcommit] at herror
        cases herror

theorem execAll_keeps (calls : List (ProjectionCall S E)) (h : node.Settled) (hfail : AllFail sha256 calls node)
    : (execAll sha256 calls node).cells.stable = node.cells.stable := by
  induction calls generalizing node with
  | nil => rfl
  | cons call calls ih =>
    obtain ⟨hfirst, hothers⟩ := hfail
    exact (ih (call.exec_settled h) hothers).trans (call.exec_keeps h hfirst)

end ProjectionCall

theorem tail_extends {log longer : Log} {events tail tail' : List Event} {cursor : LogCursor}
    (hlonger : longer.events = log.events ++ events) (h : log.tail cursor = .ok tail)
    (h' : longer.tail cursor = .ok tail')
    : tail' = tail ++ events := by
  obtain ⟨hcursor, hdrop⟩ := Log.tail_eq_ok_iff.mp h
  obtain ⟨-, hdrop'⟩ := Log.tail_eq_ok_iff.mp h'
  have hle : cursor.position ≤ log.events.length := (Log.cursorAt_eq_ok_iff.mp hcursor).1
  rw [hdrop', hlonger, hdrop, List.drop_append_of_le_length hle]

open ProjectionCall in
/--
However calls fail, at whatever event and behind whatever change of the state that they were handed, the checkpoint is
what it was; and the next read that succeeds folds the events behind it, each of them once.
-/
theorem failures_keep_checkpoint (sha256 : Sha256) (start : Node S) (hstart : start.memo = none)
    (before failing : List (ProjectionCall S E)) (hfail : AllFail sha256 failing (execAll sha256 before start))
    : let node := execAll sha256 before start
      let later := execAll sha256 failing node
      later.cells.stable = node.cells.stable ∧
      ∀ (contract : InPlaceContract S E) state, (later.tryGet sha256 contract).2 = .ok state →
        (later.tryGet sha256 contract).1.cells.stable.state = state ∧
        ∃ tail, CaughtUp contract.functional later.log node.cells.stable
            (later.tryGet sha256 contract).1.cells.stable tail ∧
          ∀ waiting more, node.log.tail node.cells.stable.history = .ok waiting →
            later.log.events = node.log.events ++ more → tail = waiting ++ more := by
  dsimp only
  have hsettled : (execAll sha256 before start).Settled := by
    apply execAll_settled
    intro history hmemo
    rw [hstart] at hmemo
    cases hmemo
  have hkept := execAll_keeps failing hsettled hfail
  refine ⟨hkept, ?_⟩
  intro contract state hread
  have hlater := @execAll_settled _ _ sha256 _ failing hsettled
  obtain ⟨hstate, tail, hcaught⟩ := (@Node.tryGet_spec _ _ contract sha256 _ hlater).2.2.2 state hread
  rw [hkept] at hcaught
  refine ⟨hstate, tail, hcaught, ?_⟩
  intro waiting more hwaiting hlonger
  exact tail_extends hlonger hwaiting hcaught.found

def noteInPlace (apply : Nat → Nat → Nat × Attempt String Unit) : InPlaceContract Nat Nat where
  catalog := Replica.noteCatalog
  reducer := ⟨⟨"count", 1, genesisHash⟩, apply⟩
  codec := Replica.noteContract.codec
  eq a b := a == b

def noteEvent (seq : Nat) : Event := { Log.firstEvent with seq, hash := genesisHash }

def spoilingNotes : InPlaceContract Nat Nat := noteInPlace fun total _ => (total + 100, .panicked)

def countingNotes : InPlaceContract Nat Nat := noteInPlace fun total added => (total + added, .ok ())

open ProjectionCall in
-- The reducer panics behind a change of its argument; then the log grows and the reducer is whole again.
theorem failures_keep_checkpoint_notes
    : let start : Node Nat := ⟨⟨[noteEvent 0]⟩, none, ⟨⟨0, [], ⟨0, genesisHash⟩, 0⟩, 0⟩⟩
      let later := execAll sha256Digest [.tryGet spoilingNotes, .write ⟨[noteEvent 0, noteEvent 1]⟩] start
      later.cells.stable = start.cells.stable ∧
        (later.tryGet sha256Digest countingNotes).1.cells.stable.state = 2 := by
  intro start later
  have hpanics : ((ProjectionCall.tryGet spoilingNotes).exec sha256Digest start).2 = some (.reducerPanicked 0) := by
    decide +kernel
  have hread : (later.tryGet sha256Digest countingNotes).2 = .ok 2 := by decide +kernel
  have hfail : AllFail sha256Digest [.tryGet spoilingNotes, .write ⟨[noteEvent 0, noteEvent 1]⟩] start :=
    ⟨.inr ⟨_, hpanics⟩, .inl rfl, trivial⟩
  obtain ⟨hkept, hnext⟩ := failures_keep_checkpoint sha256Digest start rfl [] _ hfail
  exact ⟨hkept, (hnext countingNotes 2 hread).1⟩

end Fold

end Pliego
