import Pliego.Log.Catalog

/-!
Transactional projections of `pliego-fold`: the state codec, snapshots and state roots, the stable
checkpoint, and the memo that brings it up to the log.
-/

namespace Pliego

open Bytes

namespace Fold

def maxCanonicalStateBytes : Nat := 8 * 1024 * 1024

def maxFailureMessageBytes : Nat := 2048

inductive CodecError where
  | invalidLimit (requested maximum : Nat)
  | tooLarge (actual maximum : Nat)
  | tooDeep (actual maximum : Nat)
  | tooManyNodes (actual maximum : Nat)
  | encode (message : String)
  | decode (message : String)
  deriving DecidableEq, Repr

inductive SnapshotError where
  | tooLarge (actual maximum : Nat)
  | invalidMagic
  | unsupportedFormat (format : Nat)
  | truncated (field : String)
  | trailingBytes (count : Nat)
  | invalidUtf8 (field : String)
  | invalidContractId (field reason : String)
  | reducerConfig (message : String)
  | codecConfig (message : String)
  | stateTooLarge (actual maximum : Nat)
  | stateDigestMismatch
  | snapshotDigestMismatch
  deriving DecidableEq, Repr

structure ContractIdentity where
  id : String
  revision : Nat
  configHash : Hash
  deriving DecidableEq

abbrev ReducerIdentity := ContractIdentity

abbrev CodecIdentity := ContractIdentity

inductive ProjectionError where
  | snapshot (error : SnapshotError)
  | codec (error : CodecError)
  | cursor (error : CursorError)
  | schemaSetMismatch (expected actual : Hash)
  | reducerMismatch (expected actual : ReducerIdentity)
  | codecMismatch (expected actual : CodecIdentity)
  | nonCanonicalState
  | codecPanicked (operation : String)
  | schema (sequence : Nat) (message : String)
  | schemaPanicked (sequence : Nat)
  | reducer (sequence : Nat) (message : String)
  | reducerPanicked (sequence : Nat)
  | concurrentMutation
  | counterOverflow
  deriving DecidableEq

def boundedMessage (message : String) : String :=
  if (utf8 message).length ≤ maxFailureMessageBytes then
    message
  else
    String.ofList (go maxFailureMessageBytes message.toList)
where
  go (room : Nat) (chars : List Char) : List Char :=
    match chars with
    | [] => []
    | c :: rest => if c.utf8Size ≤ room then c :: go (room - c.utf8Size) rest else []

structure Reducer (S E : Type) where
  identity : ReducerIdentity
  apply : S → E → Attempt String S

/--
A state codec. `identity` was read when the projection was built.
-/
structure StateCodec (S : Type) where
  identity : CodecIdentity
  encode : S → Attempt CodecError (List UInt8)
  decode : List UInt8 → Attempt CodecError S

/--
The contract a projection is bound to. `eq` is the `PartialEq` of the state.
-/
structure ProjectionContract (S E : Type) where
  catalog : SealedEventCatalog E
  reducer : Reducer S E
  codec : StateCodec S
  eq : S → S → Bool

structure ProjectionSnapshot where
  format : Nat
  history : LogCursor
  schemaSetDigest : Hash
  reducer : ReducerIdentity
  codec : CodecIdentity
  stateBytes : List UInt8
  stateDigest : Hash
  snapshotDigest : Hash
  deriving DecidableEq

def snapshotFormatV1 : Nat := 1

namespace ProjectionSnapshot

def digestPreimage (snapshot : ProjectionSnapshot) : List UInt8 :=
  utf8 "pliego-fold/snapshot/1" ++ [0]
    ++ beBytes 2 snapshot.format
    ++ beBytes 8 snapshot.history.position
    ++ snapshot.history.headHash.bytes
    ++ snapshot.schemaSetDigest.bytes
    ++ lenPrefixed (utf8 snapshot.reducer.id)
    ++ beBytes 8 snapshot.reducer.revision
    ++ snapshot.reducer.configHash.bytes
    ++ lenPrefixed (utf8 snapshot.codec.id)
    ++ beBytes 8 snapshot.codec.revision
    ++ snapshot.codec.configHash.bytes
    ++ lenPrefixed snapshot.stateBytes
    ++ snapshot.stateDigest.bytes

def create (sha256 : Sha256) (history : LogCursor) (schemaSetDigest : Hash)
    (reducer : ReducerIdentity) (codec : CodecIdentity) (stateBytes : List UInt8)
    : Except SnapshotError ProjectionSnapshot :=
  if stateBytes.length > maxCanonicalStateBytes then
    .error (.stateTooLarge stateBytes.length maxCanonicalStateBytes)
  else
    let snapshot : ProjectionSnapshot :=
      {
        format := snapshotFormatV1
        history := history
        schemaSetDigest := schemaSetDigest
        reducer := reducer
        codec := codec
        stateBytes := stateBytes
        stateDigest := sha256 stateBytes
        snapshotDigest := genesisHash
      }
    .ok { snapshot with snapshotDigest := sha256 snapshot.digestPreimage }

end ProjectionSnapshot

structure StateRoot where
  format : Nat
  digest : Hash
  deriving DecidableEq

def stateRootFormatV1 : Nat := 1

namespace StateRoot

def pushIdentity (identity : ContractIdentity) : List UInt8 :=
  beBytes 2 (utf8 identity.id).length ++ utf8 identity.id ++ beBytes 8 identity.revision
    ++ identity.configHash.bytes

def fromSnapshot (sha256 : Sha256) (snapshot : ProjectionSnapshot) : StateRoot where
  format := stateRootFormatV1
  digest := sha256
    (utf8 "pliego-fold/state-root/1" ++ [0]
      ++ beBytes 2 snapshot.format
      ++ beBytes 8 snapshot.history.position
      ++ snapshot.history.headHash.bytes
      ++ snapshot.schemaSetDigest.bytes
      ++ pushIdentity snapshot.reducer
      ++ pushIdentity snapshot.codec
      ++ snapshot.stateDigest.bytes
      ++ snapshot.snapshotDigest.bytes)

end StateRoot

variable {S E : Type}

def codecEncode (codec : StateCodec S) (state : S) : Except ProjectionError (List UInt8) :=
  match codec.encode state with
  | .panicked => .error (.codecPanicked "encode")
  | .err error => .error (.codec error)
  | .ok bytes =>
    if bytes.length > maxCanonicalStateBytes then
      .error (.codec (.tooLarge bytes.length maxCanonicalStateBytes))
    else
      .ok bytes

def codecDecode (codec : StateCodec S) (bytes : List UInt8) : Except ProjectionError S :=
  match codec.decode bytes with
  | .panicked => .error (.codecPanicked "decode")
  | .err error => .error (.codec error)
  | .ok state => .ok state

def canonicalStateBytes (contract : ProjectionContract S E) (state : S)
    : Except ProjectionError (List UInt8) :=
  match codecEncode contract.codec state with
  | .error error => .error error
  | .ok bytes =>
    match codecDecode contract.codec bytes with
    | .error error => .error error
    | .ok decoded =>
      if !contract.eq decoded state then
        .error .nonCanonicalState
      else
        match codecEncode contract.codec decoded with
        | .error error => .error error
        | .ok again => if again ≠ bytes then .error .nonCanonicalState else .ok bytes

structure Stable (S : Type) where
  state : S
  stateBytes : List UInt8
  history : LogCursor
  folded : Nat

structure PreparedProjection (S : Type) where
  expectedHistory : LogCursor
  nextHistory : LogCursor
  state : S
  stateBytes : List UInt8
  folded : Nat
  stateRoot : StateRoot

structure ProjectionRead where
  history : LogCursor
  error : Option ProjectionError
  deriving DecidableEq

/--
The body of the loop of `prepare_projection`, for one stored event.
-/
def applyEvent (contract : ProjectionContract S E) (candidate : S) (stored : Event)
    : Except ProjectionError S :=
  match contract.catalog.decode stored with
  | .panicked => .error (.schemaPanicked stored.seq)
  | .err error => .error (.schema stored.seq (boundedMessage error.display))
  | .ok resolved =>
    match contract.reducer.apply candidate resolved with
    | .panicked => .error (.reducerPanicked stored.seq)
    | .err message => .error (.reducer stored.seq (boundedMessage message))
    | .ok candidate => .ok candidate

/--
The loop `for sequence in expected.position..next.position` of `prepare_projection`.
-/
def reduceTail (contract : ProjectionContract S E) (log : Log) (sequence count : Nat)
    (candidate : S) : Except ProjectionError S :=
  match count with
  | 0 => .ok candidate
  | count + 1 =>
    match log.get sequence with
    | none => .error .concurrentMutation
    | some stored =>
      match applyEvent contract candidate stored with
      | .error error => .error error
      | .ok candidate => reduceTail contract log (sequence + 1) count candidate

def createSnapshot (sha256 : Sha256) (contract : ProjectionContract S E) (history : LogCursor)
    (stateBytes : List UInt8) : Except ProjectionError ProjectionSnapshot :=
  match ProjectionSnapshot.create sha256 history contract.catalog.digest contract.reducer.identity
      contract.codec.identity stateBytes with
  | .error error => .error (.snapshot error)
  | .ok snapshot => .ok snapshot

def prepareProjection (sha256 : Sha256) (contract : ProjectionContract S E) (candidateLog : Log)
    (stable : Stable S) : Except ProjectionError (PreparedProjection S) :=
  let expected := stable.history
  match candidateLog.tail expected with
  | .error error => .error (.cursor error)
  | .ok _ =>
    let next := candidateLog.cursor
    if next.position < expected.position then
      .error .concurrentMutation
    else
      let eventCount := next.position - expected.position
      match reduceTail contract candidateLog expected.position eventCount stable.state with
      | .error error => .error error
      | .ok candidate =>
        match canonicalStateBytes contract candidate with
        | .error error => .error error
        | .ok candidateBytes =>
          if contract.eq candidate stable.state && candidateBytes ≠ stable.stateBytes then
            .error .nonCanonicalState
          else if stable.folded + eventCount ≥ 2 ^ 64 then
            .error .counterOverflow
          else
            match createSnapshot sha256 contract next candidateBytes with
            | .error error => .error error
            | .ok snapshot =>
              .ok
                {
                  expectedHistory := expected
                  nextHistory := next
                  state := candidate
                  stateBytes := candidateBytes
                  folded := stable.folded + eventCount
                  stateRoot := StateRoot.fromSnapshot sha256 snapshot
                }

def commitStable (stable : Stable S) (prepared : PreparedProjection S)
    : Except ProjectionError (Stable S) :=
  if stable.history ≠ prepared.expectedHistory then
    .error .concurrentMutation
  else
    .ok
      {
        state := prepared.state
        stateBytes := prepared.stateBytes
        history := prepared.nextHistory
        folded := prepared.folded
      }

def synchronize (sha256 : Sha256) (contract : ProjectionContract S E) (log : Log)
    (stable : Stable S) : Stable S × Except ProjectionError LogCursor :=
  let expected := stable.history
  match log.tail expected with
  | .error error => (stable, .error (.cursor error))
  | .ok _ =>
    if log.cursor.position = expected.position then
      (stable, .ok expected)
    else
      match prepareProjection sha256 contract log stable with
      | .error error => (stable, .error error)
      | .ok prepared =>
        match commitStable stable prepared with
        | .error error => (stable, .error error)
        | .ok next => (next, .ok prepared.nextHistory)

/--
A projection on a log. `memo` is the value of its memo while the memo is clean, and is absent while
the memo has still to run; a write to the log makes it dirty.
-/
structure Projection (S : Type) where
  memo : Option ProjectionRead
  stable : Stable S

namespace Projection

def invalidate (projection : Projection S) : Projection S :=
  { projection with memo := none }

def memoGet (sha256 : Sha256) (contract : ProjectionContract S E) (log : Log)
    (projection : Projection S) : Projection S × ProjectionRead :=
  match projection.memo with
  | some read => (projection, read)
  | none =>
    match synchronize sha256 contract log projection.stable with
    | (stable, .ok history) => (⟨some ⟨history, none⟩, stable⟩, ⟨history, none⟩)
    | (stable, .error error) =>
      (⟨some ⟨stable.history, some error⟩, stable⟩, ⟨stable.history, some error⟩)

def settle (sha256 : Sha256) (contract : ProjectionContract S E) (log : Log)
    (projection : Projection S) : Projection S × Except ProjectionError Unit :=
  match projection.memoGet sha256 contract log with
  | (projection, ⟨_, some error⟩) => (projection, .error error)
  | (projection, ⟨history, none⟩) =>
    if projection.stable.history ≠ history then
      (projection, .error .concurrentMutation)
    else
      (projection, .ok ())

def tryGet (sha256 : Sha256) (contract : ProjectionContract S E) (log : Log)
    (projection : Projection S) : Projection S × Except ProjectionError S :=
  match projection.settle sha256 contract log with
  | (projection, .error error) => (projection, .error error)
  | (projection, .ok ()) => (projection, .ok projection.stable.state)

def sync (sha256 : Sha256) (contract : ProjectionContract S E) (log : Log)
    (projection : Projection S) : Projection S × Except ProjectionError S :=
  projection.tryGet sha256 contract log

def snapshot (sha256 : Sha256) (contract : ProjectionContract S E) (log : Log)
    (projection : Projection S) : Projection S × Except ProjectionError ProjectionSnapshot :=
  match projection.settle sha256 contract log with
  | (projection, .error error) => (projection, .error error)
  | (projection, .ok ()) =>
    (projection,
      createSnapshot sha256 contract projection.stable.history projection.stable.stateBytes)

def stateRoot (sha256 : Sha256) (contract : ProjectionContract S E) (log : Log)
    (projection : Projection S) : Projection S × Except ProjectionError StateRoot :=
  match projection.snapshot sha256 contract log with
  | (projection, .error error) => (projection, .error error)
  | (projection, .ok snapshot) => (projection, .ok (StateRoot.fromSnapshot sha256 snapshot))

def history (sha256 : Sha256) (contract : ProjectionContract S E) (log : Log)
    (projection : Projection S) : Projection S × Except ProjectionError LogCursor :=
  match projection.settle sha256 contract log with
  | (projection, .error error) => (projection, .error error)
  | (projection, .ok ()) => (projection, .ok projection.stable.history)

def fromStable (contract : ProjectionContract S E) (state : S)
    (expectedStateBytes : Option (List UInt8)) (history : LogCursor)
    : Except ProjectionError (Projection S) :=
  match canonicalStateBytes contract state with
  | .error error => .error error
  | .ok stateBytes =>
    if expectedStateBytes.any (fun expected => expected ≠ stateBytes) then
      .error .nonCanonicalState
    else
      .ok ⟨none, ⟨state, stateBytes, history, 0⟩⟩

def new (contract : ProjectionContract S E) (log : Log) (initial : S)
    : Except ProjectionError (Projection S) :=
  match log.cursorAt 0 with
  | .error error => .error (.cursor error)
  | .ok history => fromStable contract initial none history

def restore (sha256 : Sha256) (contract : ProjectionContract S E) (log : Log)
    (snapshot : ProjectionSnapshot) : Except ProjectionError (Projection S) :=
  if snapshot.schemaSetDigest ≠ contract.catalog.digest then
    .error (.schemaSetMismatch snapshot.schemaSetDigest contract.catalog.digest)
  else if snapshot.reducer ≠ contract.reducer.identity then
    .error (.reducerMismatch snapshot.reducer contract.reducer.identity)
  else if snapshot.codec ≠ contract.codec.identity then
    .error (.codecMismatch snapshot.codec contract.codec.identity)
  else
    match log.tail snapshot.history with
    | .error error => .error (.cursor error)
    | .ok _ =>
      match codecDecode contract.codec snapshot.stateBytes with
      | .error error => .error error
      | .ok state =>
        match fromStable contract state (some snapshot.stateBytes) snapshot.history with
        | .error error => .error error
        | .ok projection =>
          match projection.tryGet sha256 contract log with
          | (_, .error error) => .error error
          | (projection, .ok _) => .ok projection

end Projection

end Fold

end Pliego
