import Pliego.Fold.Projection
import Pliego.Lib.ByteReader
import Pliego.Lib.Utf8

/-!
The envelope that a projection snapshot is stored in, and the state root that is drawn from one.
-/

namespace Pliego

namespace Fold

open Bytes ByteReader Reader

def maxContractIdBytes : Nat := 192

def maxProjectionSnapshotBytes : Nat := maxCanonicalStateBytes + (2 * maxContractIdBytes) + 256

def snapshotMagic : List UInt8 := utf8 "PLGSNAP" ++ [0]

def contractIdByte (byte : UInt8) : Bool :=
  (97 ≤ byte && byte ≤ 122) || (65 ≤ byte && byte ≤ 90) || (48 ≤ byte && byte ≤ 57)
    || byte == 45 || byte == 95 || byte == 46 || byte == 47 || byte == 58

def validateContractId (field value : String) : Except SnapshotError Unit :=
  if (utf8 value).isEmpty then
    .error (.invalidContractId field "must not be empty")
  else if (utf8 value).length > maxContractIdBytes then
    .error (.invalidContractId field "too long")
  else if !(utf8 value).all contractIdByte then
    .error (.invalidContractId field "contains a non-portable character")
  else
    .ok ()

def ContractIdentity.new (field id : String) (revision : Nat) (configHash : Hash)
    : Except SnapshotError ContractIdentity := do
  validateContractId field id
  .ok ⟨id, revision, configHash⟩

def ReducerIdentity.new (id : String) (revision : Nat) (configHash : Hash) : Except SnapshotError ReducerIdentity :=
  ContractIdentity.new "reducer" id revision configHash

def CodecIdentity.new (id : String) (revision : Nat) (configHash : Hash) : Except SnapshotError CodecIdentity :=
  ContractIdentity.new "codec" id revision configHash

def pushString (value : String) : List UInt8 := beBytes 2 (utf8 value).length ++ utf8 value

namespace Decoder

def u16 (field : String) : Reader SnapshotError Nat := be 2 (.truncated field)

def u32 (field : String) : Reader SnapshotError Nat := be 4 (.truncated field)

def u64 (field : String) : Reader SnapshotError Nat := be 8 (.truncated field)

def hash (field : String) : Reader SnapshotError Hash := do
  let bytes ← array 32 (.truncated field)
  return ⟨bytes.val, bytes.property⟩

def string (lengthField valueField : String) : Reader SnapshotError String := do
  let len ← u16 lengthField
  ensure (len ≤ maxContractIdBytes) (.invalidContractId valueField "too long")
  let bytes ← take len (.truncated valueField)
  ofOption (Utf8.decode bytes) (.invalidUtf8 valueField)

-- The subtraction panics when it underflows.
def remaining (decoder : Cursor) : Option Nat :=
  if decoder.offset ≤ decoder.bytes.length then some (decoder.bytes.length - decoder.offset) else none

end Decoder

namespace ProjectionSnapshot

open Decoder

def verifyIntegrity (sha256 : Sha256) (snapshot : ProjectionSnapshot) : Except SnapshotError Unit :=
  if sha256 snapshot.stateBytes ≠ snapshot.stateDigest then
    .error .stateDigestMismatch
  else if sha256 snapshot.digestPreimage ≠ snapshot.snapshotDigest then
    .error .snapshotDigestMismatch
  else
    .ok ()

-- The fields of an envelope, in their order. The identities are put together without a check.
def fields : Reader SnapshotError ProjectionSnapshot := do
  let magic ← take snapshotMagic.length (.truncated "magic")
  ensure (magic == snapshotMagic) .invalidMagic
  let format ← u16 "format"
  ensure (format == snapshotFormatV1) (.unsupportedFormat format)
  let position ← u64 "history position"
  let headHash ← hash "history head"
  let schemaSetDigest ← hash "schema-set digest"
  let reducerId ← string "reducer id" "reducer"
  let reducerRevision ← u64 "reducer revision"
  let reducerConfigHash ← hash "reducer config hash"
  let codecId ← string "codec id" "codec"
  let codecRevision ← u64 "codec revision"
  let codecConfigHash ← hash "codec config hash"
  let stateLen ← u32 "state length"
  ensure (stateLen ≤ maxCanonicalStateBytes) (.stateTooLarge stateLen maxCanonicalStateBytes)
  let stateBytes ← take stateLen (.truncated "state bytes")
  let stateDigest ← hash "state digest"
  let snapshotDigest ← hash "snapshot digest"
  return {
    format
    history := ⟨position, headHash⟩
    schemaSetDigest
    reducer := ⟨reducerId, reducerRevision, reducerConfigHash⟩
    codec := ⟨codecId, codecRevision, codecConfigHash⟩
    stateBytes
    stateDigest
    snapshotDigest
  }

def finish (sha256 : Sha256) (snapshot : ProjectionSnapshot) (remaining : Nat)
    : Except SnapshotError ProjectionSnapshot :=
  if remaining ≠ 0 then
    .error (.trailingBytes remaining)
  else do
    let reducer ← ReducerIdentity.new snapshot.reducer.id snapshot.reducer.revision snapshot.reducer.configHash
    let codec ← CodecIdentity.new snapshot.codec.id snapshot.codec.revision snapshot.codec.configHash
    let snapshot := { snapshot with reducer, codec }
    snapshot.verifyIntegrity sha256
    .ok snapshot

-- Nothing is returned when the decoder panics.
def decode (sha256 : Sha256) (bytes : List UInt8) : Option (Except SnapshotError ProjectionSnapshot) :=
  if bytes.length > maxProjectionSnapshotBytes then
    some (.error (.tooLarge bytes.length maxProjectionSnapshotBytes))
  else
    match fields ⟨bytes, 0⟩ with
    | none => none
    | some (.error error) => some (.error error)
    | some (.ok (snapshot, decoder)) =>
      match remaining decoder with
      | none => none
      | some remaining => some (finish sha256 snapshot remaining)

def encode (snapshot : ProjectionSnapshot) : List UInt8 :=
  snapshotMagic
    ++ beBytes 2 snapshot.format
    ++ beBytes 8 snapshot.history.position
    ++ snapshot.history.headHash.bytes
    ++ snapshot.schemaSetDigest.bytes
    ++ pushString snapshot.reducer.id
    ++ beBytes 8 snapshot.reducer.revision
    ++ snapshot.reducer.configHash.bytes
    ++ pushString snapshot.codec.id
    ++ beBytes 8 snapshot.codec.revision
    ++ snapshot.codec.configHash.bytes
    ++ beBytes 4 snapshot.stateBytes.length
    ++ snapshot.stateBytes
    ++ snapshot.stateDigest.bytes
    ++ snapshot.snapshotDigest.bytes

structure Fits (snapshot : ProjectionSnapshot) : Prop where
  format : snapshot.format = snapshotFormatV1
  position : snapshot.history.position < 256 ^ 8
  reducerId : (utf8 snapshot.reducer.id).length ≤ maxContractIdBytes
  reducerRevision : snapshot.reducer.revision < 256 ^ 8
  codecId : (utf8 snapshot.codec.id).length ≤ maxContractIdBytes
  codecRevision : snapshot.codec.revision < 256 ^ 8
  state : snapshot.stateBytes.length ≤ maxCanonicalStateBytes

end ProjectionSnapshot

theorem u16_inverts (field : String) : Inverts (Decoder.u16 field) (beBytes 2) (fun n => n < 256 ^ 2) := Inverts.be 2 _

theorem u32_inverts (field : String) : Inverts (Decoder.u32 field) (beBytes 4) (fun n => n < 256 ^ 4) := Inverts.be 4 _

theorem u64_inverts (field : String) : Inverts (Decoder.u64 field) (beBytes 8) (fun n => n < 256 ^ 8) := Inverts.be 8 _

theorem hash_inverts (field : String) : Inverts (Decoder.hash field) (fun hash => hash.bytes) (fun _ => True) := by
  have hmade : ∀ bytes : { bytes : List UInt8 // bytes.length = 32 }, True →
      Inverts (Pure.pure ⟨bytes.val, bytes.property⟩ : Reader SnapshotError Hash) (fun _ => [])
        (fun hash => ⟨hash.bytes, hash.length_eq⟩ = bytes ∧ True) := by
    intro bytes _
    apply Inverts.pure
    . exact ⟨rfl, trivial⟩
    . intro other hother
      rw [← hother.1]
  apply (Inverts.bind (Inverts.array 32 _) (fun _ _ => trivial) hmade).congr
  intro hash
  exact List.append_nil _

theorem string_inverts (lengthField valueField : String)
    : Inverts (Decoder.string lengthField valueField) pushString
        (fun text => (utf8 text).length ≤ maxContractIdBytes) := by
  have hlen : ∀ text : String, (utf8 text).length ≤ maxContractIdBytes → (utf8 text).length < 256 ^ 2 := by
    intro text htext
    unfold maxContractIdBytes at htext
    omega
  unfold Decoder.string
  refine Inverts.congr (Inverts.bind (g := fun text => (utf8 text).length) (Inverts.be 2 _) hlen fun len _ =>
    Inverts.bind (g := fun _ => ()) (Inverts.ensure _ _) ?_ fun _ hshort =>
    Inverts.bind (g := utf8) (Inverts.take len _) ?_ fun bytes htaken => Inverts.ofOption ?_) ?_
  . intro text htext
    rw [← htext.1]
    exact decide_eq_true htext.2
  . intro text htext
    exact htext.2.1
  . intro text
    rw [Utf8.decode_eq_some]
    constructor
    . intro hbytes
      rw [hbytes] at htaken
      refine ⟨hbytes.symm, rfl, htaken, ?_⟩
      rw [htaken]
      exact of_decide_eq_true hshort
    . intro htext
      exact htext.1.symm
  . intro text
    rw [List.nil_append, List.append_nil]
    rfl

namespace ProjectionSnapshot

theorem fields_inverts : Inverts fields encode Fits := by
  unfold fields
  apply Inverts.congr
  . refine Inverts.bind (g := fun _ : ProjectionSnapshot => snapshotMagic) (Inverts.take _ _) ?_ fun magic hmagic =>
      Inverts.bind (g := fun _ : ProjectionSnapshot => ()) (Inverts.ensure _ _) ?_ fun _ hsame =>
      Inverts.bind (g := fun s : ProjectionSnapshot => s.format) (u16_inverts _) ?_ fun format _ =>
      Inverts.bind (g := fun _ : ProjectionSnapshot => ()) (Inverts.ensure _ _) ?_ fun _ hformat =>
      Inverts.bind (g := fun s : ProjectionSnapshot => s.history.position) (u64_inverts _) ?_ fun position hposition =>
      Inverts.bind (g := fun s : ProjectionSnapshot => s.history.headHash) (hash_inverts _) ?_ fun headHash _ =>
      Inverts.bind (g := fun s : ProjectionSnapshot => s.schemaSetDigest) (hash_inverts _) ?_ fun schemaSetDigest _ =>
      Inverts.bind (g := fun s : ProjectionSnapshot => s.reducer.id) (string_inverts _ _) ?_ fun reducerId hreducerId =>
      Inverts.bind (g := fun s : ProjectionSnapshot => s.reducer.revision) (u64_inverts _) ?_ fun reducerRevision hreducerRevision =>
      Inverts.bind (g := fun s : ProjectionSnapshot => s.reducer.configHash) (hash_inverts _) ?_ fun reducerConfigHash _ =>
      Inverts.bind (g := fun s : ProjectionSnapshot => s.codec.id) (string_inverts _ _) ?_ fun codecId hcodecId =>
      Inverts.bind (g := fun s : ProjectionSnapshot => s.codec.revision) (u64_inverts _) ?_ fun codecRevision hcodecRevision =>
      Inverts.bind (g := fun s : ProjectionSnapshot => s.codec.configHash) (hash_inverts _) ?_ fun codecConfigHash _ =>
      Inverts.bind (g := fun s : ProjectionSnapshot => s.stateBytes.length) (u32_inverts _) ?_ fun stateLen _ =>
      Inverts.bind (g := fun _ : ProjectionSnapshot => ()) (Inverts.ensure _ _) ?_ fun _ hstateLen =>
      Inverts.bind (g := fun s : ProjectionSnapshot => s.stateBytes) (Inverts.take _ _) ?_ fun stateBytes hstateBytes =>
      Inverts.bind (g := fun s : ProjectionSnapshot => s.stateDigest) (hash_inverts _) ?_ fun stateDigest _ =>
      Inverts.bind (g := fun s : ProjectionSnapshot => s.snapshotDigest) (hash_inverts _) ?_ fun snapshotDigest _ =>
      Inverts.pure ?_ ?_
    . intro s _
      rfl
    . intro s hs
      exact beq_iff_eq.mpr hs.1.symm
    . intro s hs
      rw [hs.2.2.format]
      decide
    . intro s hs
      rw [← hs.1]
      exact beq_iff_eq.mpr hs.2.2.2.format
    . exact fun s hs => hs.2.2.2.2.position
    . exact fun s _ => trivial
    . exact fun s _ => trivial
    . exact fun s hs => hs.2.2.2.2.2.2.2.reducerId
    . exact fun s hs => hs.2.2.2.2.2.2.2.2.reducerRevision
    . exact fun s _ => trivial
    . exact fun s hs => hs.2.2.2.2.2.2.2.2.2.2.codecId
    . exact fun s hs => hs.2.2.2.2.2.2.2.2.2.2.2.codecRevision
    . exact fun s _ => trivial
    . intro s hs
      have hstate := hs.2.2.2.2.2.2.2.2.2.2.2.2.2.state
      unfold maxCanonicalStateBytes at hstate
      omega
    . intro s hs
      rw [← hs.1]
      exact decide_eq_true hs.2.2.2.2.2.2.2.2.2.2.2.2.2.2.state
    . exact fun s hs => hs.2.1
    . exact fun s _ => trivial
    . exact fun s _ => trivial
    . have hmagic : snapshotMagic = magic := (beq_iff_eq.mp hsame).symm
      refine ⟨rfl, rfl, rfl, rfl, hstateBytes, rfl, rfl, rfl, rfl, rfl, rfl, rfl, rfl, rfl, rfl, rfl, rfl, hmagic, ?_⟩
      refine ⟨beq_iff_eq.mp hformat, hposition, hreducerId, hreducerRevision, hcodecId, hcodecRevision, ?_⟩
      rw [hstateBytes]
      exact of_decide_eq_true hstateLen
    . rintro other ⟨rfl, rfl, rfl, rfl, rfl, rfl, rfl, rfl, rfl, rfl, rfl, rfl, rfl, rfl, rfl, rfl, rfl, rfl, -⟩
      rfl
  . intro s
    unfold encode
    simp only [List.nil_append, List.append_nil, List.append_assoc]

theorem length_encode (snapshot : ProjectionSnapshot)
    : (encode snapshot).length = 234 + (utf8 snapshot.reducer.id).length + (utf8 snapshot.codec.id).length
        + snapshot.stateBytes.length := by
  have hmagic : snapshotMagic.length = 8 := by decide
  unfold encode pushString
  simp only [List.length_append, beBytes_length, Hash.length_eq, hmagic]
  omega

theorem Fits.length_le {snapshot : ProjectionSnapshot} (h : snapshot.Fits)
    : (encode snapshot).length ≤ maxProjectionSnapshotBytes := by
  have hreducer := h.reducerId
  have hcodec := h.codecId
  have hstate := h.state
  rw [length_encode]
  unfold maxProjectionSnapshotBytes
  omega

structure Sealed (sha256 : Sha256) (snapshot : ProjectionSnapshot) : Prop where
  reducer : validateContractId "reducer" snapshot.reducer.id = .ok ()
  codec : validateContractId "codec" snapshot.codec.id = .ok ()
  stateDigest : snapshot.stateDigest = sha256 snapshot.stateBytes
  snapshotDigest : snapshot.snapshotDigest = sha256 snapshot.digestPreimage

theorem verifyIntegrity_ok {sha256 : Sha256} {snapshot : ProjectionSnapshot}
    : snapshot.verifyIntegrity sha256 = .ok () ↔
        snapshot.stateDigest = sha256 snapshot.stateBytes ∧ snapshot.snapshotDigest = sha256 snapshot.digestPreimage := by
  unfold verifyIntegrity
  by_cases hstate : sha256 snapshot.stateBytes = snapshot.stateDigest
  . rw [if_neg (not_not.mpr hstate)]
    by_cases hsnapshot : sha256 snapshot.digestPreimage = snapshot.snapshotDigest
    . rw [if_neg (not_not.mpr hsnapshot)]
      exact ⟨fun _ => ⟨hstate.symm, hsnapshot.symm⟩, fun _ => rfl⟩
    . rw [if_pos hsnapshot]
      exact ⟨nofun, fun h => absurd h.2.symm hsnapshot⟩
  . rw [if_pos hstate]
    exact ⟨nofun, fun h => absurd h.1.symm hstate⟩

theorem finish_ok {sha256 : Sha256} {snapshot result : ProjectionSnapshot} {remaining : Nat}
    : finish sha256 snapshot remaining = .ok result ↔ remaining = 0 ∧ result = snapshot ∧ snapshot.Sealed sha256 := by
  unfold finish
  by_cases hremaining : remaining = 0
  . rw [if_neg (not_not.mpr hremaining)]
    constructor
    . intro h
      obtain ⟨reducer, hreducer, h⟩ := Except.bind_eq_ok.mp h
      obtain ⟨codec, hcodec, h⟩ := Except.bind_eq_ok.mp h
      obtain ⟨⟨⟩, hintegrity, h⟩ := Except.bind_eq_ok.mp h
      obtain ⟨⟨⟩, hreducerId, hreducer⟩ := Except.bind_eq_ok.mp hreducer
      obtain ⟨⟨⟩, hcodecId, hcodec⟩ := Except.bind_eq_ok.mp hcodec
      cases hreducer
      cases hcodec
      cases h
      obtain ⟨hstate, hsnapshot⟩ := verifyIntegrity_ok.mp hintegrity
      exact ⟨hremaining, rfl, ⟨hreducerId, hcodecId, hstate, hsnapshot⟩⟩
    . rintro ⟨-, hsame, hsealed⟩
      rw [hsame]
      have hintegrity := verifyIntegrity_ok.mpr ⟨hsealed.stateDigest, hsealed.snapshotDigest⟩
      refine Except.bind_eq_ok.mpr ⟨snapshot.reducer, Except.bind_eq_ok.mpr ⟨(), hsealed.reducer, rfl⟩, ?_⟩
      refine Except.bind_eq_ok.mpr ⟨snapshot.codec, Except.bind_eq_ok.mpr ⟨(), hsealed.codec, rfl⟩, ?_⟩
      exact Except.bind_eq_ok.mpr ⟨(), hintegrity, rfl⟩
  . rw [if_pos hremaining]
    exact ⟨nofun, fun h => absurd h.1 hremaining⟩

theorem remaining_good {decoder : Cursor} (h : decoder.Good)
    : Decoder.remaining decoder = some decoder.rest.length := by
  unfold Decoder.remaining Cursor.rest
  rw [if_pos h.inside, List.length_drop]

theorem good_of_length {bytes : List UInt8} (h : bytes.length ≤ maxProjectionSnapshotBytes)
    : Cursor.Good ⟨bytes, 0⟩ := by
  apply Cursor.Good.start
  unfold maxProjectionSnapshotBytes maxCanonicalStateBytes maxContractIdBytes at h
  omega

theorem decode_ne_none (sha256 : Sha256) (bytes : List UInt8) : decode sha256 bytes ≠ none := by
  unfold decode
  split
  . exact Option.some_ne_none _
  . next hsize =>
    have hgood := good_of_length (Nat.le_of_not_gt hsize)
    cases hfields : fields ⟨bytes, 0⟩ with
    | none => exact absurd hfields (fields_inverts.inRange _ hgood)
    | some result =>
      cases result with
      | error error => exact Option.some_ne_none _
      | ok pair =>
        obtain ⟨-, hdecoder, -⟩ := fields_inverts.sound _ pair.1 pair.2 hgood hfields
        dsimp only
        rw [remaining_good hdecoder]
        exact Option.some_ne_none _

theorem decode_ok {sha256 : Sha256} {bytes : List UInt8} {snapshot : ProjectionSnapshot}
    : decode sha256 bytes = some (.ok snapshot) ↔
        snapshot.Fits ∧ snapshot.Sealed sha256 ∧ snapshot.encode = bytes := by
  constructor
  . intro h
    unfold decode at h
    split at h
    . cases h
    . next hsize =>
      have hgood := good_of_length (Nat.le_of_not_gt hsize)
      cases hfields : fields ⟨bytes, 0⟩ with
      | none =>
        rw [hfields] at h
        cases h
      | some result =>
        rw [hfields] at h
        cases result with
        | error error => cases h
        | ok pair =>
          obtain ⟨hfits, hdecoder, hbytes⟩ := fields_inverts.sound _ pair.1 pair.2 hgood hfields
          dsimp only at h
          rw [remaining_good hdecoder] at h
          obtain ⟨hend, rfl, hsealed⟩ := finish_ok.mp (Option.some.inj h)
          rw [List.eq_nil_of_length_eq_zero hend, List.append_nil] at hbytes
          exact ⟨hfits, hsealed, hbytes.symm⟩
  . rintro ⟨hfits, hsealed, rfl⟩
    have hsize := hfits.length_le
    obtain ⟨decoder, hok, hgood, hrest⟩ :=
      fields_inverts.complete ⟨snapshot.encode, 0⟩ snapshot [] (good_of_length hsize) hfits (List.append_nil _).symm
    unfold decode
    rw [if_neg (Nat.not_lt_of_le hsize), hok]
    dsimp only
    rw [remaining_good hgood, hrest]
    exact congrArg some (finish_ok.mpr ⟨rfl, rfl, hsealed⟩)

-- What the types of the source promise: words of 64 bits, and identities that only their constructor makes.
structure Typed (history : LogCursor) (reducer : ReducerIdentity) (codec : CodecIdentity) : Prop where
  position : history.position < 2 ^ 64
  reducerMade : ReducerIdentity.new reducer.id reducer.revision reducer.configHash = .ok reducer
  reducerRevision : reducer.revision < 2 ^ 64
  codecMade : CodecIdentity.new codec.id codec.revision codec.configHash = .ok codec
  codecRevision : codec.revision < 2 ^ 64

def Created (sha256 : Sha256) (snapshot : ProjectionSnapshot) : Prop :=
  ∃ history schemaSetDigest reducer codec stateBytes, Typed history reducer codec ∧
    create sha256 history schemaSetDigest reducer codec stateBytes = .ok snapshot

theorem length_of_valid {field value : String} (h : validateContractId field value = .ok ())
    : (utf8 value).length ≤ maxContractIdBytes := by
  unfold validateContractId at h
  split at h
  . cases h
  . split at h
    . cases h
    . next hlen => exact Nat.le_of_not_gt hlen

theorem valid_of_new {field : String} {identity : ContractIdentity}
    (h : ContractIdentity.new field identity.id identity.revision identity.configHash = .ok identity)
    : validateContractId field identity.id = .ok () := by
  obtain ⟨⟨⟩, hvalid, -⟩ := Except.bind_eq_ok.mp h
  exact hvalid

theorem Created.fits {sha256 : Sha256} {snapshot : ProjectionSnapshot} (h : Created sha256 snapshot)
    : snapshot.Fits ∧ snapshot.Sealed sha256 := by
  obtain ⟨history, schemaSetDigest, reducer, codec, stateBytes, htyped, h⟩ := h
  have hreducer := valid_of_new htyped.reducerMade
  have hcodec := valid_of_new htyped.codecMade
  unfold create at h
  split at h
  . cases h
  . next hstate =>
    cases h
    exact ⟨⟨rfl, htyped.position, length_of_valid hreducer, htyped.reducerRevision, length_of_valid hcodec,
      htyped.codecRevision, Nat.le_of_not_gt hstate⟩, ⟨hreducer, hcodec, rfl, rfl⟩⟩

theorem decode_error {sha256 : Sha256} {bytes : List UInt8}
    (h : ∀ snapshot, decode sha256 bytes ≠ some (.ok snapshot))
    : ∃ error, decode sha256 bytes = some (.error error) := by
  cases hdecode : decode sha256 bytes with
  | none => exact absurd hdecode (decode_ne_none sha256 bytes)
  | some result =>
    cases result with
    | error error => exact ⟨error, rfl⟩
    | ok snapshot => exact absurd hdecode (h snapshot)

theorem decode_end {sha256 : Sha256} {bytes more : List UInt8} {snapshot other : ProjectionSnapshot}
    (h : decode sha256 bytes = some (.ok snapshot)) (hother : decode sha256 (bytes ++ more) = some (.ok other))
    : more = [] := by
  obtain ⟨hfits, -, rfl⟩ := decode_ok.mp h
  obtain ⟨hfits', -, hbytes⟩ := decode_ok.mp hother
  have hsize := hfits'.length_le
  have hsame : snapshot.encode ++ more = other.encode ++ [] := by rw [hbytes, List.append_nil]
  have hsmall : (snapshot.encode ++ more).length < 2 ^ 64 := by
    rw [← hbytes]
    unfold maxProjectionSnapshotBytes maxCanonicalStateBytes maxContractIdBytes at hsize
    omega
  exact (fields_inverts.unique hfits hfits' hsmall hsame).2

theorem envelope_exact (sha256 : Sha256)
    : (∀ snapshot, Created sha256 snapshot →
        snapshot.encode.length ≤ maxProjectionSnapshotBytes ∧ decode sha256 snapshot.encode = some (.ok snapshot))
      ∧ (∀ bytes, decode sha256 bytes ≠ none)
      ∧ (∀ bytes snapshot, decode sha256 bytes = some (.ok snapshot) → snapshot.encode = bytes)
      ∧ (∀ bytes other snapshot, decode sha256 bytes = some (.ok snapshot) →
        decode sha256 other = some (.ok snapshot) → bytes = other)
      ∧ (∀ bytes more snapshot, more ≠ [] → decode sha256 bytes = some (.ok snapshot) →
        ∃ error, decode sha256 (bytes ++ more) = some (.error error))
      ∧ ∀ bytes more snapshot, more ≠ [] → decode sha256 (bytes ++ more) = some (.ok snapshot) →
        ∃ error, decode sha256 bytes = some (.error error) := by
  refine ⟨?_, decode_ne_none sha256, ?_, ?_, ?_, ?_⟩
  . intro snapshot hcreated
    obtain ⟨hfits, hsealed⟩ := hcreated.fits
    exact ⟨hfits.length_le, decode_ok.mpr ⟨hfits, hsealed, rfl⟩⟩
  . intro bytes snapshot h
    exact (decode_ok.mp h).2.2
  . intro bytes other snapshot h hother
    exact (decode_ok.mp h).2.2.symm.trans (decode_ok.mp hother).2.2
  . intro bytes more snapshot hmore h
    apply decode_error
    intro other hother
    exact hmore (decode_end h hother)
  . intro bytes more snapshot hmore h
    apply decode_error
    intro other hother
    exact hmore (decode_end hother h)

def sampleCreated (sha256 : Sha256) (position : Nat) : ProjectionSnapshot :=
  let snapshot : ProjectionSnapshot :=
    { format := snapshotFormatV1
      history := ⟨position, genesisHash⟩
      schemaSetDigest := genesisHash
      reducer := ⟨"tasks", 7, genesisHash⟩
      codec := ⟨"test/json", 1, genesisHash⟩
      stateBytes := utf8 "[3]"
      stateDigest := sha256 (utf8 "[3]")
      snapshotDigest := genesisHash }
  { snapshot with snapshotDigest := sha256 snapshot.digestPreimage }

theorem sampleCreated_created {sha256 : Sha256} {position : Nat} (h : position < 2 ^ 64)
    : Created sha256 (sampleCreated sha256 position) := by
  refine ⟨⟨position, genesisHash⟩, genesisHash, ⟨"tasks", 7, genesisHash⟩, ⟨"test/json", 1, genesisHash⟩, utf8 "[3]",
    ⟨h, by rfl, by decide, by rfl, by decide⟩, ?_⟩
  unfold create
  rw [if_neg (by decide)]
  rfl

theorem envelope_exact_sample
    : let snapshot := sampleCreated sha256Digest 3
      decode sha256Digest snapshot.encode = some (.ok snapshot) ∧
        ∃ error, decode sha256Digest (snapshot.encode ++ [0]) = some (.error error) := by
  obtain ⟨hround, -, -, -, hlonger, -⟩ := envelope_exact sha256Digest
  have hcreated := @sampleCreated_created sha256Digest 3 (by decide)
  have hdecoded := (hround _ hcreated).2
  exact ⟨hdecoded, hlonger _ _ _ (by decide) hdecoded⟩

end ProjectionSnapshot

namespace StateRoot

open ProjectionSnapshot

def rootPreimage (snapshot : ProjectionSnapshot) : List UInt8 :=
  utf8 "pliego-fold/state-root/1" ++ [0]
    ++ beBytes 2 snapshot.format
    ++ beBytes 8 snapshot.history.position
    ++ snapshot.history.headHash.bytes
    ++ snapshot.schemaSetDigest.bytes
    ++ pushIdentity snapshot.reducer
    ++ pushIdentity snapshot.codec
    ++ snapshot.stateDigest.bytes
    ++ snapshot.snapshotDigest.bytes

theorem fromSnapshot_eq (sha256 : Sha256) (snapshot : ProjectionSnapshot)
    : fromSnapshot sha256 snapshot = ⟨stateRootFormatV1, sha256 (rootPreimage snapshot)⟩ := rfl

theorem hash_append_inj {a b : Hash} {x y : List UInt8} (h : a.bytes ++ x = b.bytes ++ y) : a = b ∧ x = y := by
  obtain ⟨hbytes, hrest⟩ := List.append_inj h (by rw [a.length_eq, b.length_eq])
  exact ⟨Hash.ext hbytes, hrest⟩

theorem pushIdentity_append_inj {a b : ContractIdentity} {x y : List UInt8}
    (ha : (utf8 a.id).length ≤ maxContractIdBytes) (hb : (utf8 b.id).length ≤ maxContractIdBytes)
    (hrevision : a.revision < 2 ^ 64) (hrevision' : b.revision < 2 ^ 64)
    (h : pushIdentity a ++ x = pushIdentity b ++ y)
    : a = b ∧ x = y := by
  unfold maxContractIdBytes at ha hb
  unfold pushIdentity at h
  simp only [List.append_assoc] at h
  obtain ⟨hlen, h⟩ := beBytes_append_inj (by omega) (by omega) h
  obtain ⟨hid, h⟩ := List.append_inj h hlen
  obtain ⟨hnumber, h⟩ := beBytes_append_inj hrevision hrevision' h
  obtain ⟨hconfig, h⟩ := hash_append_inj h
  refine ⟨?_, h⟩
  cases a
  cases b
  cases utf8_inj hid
  cases hnumber
  cases hconfig
  rfl

-- That no two different texts among those that are hashed for the roots have the same hash.
structure CollisionFree (sha256 : Sha256) (a b : ProjectionSnapshot) : Prop where
  root : sha256 (rootPreimage a) = sha256 (rootPreimage b) → rootPreimage a = rootPreimage b
  state : sha256 a.stateBytes = sha256 b.stateBytes → a.stateBytes = b.stateBytes

theorem rootPreimage_inj {a b : ProjectionSnapshot} (ha : a.Fits) (hb : b.Fits)
    (h : rootPreimage a = rootPreimage b)
    : a.history = b.history ∧ a.schemaSetDigest = b.schemaSetDigest ∧ a.reducer = b.reducer ∧ a.codec = b.codec ∧
      a.stateDigest = b.stateDigest ∧ a.snapshotDigest = b.snapshotDigest := by
  unfold rootPreimage at h
  simp only [List.append_assoc] at h
  obtain ⟨-, h⟩ := List.append_inj h rfl
  obtain ⟨-, h⟩ := List.append_inj h rfl
  rw [ha.format, hb.format] at h
  obtain ⟨-, h⟩ := List.append_inj h rfl
  obtain ⟨hposition, h⟩ := beBytes_append_inj ha.position hb.position h
  obtain ⟨hhead, h⟩ := hash_append_inj h
  obtain ⟨hschema, h⟩ := hash_append_inj h
  obtain ⟨hreducer, h⟩ :=
    pushIdentity_append_inj ha.reducerId hb.reducerId ha.reducerRevision hb.reducerRevision h
  obtain ⟨hcodec, h⟩ := pushIdentity_append_inj ha.codecId hb.codecId ha.codecRevision hb.codecRevision h
  obtain ⟨hstate, h⟩ := hash_append_inj h
  exact ⟨congrArg₂ LogCursor.mk hposition hhead, hschema, hreducer, hcodec, hstate, Hash.ext h⟩

theorem root_binds_snapshot (sha256 : Sha256) (a b : ProjectionSnapshot) (ha : Created sha256 a)
    (hb : Created sha256 b) (hsha : CollisionFree sha256 a b)
    : fromSnapshot sha256 a = fromSnapshot sha256 b ↔
        a.history.position = b.history.position ∧ a.history.headHash = b.history.headHash ∧
        a.schemaSetDigest = b.schemaSetDigest ∧
        a.reducer.id = b.reducer.id ∧ a.reducer.revision = b.reducer.revision ∧
        a.reducer.configHash = b.reducer.configHash ∧
        a.codec.id = b.codec.id ∧ a.codec.revision = b.codec.revision ∧ a.codec.configHash = b.codec.configHash ∧
        a.stateBytes = b.stateBytes := by
  obtain ⟨hfits, hsealed⟩ := ha.fits
  obtain ⟨hfits', hsealed'⟩ := hb.fits
  constructor
  . intro h
    rw [fromSnapshot_eq, fromSnapshot_eq] at h
    obtain ⟨hhistory, hschema, hreducer, hcodec, hstate, -⟩ :=
      rootPreimage_inj hfits hfits' (hsha.root (congrArg StateRoot.digest h))
    rw [hsealed.stateDigest, hsealed'.stateDigest] at hstate
    rw [hhistory, hreducer, hcodec]
    exact ⟨rfl, rfl, hschema, rfl, rfl, rfl, rfl, rfl, rfl, hsha.state hstate⟩
  . rintro ⟨hposition, hhead, hschema, hid, hrevision, hconfig, hid', hrevision', hconfig', hbytes⟩
    have hsame : a = b := by
      have hformat := hfits.format.trans hfits'.format.symm
      have hstate := (hsealed.stateDigest.trans (congrArg sha256 hbytes)).trans hsealed'.stateDigest.symm
      have hdigest := hsealed.snapshotDigest
      have hdigest' := hsealed'.snapshotDigest
      obtain ⟨format, ⟨position, head⟩, schema, ⟨id, revision, config⟩, ⟨id', revision', config'⟩, bytes, state, digest⟩ := a
      obtain ⟨_, ⟨_, _⟩, _, ⟨_, _, _⟩, ⟨_, _, _⟩, _, _, _⟩ := b
      dsimp only at *
      subst hposition hhead hschema hid hrevision hconfig hid' hrevision' hconfig' hbytes hformat hstate
      have hpreimage := hdigest.trans hdigest'.symm
      rw [hpreimage]
    rw [hsame]

theorem root_binds_snapshot_positions
    : fromSnapshot sha256Digest (sampleCreated sha256Digest 3) ≠ fromSnapshot sha256Digest (sampleCreated sha256Digest 4) := by
  have hroots : sha256Digest (rootPreimage (sampleCreated sha256Digest 3))
      ≠ sha256Digest (rootPreimage (sampleCreated sha256Digest 4)) := by
    decide +kernel
  have hbinds := root_binds_snapshot sha256Digest (sampleCreated sha256Digest 3) (sampleCreated sha256Digest 4)
    (sampleCreated_created (by decide)) (sampleCreated_created (by decide))
    ⟨fun hroot => absurd hroot hroots, fun _ => rfl⟩
  intro hsame
  have hpositions := (hbinds.mp hsame).1
  cases hpositions

end StateRoot

end Fold

end Pliego
