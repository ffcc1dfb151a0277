import Pliego.Lib.Hex
import Pliego.Lib.Sha2

/-!
The hash-chained application event log of `pliego-log`: events, cursors, appending, importing and
verification. SHA-256 comes from an external crate and is a parameter of the hashing functions.
-/

namespace Pliego

open Bytes

def maxJsonBytes : Nat := 256 * 1024

def maxKindBytes : Nat := 128

def maxContractIdBytes : Nat := 256

def maxSchemaVersion : Nat := 4096

@[ext]
structure Hash where
  bytes : List UInt8
  length_eq : bytes.length = 32
  deriving DecidableEq

abbrev Sha256 := List UInt8 → Hash

def sha256Digest : Sha256 := fun bytes => ⟨Sha2.digest bytes, Sha2.digest_length bytes⟩

def genesisHash : Hash where
  bytes := List.replicate 32 0
  length_eq := rfl

/--
Bounded canonical JSON bytes. `CanonicalJson::parse`, the only way to obtain one, refuses an output
above the byte limit.
-/
@[ext]
structure CanonicalJson where
  bytes : List UInt8
  length_le : bytes.length ≤ maxJsonBytes
  deriving DecidableEq

-- No text: `as_str` panics on bytes that are not UTF-8.
def CanonicalJson.asStr (json : CanonicalJson) : Option String :=
  String.fromUTF8? ⟨json.bytes.toArray⟩

inductive CanonicalJsonError where
  | tooLarge (actual limit : Nat)
  | duplicateKey (key : String)
  | tooDeep (actual limit : Nat)
  | tooManyNodes (actual limit : Nat)
  | invalid (reason : String)
  deriving DecidableEq, Repr

@[ext]
structure Event where
  seq : Nat
  kind : String
  schemaVersion : Nat
  payload : CanonicalJson
  prevHash : Hash
  hash : Hash
  deriving DecidableEq

structure RawEvent where
  seq : Nat
  kind : String
  schemaVersion : Nat
  payloadJson : List UInt8
  prevHash : Hash
  hash : Hash
  deriving DecidableEq

structure LogCursor where
  position : Nat
  headHash : Hash
  deriving DecidableEq

inductive LogError where
  | invalidKind (reason : String)
  | invalidSchemaVersion
  | invalidSchemaId (reason : String)
  | invalidPayload (error : CanonicalJsonError)
  | typedPayloadDecode (error : CanonicalJsonError)
  | typedPayloadMismatch
  | sequenceOverflow
  | tamperedAt (seq : Nat)
  deriving DecidableEq, Repr

inductive CursorError where
  | outOfBounds (position len : Nat)
  | headMismatch (position : Nat)
  deriving DecidableEq, Repr

structure Log where
  events : List Event
  deriving DecidableEq

def isAsciiLowercase (byte : UInt8) : Bool := 97 ≤ byte && byte ≤ 122

def isAsciiUppercase (byte : UInt8) : Bool := 65 ≤ byte && byte ≤ 90

def isAsciiDigit (byte : UInt8) : Bool := 48 ≤ byte && byte ≤ 57

def isAsciiAlphanumeric (byte : UInt8) : Bool :=
  isAsciiLowercase byte || isAsciiUppercase byte || isAsciiDigit byte

def validateKind (kind : String) : Except String Unit :=
  let bytes := utf8 kind
  if !(5 ≤ bytes.length && bytes.length ≤ maxKindBytes) then
    .error "length must be between 5 and 128 bytes"
  else if bytes.take 4 ≠ utf8 "app_" then
    .error "must begin with `app_`"
  else
    let suffix := bytes.drop 4
    if suffix.isEmpty
        || !suffix.all (fun byte => isAsciiLowercase byte || isAsciiDigit byte || byte == 95) then
      .error "suffix must contain only lowercase ASCII, digits, or `_`"
    else
      .ok ()

def validateContractId (value : String) : Except String Unit :=
  let bytes := utf8 value
  if bytes.isEmpty || maxContractIdBytes < bytes.length then
    .error "length must be between 1 and 256 bytes"
  else if !bytes.all (fun byte => isAsciiAlphanumeric byte || (utf8 "-_./:+").contains byte) then
    .error "contains a non-portable character"
  else
    .ok ()

def validVersion (version : Nat) : Bool :=
  1 ≤ version && version ≤ maxSchemaVersion

def seqOfLen (len : Nat) : Except LogError Nat :=
  if len < 2 ^ 64 then .ok len else .error .sequenceOverflow

def eventPreimage (event : Event) : List UInt8 :=
  utf8 "pliego-log/2" ++ (beBytes 8 event.seq ++ (event.prevHash.bytes
    ++ (lenPrefixed (utf8 event.kind) ++ (beBytes 4 event.schemaVersion
    ++ lenPrefixed event.payload.bytes))))

def eventHash (sha256 : Sha256) (event : Event) : Hash :=
  sha256 (eventPreimage event)

/--
A payload type with its schema identity. `serialize` stands for `CanonicalJson::from_serialize`,
`deserialize` for `CanonicalJson::decode`, and `eq` for its `PartialEq`.
-/
structure EventSchema (T : Type) where
  kind : String
  version : Nat
  schemaId : String
  serialize : T → Except CanonicalJsonError CanonicalJson
  deserialize : CanonicalJson → Except CanonicalJsonError T
  eq : T → T → Bool

def validateSchema (schema : EventSchema T) : Except LogError Unit :=
  match validateKind schema.kind with
  | .error reason => .error (.invalidKind reason)
  | .ok () =>
    if !validVersion schema.version then
      .error .invalidSchemaVersion
    else
      match validateContractId schema.schemaId with
      | .error reason => .error (.invalidSchemaId reason)
      | .ok () => .ok ()

namespace Log

def new : Log := ⟨[]⟩

def len (log : Log) : Nat := log.events.length

def head (log : Log) : Hash :=
  match log.events.getLast? with
  | none => genesisHash
  | some event => event.hash

def cursor (log : Log) : LogCursor :=
  ⟨log.len, log.head⟩

def get (log : Log) (seq : Nat) : Option Event :=
  log.events[seq]?

def appendCanonical (sha256 : Sha256) (log : Log) (kind : String) (schemaVersion : Nat)
    (payload : CanonicalJson) : Except LogError Log :=
  match validateKind kind with
  | .error reason => .error (.invalidKind reason)
  | .ok () =>
    if !validVersion schemaVersion then
      .error .invalidSchemaVersion
    else
      match seqOfLen log.events.length with
      | .error error => .error error
      | .ok seq =>
        let event : Event :=
          {
            seq := seq
            kind := kind
            schemaVersion := schemaVersion
            payload := payload
            prevHash := log.head
            hash := genesisHash
          }
        .ok ⟨log.events ++ [{ event with hash := eventHash sha256 event }]⟩

def appendTyped (sha256 : Sha256) (log : Log) (schema : EventSchema T) (payload : T)
    : Except LogError Log :=
  match validateSchema schema with
  | .error error => .error error
  | .ok () =>
    match schema.serialize payload with
    | .error error => .error (.invalidPayload error)
    | .ok canonical =>
      match schema.deserialize canonical with
      | .error error => .error (.typedPayloadDecode error)
      | .ok decoded =>
        if !schema.eq decoded payload then
          .error .typedPayloadMismatch
        else
          log.appendCanonical sha256 schema.kind schema.version canonical

def importRaw (sha256 : Sha256) (parse : List UInt8 → Except CanonicalJsonError CanonicalJson)
    (events : List RawEvent) : Except LogError Log :=
  go [] genesisHash events
where
  go (admitted : List Event) (previous : Hash) (events : List RawEvent) : Except LogError Log :=
    match events with
    | [] => .ok ⟨admitted⟩
    | raw :: rest =>
      match validateKind raw.kind with
      | .error reason => .error (.invalidKind reason)
      | .ok () =>
        if !validVersion raw.schemaVersion then
          .error .invalidSchemaVersion
        else
          match seqOfLen admitted.length with
          | .error error => .error error
          | .ok expectedSeq =>
            if raw.seq ≠ expectedSeq || raw.prevHash ≠ previous then
              .error (.tamperedAt expectedSeq)
            else
              match parse raw.payloadJson with
              | .error error => .error (.invalidPayload error)
              | .ok payload =>
                let event : Event :=
                  {
                    seq := raw.seq
                    kind := raw.kind
                    schemaVersion := raw.schemaVersion
                    payload := payload
                    prevHash := raw.prevHash
                    hash := raw.hash
                  }
                if event.hash ≠ eventHash sha256 event then
                  .error (.tamperedAt expectedSeq)
                else
                  go (admitted ++ [event]) event.hash rest

def cursorAt (log : Log) (position : Nat) : Except CursorError LogCursor :=
  if position > log.len then
    .error (.outOfBounds position log.len)
  else
    match position with
    | 0 => .ok ⟨0, genesisHash⟩
    | index + 1 =>
      match log.get index with
      -- the bound check above leaves an event before every positive position
      | none => .error (.outOfBounds position log.len)
      | some event => .ok ⟨index + 1, event.hash⟩

def tail (log : Log) (cursor : LogCursor) : Except CursorError (List Event) :=
  match log.cursorAt cursor.position with
  | .error error => .error error
  | .ok expected =>
    if expected.headHash ≠ cursor.headHash then
      .error (.headMismatch cursor.position)
    else
      .ok (log.events.drop cursor.position)

def verify (sha256 : Sha256) (log : Log) : Except LogError Unit :=
  go 0 genesisHash log.events
where
  go (index : Nat) (previous : Hash) (events : List Event) : Except LogError Unit :=
    match events with
    | [] => .ok ()
    | event :: rest =>
      match seqOfLen index with
      | .error error => .error error
      | .ok expectedSeq =>
        if event.seq ≠ expectedSeq
            || !(validateKind event.kind).isOk
            || !validVersion event.schemaVersion
            || event.prevHash ≠ previous
            || event.hash ≠ eventHash sha256 event then
          .error (.tamperedAt expectedSeq)
        else
          go (index + 1) event.hash rest

end Log

end Pliego
