import Pliego.Log.Basic
import Pliego.Lib.Fields

/-!
The wire values of `pliego-hyphae` and their validation. `isJson` stands for a successful
`serde_json::from_str::<Value>`, which comes from an external crate.
-/

namespace Pliego

open Bytes

namespace Hyphae

def protocolV2 : String := "pliego-hyphae/2"

def receiptDomain : String := "pliego-hyphae/2/receipt"

def pageDomain : String := "pliego-hyphae/2/page"

def appendDomain : String := "pliego-hyphae/2/append"

def maxBatchEvents : Nat := 128

def maxEventPayloadBytes : Nat := 64 * 1024

def maxBatchPayloadBytes : Nat := 512 * 1024

def maxCausalParents : Nat := 16

def maxPullEvents : Nat := 256

def emptyStreamHash : String :=
  "0000000000000000000000000000000000000000000000000000000000000000"

structure ValidationError where
  field : String
  reason : String
  deriving DecidableEq, Repr

def ensure (condition : Bool) (field reason : String) : Except ValidationError Unit :=
  if condition then .ok () else .error ⟨field, reason⟩

@[simp]
theorem ensure_eq_ok {condition : Bool} {field reason : String}
    : ensure condition field reason = .ok () ↔ condition = true := by
  unfold ensure
  split <;> simp_all

def ensureProtocol (protocol : String) : Except ValidationError Unit :=
  ensure (protocol == protocolV2) "protocol" "unsupported version"

def isHexDigit (byte : UInt8) : Bool := isAsciiDigit byte || (97 ≤ byte && byte ≤ 102)

def isHexHash (value : String) : Bool :=
  (utf8 value).length == 64 && (utf8 value).all isHexDigit

def validateHash (value : String) : Except ValidationError Unit :=
  ensure (isHexHash value) "hash" "expected 64 lowercase hexadecimal characters"

def validateUuidV7 (field value : String) : Except ValidationError Unit :=
  let bytes := utf8 value
  let shape := bytes.length == 36
    && bytes.zipIdx.all (fun (byte, index) =>
      if [8, 13, 18, 23].contains index then byte == 45 else isHexDigit byte)
  let variants : List (Option UInt8) := [some 56, some 57, some 97, some 98]
  ensure (shape && bytes[14]? == some 55 && variants.contains bytes[19]?)
    field "expected canonical lowercase UUIDv7"

def validateClientEventId (value : String) : Except ValidationError Unit :=
  validateUuidV7 "client_event_id" value

def validateBatchId (value : String) : Except ValidationError Unit :=
  validateUuidV7 "batch_id" value

def validateStreamId (value : String) : Except ValidationError Unit :=
  let bytes := utf8 value
  ensure (!bytes.isEmpty && bytes.length ≤ 128
      && bytes.all (fun byte => isAsciiAlphanumeric byte || (utf8 "-_.:/").contains byte)
      && bytes.head? != some 47
      && bytes.getLast? != some 47
      && (bytes.splitOn 47).all
        (fun segment => !segment.isEmpty && segment != utf8 "." && segment != utf8 ".."))
    "stream_id" "expected 1..128 safe ASCII characters without traversal segments"

def isSafeToken (value : String) : Bool :=
  let bytes := utf8 value
  1 ≤ bytes.length && bytes.length ≤ 96
    && bytes.all (fun byte => isAsciiAlphanumeric byte || (utf8 "-_.:").contains byte)

def validateAuthorityId (value : String) : Except ValidationError Unit :=
  ensure (isSafeToken value) "authority_id" "expected a safe ASCII authority token"

def validateKeyId (value : String) : Except ValidationError Unit :=
  ensure (isSafeToken value) "key_id" "expected a safe ASCII token"

def validateKind (value : String) : Except ValidationError Unit :=
  let bytes := utf8 value
  -- without the prefix, the suffix is empty
  let suffix := if bytes.take 4 = utf8 "app_" then bytes.drop 4 else []
  ensure (!suffix.isEmpty && bytes.length ≤ 96
      && suffix.head? != some 95
      && suffix.getLast? != some 95
      && suffix.all (fun byte => isAsciiLowercase byte || isAsciiDigit byte || byte == 95))
    "kind" "expected app_ followed by lowercase ASCII letters, digits, or underscores"

def parseDigits (bytes : List UInt8) (start length : Nat) : Option Nat :=
  let digits := (bytes.drop start).take length
  if digits.length = length && digits.all isAsciiDigit then
    some (digits.foldl (fun value byte => value * 10 + (byte.toNat - 48)) 0)
  else
    none

def digitsOr (bytes : List UInt8) (start length : Nat) (reason : String)
    : Except ValidationError Nat :=
  match parseDigits bytes start length with
  | none => .error ⟨"timestamp", reason⟩
  | some value => .ok value

def maxDay (year month : Nat) : Nat :=
  let leapYear := year % 4 == 0 && (year % 100 != 0 || year % 400 == 0)
  if [1, 3, 5, 7, 8, 10, 12].contains month then 31
  else if [4, 6, 9, 11].contains month then 30
  else if month == 2 then if leapYear then 29 else 28
  else 0

def validZone (bytes : List UInt8) (zone : Nat) : Bool :=
  match bytes[zone]? with
  | some 90 | some 122 => zone + 1 == bytes.length
  | some 43 | some 45 =>
    zone + 6 == bytes.length && bytes[zone + 3]? == some 58
      && (parseDigits bytes (zone + 1) 2).any (· ≤ 23)
      && (parseDigits bytes (zone + 4) 2).any (· ≤ 59)
  | _ => false

def validateTimestamp (value : String) : Except ValidationError Unit := do
  let bytes := utf8 value
  ensure (20 ≤ bytes.length && bytes.length ≤ 64
      && bytes.all (· < 128)
      && bytes[4]? == some 45
      && bytes[7]? == some 45
      && (bytes[10]? == some 84 || bytes[10]? == some 116)
      && bytes[13]? == some 58
      && bytes[16]? == some 58)
    "timestamp" "expected a valid bounded RFC3339 timestamp"
  let year ← digitsOr bytes 0 4 "invalid RFC3339 year"
  let month ← digitsOr bytes 5 2 "invalid RFC3339 month"
  let day ← digitsOr bytes 8 2 "invalid RFC3339 day"
  let hour ← digitsOr bytes 11 2 "invalid RFC3339 hour"
  let minute ← digitsOr bytes 14 2 "invalid RFC3339 minute"
  let second ← digitsOr bytes 17 2 "invalid RFC3339 second"
  let plausibleLeapSecond := second == 60 && hour == 23 && minute == 59
    && ((month == 6 && day == 30) || (month == 12 && day == 31))
  ensure (!(day == 0 || day > maxDay year month || hour > 23 || minute > 59
      || (second > 59 && !plausibleLeapSecond)))
    "timestamp" "RFC3339 date or time component is out of range"
  let fraction := ((bytes.drop 20).takeWhile isAsciiDigit).length
  ensure (bytes[19]? != some 46 || fraction != 0)
    "timestamp" "RFC3339 fractional seconds cannot be empty"
  ensure (validZone bytes (if bytes[19]? = some 46 then 20 + fraction else 19))
    "timestamp" "expected a valid bounded RFC3339 timestamp"

def validateSignature (value : String) : Except ValidationError Unit :=
  let bytes := utf8 value
  let core := bytes.rdropWhile (· == 61)
  let paddingIsCanonical :=
    match bytes.length - core.length with
    | 0 => core.length % 4 != 1
    | 1 => core.length % 4 == 3 && bytes.length % 4 == 0
    | 2 => core.length % 4 == 2 && bytes.length % 4 == 0
    | _ => false
  ensure (16 ≤ bytes.length && bytes.length ≤ 512 && paddingIsCanonical
      && core.all (fun byte => isAsciiAlphanumeric byte || byte == 45 || byte == 95))
    "signature" "expected bounded base64url data"

def checkedAdd (a b : UInt64) : Option UInt64 :=
  if a.toNat + b.toNat < 2 ^ 64 then some (a + b) else none

theorem checkedAdd_eq_some {a b c : UInt64}
    : checkedAdd a b = some c ↔ c.toNat = a.toNat + b.toNat := by
  unfold checkedAdd
  have hc := c.toNat_lt
  split
  . next hlt =>
    rw [Option.some.injEq, ← UInt64.toNat_inj, UInt64.toNat_add, Nat.mod_eq_of_lt hlt]
    exact eq_comm
  . simp only [reduceCtorEq, false_iff]
    omega

def tryFrom (length : Nat) : Option UInt64 :=
  if length < 2 ^ 64 then some (UInt64.ofNat length) else none

theorem tryFrom_eq_some {length : Nat} {n : UInt64}
    : tryFrom length = some n ↔ n.toNat = length := by
  unfold tryFrom
  have hn := n.toNat_lt
  split
  . next hlt =>
    rw [Option.some.injEq, ← UInt64.toNat_inj, UInt64.toNat_ofNat', Nat.mod_eq_of_lt hlt]
    exact eq_comm
  . simp only [reduceCtorEq, false_iff]
    omega

def orError {α : Type} (value : Option α) (field reason : String) : Except ValidationError α :=
  match value with
  | none => .error ⟨field, reason⟩
  | some value => .ok value

@[simp]
theorem orError_eq_ok {α : Type} {value : Option α} {field reason : String} {a : α}
    : orError value field reason = .ok a ↔ value = some a := by
  unfold orError
  split <;> simp

@[ext]
structure StreamCursor where
  position : UInt64
  headHash : String
  deriving DecidableEq

namespace StreamCursor

def genesis : StreamCursor := ⟨0, emptyStreamHash⟩

def validate (cursor : StreamCursor) : Except ValidationError Unit := do
  validateHash cursor.headHash
  ensure ((cursor.position == 0) == (cursor.headHash == emptyStreamHash))
    "cursor" "position zero and the empty-stream hash must occur together"

end StreamCursor

structure EventEnvelope where
  protocol : String
  clientEventId : String
  streamId : String
  schemaVersion : UInt32
  kind : String
  payload : String
  localSeq : UInt64
  localPrevHash : String
  localHash : String
  causalParents : List String
  createdAt : String
  deriving DecidableEq

def hex (hash : Hash) : String := encodeHex hash.bytes

theorem validateHash_hex (hash : Hash) : validateHash (hex hash) = .ok () := by
  have hdigit : ∀ n : Fin 16, (String.utf8EncodeChar (hexDigit n)).all isHexDigit = true := by
    decide
  unfold validateHash isHexHash
  rw [ensure_eq_ok, Bool.and_eq_true, beq_iff_eq]
  constructor
  . unfold hex
    rw [length_encodeHex, hash.length_eq]
  . unfold hex encodeHex
    rw [utf8_ofList, List.all_flatMap, List.all_flatMap, List.all_eq_true]
    intro byte _
    have hlt := byte.toNat_lt
    simp only [List.all_cons, List.all_nil, Bool.and_true, Bool.and_eq_true]
    exact ⟨hdigit ⟨byte.toNat / 16, by omega⟩, hdigit ⟨byte.toNat % 16, by omega⟩⟩

def hashField (value : String) : Except ValidationError (List UInt8) :=
  sized 4 ⟨"envelope", "field length overflow"⟩ (utf8 value)

namespace EventEnvelope

variable (isJson : String → Bool)

def validateParents (clientEventId : String) (seen : List String) (parents : List String)
    : Except ValidationError Unit :=
  match parents with
  | [] => .ok ()
  | parent :: rest => do
    validateClientEventId parent
    ensure (parent != clientEventId && !seen.contains parent)
      "causal_parents" "self-reference or duplicate parent"
    validateParents clientEventId (parent :: seen) rest

def validate (envelope : EventEnvelope) : Except ValidationError Unit := do
  ensureProtocol envelope.protocol
  validateClientEventId envelope.clientEventId
  validateStreamId envelope.streamId
  ensure (envelope.schemaVersion != 0) "schema_version" "must be greater than zero"
  validateKind envelope.kind
  ensure ((utf8 envelope.payload).length ≤ maxEventPayloadBytes) "payload" "event limit exceeded"
  ensure (isJson envelope.payload) "payload" "expected valid JSON"
  validateHash envelope.localPrevHash
  validateHash envelope.localHash
  ensure (envelope.causalParents.length ≤ maxCausalParents)
    "causal_parents" "parent limit exceeded"
  validateParents envelope.clientEventId [] envelope.causalParents
  validateTimestamp envelope.createdAt

-- Nothing is returned when `as_str` panics.
def fromLocalEvent (event : Event) (clientEventId streamId createdAt : String)
    : Option (Except ValidationError EventEnvelope) :=
  event.payload.asStr.map (fun payload => do
    let envelope : EventEnvelope :=
      { protocol := protocolV2
        clientEventId := clientEventId
        streamId := streamId
        schemaVersion := UInt32.ofNat event.schemaVersion
        kind := event.kind
        payload := payload
        localSeq := UInt64.ofNat event.seq
        localPrevHash := hex event.prevHash
        localHash := hex event.hash
        causalParents := []
        createdAt := createdAt }
    envelope.validate isJson
    .ok envelope)

def wirePreimage (envelope : EventEnvelope) : Except ValidationError (List UInt8) := do
  envelope.validate isJson
  let identity ← writeAll hashField [envelope.protocol, envelope.clientEventId, envelope.streamId]
  let content ← writeAll hashField [envelope.kind, envelope.payload]
  let chain ← writeAll hashField [envelope.localPrevHash, envelope.localHash]
  ensure (envelope.causalParents.length < 2 ^ 32) "causal_parents" "count overflow"
  let parents ← writeAll hashField envelope.causalParents
  let created ← hashField envelope.createdAt
  .ok (identity ++ (beBytes 4 envelope.schemaVersion.toNat ++ (content
    ++ (beBytes 8 envelope.localSeq.toNat ++ (chain
    ++ (beBytes 4 envelope.causalParents.length ++ (parents ++ created)))))))

def wireHash (sha256 : Sha256) (envelope : EventEnvelope) : Except ValidationError String := do
  let preimage ← envelope.wirePreimage isJson
  .ok (hex (sha256 preimage))

end EventEnvelope

end Hyphae

end Pliego
