import Pliego.Hyphae.Wire

/-!
Receipts, append responses and pull pages: what is validated of them, the bytes that are signed for them,
and their verification.
-/

namespace Pliego

open Bytes

namespace Hyphae

structure AuthorityId where
  text : String
  valid : validateAuthorityId text = .ok ()
  deriving DecidableEq

def hyphaeAuthority : AuthorityId := ⟨"hyphae", by decide⟩

def hashBytes (value : List UInt8) : Except ValidationError (List UInt8) :=
  sized 4 ⟨"signature_payload", "field length overflow"⟩ value

def appendField (value : String) : Except ValidationError (List UInt8) :=
  sized 4 ⟨"signature_payload", "field length overflow"⟩ (utf8 value)

def appendCursor (cursor : StreamCursor) : Except ValidationError (List UInt8) := do
  cursor.validate
  let head ← appendField cursor.headHash
  .ok (beBytes 8 cursor.position.toNat ++ head)

@[ext]
structure AppendBatch where
  protocol : String
  batchId : String
  streamId : String
  expectedCursor : StreamCursor
  events : List EventEnvelope
  deriving DecidableEq

namespace AppendBatch

variable (isJson : String → Bool)

def validateLink (previous : Option EventEnvelope) (event : EventEnvelope)
    : Except ValidationError Unit :=
  match previous with
  | none => .ok ()
  | some prior => do
    let expectedSeq ← orError (checkedAdd prior.localSeq 1) "local_seq" "sequence number overflow"
    ensure (event.localSeq == expectedSeq && event.localPrevHash == prior.localHash)
      "events" "local sequence or hash link is not contiguous"

def validateEvents (streamId : String) (totalPayload : Nat) (ids : List String)
    (previous : Option EventEnvelope) (events : List EventEnvelope)
    : Except ValidationError Unit :=
  match events with
  | [] => .ok ()
  | event :: rest => do
    event.validate isJson
    ensure (event.streamId == streamId) "stream_id" "event and batch streams differ"
    ensure (!ids.contains event.clientEventId) "client_event_id" "duplicate inside batch"
    let total := totalPayload + (utf8 event.payload).length
    ensure (total < 2 ^ 64) "payload" "batch size overflow"
    ensure (total ≤ maxBatchPayloadBytes) "payload" "aggregate batch limit exceeded"
    validateLink previous event
    validateEvents streamId total (event.clientEventId :: ids) (some event) rest

def validate (batch : AppendBatch) : Except ValidationError Unit := do
  ensureProtocol batch.protocol
  validateBatchId batch.batchId
  validateStreamId batch.streamId
  batch.expectedCursor.validate
  ensure (!batch.events.isEmpty && batch.events.length ≤ maxBatchEvents)
    "events" "batch must contain 1..128 events"
  validateEvents isJson batch.streamId 0 [] none batch.events

end AppendBatch

structure Receipt where
  clientEventId : String
  streamId : String
  envelopeHash : String
  serverSeq : UInt64
  serverHash : String
  serverPrevHash : String
  journalHead : String
  committedAt : String
  keyId : String
  signature : String
  deriving DecidableEq

namespace Receipt

def validateShape (receipt : Receipt) : Except ValidationError Unit := do
  validateClientEventId receipt.clientEventId
  validateStreamId receipt.streamId
  validateHash receipt.envelopeHash
  ensure (receipt.serverSeq != 0) "server_seq" "must be one-based"
  validateHash receipt.serverHash
  validateHash receipt.serverPrevHash
  validateHash receipt.journalHead
  ensure (!(receipt.serverHash == emptyStreamHash || receipt.serverHash == receipt.serverPrevHash))
    "server_hash" "durable entry hash must advance from a non-entry sentinel"
  ensure (!(receipt.journalHead == emptyStreamHash
      || receipt.journalHead == receipt.serverPrevHash))
    "journal_head" "durable journal head must include the accepted entry"
  validateTimestamp receipt.committedAt
  validateKeyId receipt.keyId
  validateSignature receipt.signature

theorem validateShape_of_hash {receipt : Receipt} {hash : String}
    (h : { receipt with envelopeHash := hash }.validateShape = .ok ())
    (hhash : validateHash receipt.envelopeHash = .ok ())
    : receipt.validateShape = .ok () := by
  unfold validateShape at h ⊢
  obtain ⟨⟨⟩, hid, h⟩ := Except.bind_eq_ok.mp h
  obtain ⟨⟨⟩, hstream, h⟩ := Except.bind_eq_ok.mp h
  obtain ⟨⟨⟩, -, h⟩ := Except.bind_eq_ok.mp h
  rw [hid, hstream, hhash]
  exact h

def signingPayload (receipt : Receipt) : Except ValidationError (List UInt8) := do
  receipt.validateShape
  let identity ← writeAll appendField
    [receiptDomain, protocolV2, receipt.clientEventId, receipt.streamId, receipt.envelopeHash]
  let entry ← writeAll appendField
    [receipt.serverHash, receipt.serverPrevHash, receipt.journalHead, receipt.committedAt,
      receipt.keyId]
  .ok (identity ++ (beBytes 8 receipt.serverSeq.toNat ++ entry))

end Receipt

inductive SignaturePurpose where
  | receipt
  | appendAttestation
  | pageAttestation
  deriving DecidableEq, Repr

structure VerificationContext where
  purpose : SignaturePurpose
  claimedAuthority : Option AuthorityId
  streamId : String
  signedAt : String
  keyId : String

inductive VerificationError where
  | unknownKey
  | revokedKey
  | unauthorizedStream
  | invalidSignature
  | unavailable (message : String)
  | authorityMismatch
  deriving DecidableEq, Repr

abbrev ReceiptVerifier :=
  VerificationContext → List UInt8 → String → Except VerificationError AuthorityId

def verifyAs (verifier : ReceiptVerifier) (context : VerificationContext) (payload : List UInt8)
    (signature : String) : Except VerificationError AuthorityId := do
  let authority ← verifier context payload signature
  if context.claimedAuthority.any (· ≠ authority) then
    .error .authorityMismatch
  else
    .ok authority

structure EventVersionError where
  kind : String
  schemaVersion : UInt32
  reason : String
  deriving DecidableEq, Repr

inductive TransportError where
  | retryable (message : String)
  | cursorConflict (expected actual : StreamCursor)
  | rejected (message : String)
  deriving DecidableEq

inductive SyncError where
  | validation (error : ValidationError)
  | transport (error : TransportError)
  | verification (error : VerificationError)
  | eventVersion (error : EventVersionError)
  | attemptsExhausted
  | reducer (message : String)
  deriving DecidableEq

def Receipt.verify (verifier : ReceiptVerifier) (authority : AuthorityId) (receipt : Receipt)
    : Except SyncError Unit := do
  let payload ← receipt.signingPayload.mapError .validation
  let receiptAuthority ← (verifyAs verifier
    { purpose := .receipt
      claimedAuthority := some authority
      streamId := receipt.streamId
      signedAt := receipt.committedAt
      keyId := receipt.keyId }
    payload receipt.signature).mapError .verification
  if receiptAuthority ≠ authority then
    .error (.verification .authorityMismatch)
  else
    .ok ()

structure AcceptedEvent where
  envelope : EventEnvelope
  receipt : Receipt
  deriving DecidableEq

section

variable (isJson : String → Bool) (sha256 : Sha256)

def AcceptedEvent.hashed (accepted : AcceptedEvent) : Except ValidationError (List UInt8) := do
  let wireHash ← accepted.envelope.wireHash isJson sha256
  let envelope ← hashField wireHash
  let payload ← accepted.receipt.signingPayload
  let receipt ← hashBytes payload
  let signature ← hashField accepted.receipt.signature
  .ok (envelope ++ (receipt ++ signature))

def acceptedEventsPreimage (events : List AcceptedEvent) : Except ValidationError (List UInt8) := do
  let domain ← hashField "pliego-hyphae/2/accepted-events"
  let count ← orError (tryFrom events.length) "events" "count overflow"
  let accepted ← writeAll (AcceptedEvent.hashed isJson sha256) events
  .ok (domain ++ (beBytes 8 count.toNat ++ accepted))

def acceptedEventsHash (events : List AcceptedEvent) : Except ValidationError String := do
  let preimage ← acceptedEventsPreimage isJson sha256 events
  .ok (hex (sha256 preimage))

def pair (events : List EventEnvelope) (receipts : List Receipt) : List AcceptedEvent :=
  (events.zip receipts).map (fun (envelope, receipt) => ⟨envelope, receipt⟩)

def appendEventsHash (events : List EventEnvelope) (receipts : List Receipt)
    : Except ValidationError String := do
  ensure (events.length == receipts.length) "receipts" "cardinality mismatch"
  acceptedEventsHash isJson sha256 (pair events receipts)

end

@[ext]
structure AppendAttestation where
  authorityId : AuthorityId
  committedAt : String
  keyId : String
  signature : String
  deriving DecidableEq

@[ext]
structure AppendResponse where
  protocol : String
  batchId : String
  streamId : String
  receipts : List Receipt
  nextCursor : StreamCursor
  attestation : AppendAttestation
  deriving DecidableEq

namespace AppendAttestation

def validateShape (attestation : AppendAttestation) : Except ValidationError Unit := do
  validateAuthorityId attestation.authorityId.text
  validateTimestamp attestation.committedAt
  validateKeyId attestation.keyId
  validateSignature attestation.signature

def signingPayload (isJson : String → Bool) (sha256 : Sha256) (attestation : AppendAttestation)
    (batch : AppendBatch) (response : AppendResponse) : Except ValidationError (List UInt8) := do
  attestation.validateShape
  batch.validate isJson
  let identity ← writeAll appendField
    [appendDomain, protocolV2, attestation.authorityId.text, batch.batchId, batch.streamId]
  let expected ← appendCursor batch.expectedCursor
  let next ← appendCursor response.nextCursor
  let count ← orError (tryFrom batch.events.length) "events" "count overflow"
  let eventsHash ← appendEventsHash isJson sha256 batch.events response.receipts
  let rest ← writeAll appendField [eventsHash, attestation.committedAt, attestation.keyId]
  .ok (identity ++ (expected ++ (next ++ (beBytes 8 count.toNat ++ rest))))

end AppendAttestation

namespace AppendResponse

variable (isJson : String → Bool) (sha256 : Sha256)

def expectedSeq (position : UInt64) (index : Nat) (owner : String)
    : Except ValidationError UInt64 := do
  let offset ← orError (tryFrom index) owner "index overflow"
  orError ((checkedAdd position offset).bind (checkedAdd · 1)) "server_seq" "sequence overflow"

def validateReceipts (batch : AppendBatch) (index : Nat) (expectedPrev : String)
    (pairs : List (EventEnvelope × Receipt)) : Except ValidationError Unit :=
  match pairs with
  | [] => .ok ()
  | (event, receipt) :: rest => do
    receipt.validateShape
    ensure (receipt.clientEventId == event.clientEventId && receipt.streamId == batch.streamId)
      "receipts" "event identity or stream mismatch"
    let wireHash ← event.wireHash isJson sha256
    ensure (receipt.envelopeHash == wireHash) "receipts" "event identity or stream mismatch"
    let seq ← expectedSeq batch.expectedCursor.position index "receipts"
    ensure (receipt.serverSeq == seq) "server_seq" "receipt sequence is not contiguous"
    ensure (receipt.serverPrevHash == expectedPrev) "receipts" "durable hash link mismatch"
    validateReceipts batch (index + 1) receipt.serverHash rest

def validateAgainst (response : AppendResponse) (batch : AppendBatch)
    : Except ValidationError Unit := do
  batch.validate isJson
  ensureProtocol response.protocol
  ensure (response.batchId == batch.batchId) "batch_id" "response mismatch"
  ensure (response.streamId == batch.streamId) "stream_id" "response mismatch"
  ensure (response.receipts.length == batch.events.length)
    "receipts" "response cardinality mismatch"
  response.nextCursor.validate
  response.attestation.validateShape
  validateReceipts isJson sha256 batch 0 batch.expectedCursor.headHash
    (batch.events.zip response.receipts)
  let last ← orError response.receipts.getLast? "receipts" "empty response"
  let appended ← orError (tryFrom batch.events.length) "events" "count overflow"
  let nextPosition ← orError (checkedAdd batch.expectedCursor.position appended)
    "next_cursor" "position overflow"
  ensure (response.nextCursor.position == nextPosition
      && response.nextCursor.headHash == last.serverHash
      && last.journalHead == response.nextCursor.headHash
      && response.receipts.all (·.journalHead == response.nextCursor.headHash))
    "next_cursor" "atomic append cursor or journal head mismatch"

end AppendResponse

/--
Structurally valid append response; signatures remain untrusted.
-/
structure ValidatedAppendResponse (isJson : String → Bool) (sha256 : Sha256) where
  batch : AppendBatch
  response : AppendResponse
  valid : response.validateAgainst isJson sha256 batch = .ok ()

namespace ValidatedAppendResponse

variable {isJson : String → Bool} {sha256 : Sha256}

def verify (verifier : ReceiptVerifier) (validated : ValidatedAppendResponse isJson sha256)
    : Except SyncError (AppendResponse × AuthorityId) := do
  let attestation := validated.response.attestation
  let payload ← (attestation.signingPayload isJson sha256 validated.batch
    validated.response).mapError .validation
  let authority ← (verifyAs verifier
    { purpose := .appendAttestation
      claimedAuthority := some attestation.authorityId
      streamId := validated.batch.streamId
      signedAt := attestation.committedAt
      keyId := attestation.keyId }
    payload attestation.signature).mapError .verification
  validated.response.receipts.forM (Receipt.verify verifier authority)
  .ok (validated.response, authority)

end ValidatedAppendResponse

inductive SnapshotSelection where
  | latest
  | exact (cursor : StreamCursor)
  deriving DecidableEq

inductive PullSelection where
  | wholeStream
  deriving DecidableEq

@[ext]
structure PullRequest where
  protocol : String
  requestId : String
  streamId : String
  after : StreamCursor
  snapshot : SnapshotSelection
  selection : PullSelection
  limit : UInt16
  deriving DecidableEq

namespace PullRequest

def validateSnapshot (request : PullRequest) : Except ValidationError Unit :=
  match request.snapshot with
  | .latest => .ok ()
  | .exact snapshot => do
    snapshot.validate
    ensure (!(snapshot.position < request.after.position
        || (snapshot.position == request.after.position
          && snapshot.headHash != request.after.headHash)))
      "snapshot" "exact snapshot precedes or forks from request cursor"

def validate (request : PullRequest) : Except ValidationError Unit := do
  ensureProtocol request.protocol
  validateUuidV7 "request_id" request.requestId
  validateStreamId request.streamId
  request.after.validate
  request.validateSnapshot
  ensure (!(request.limit == 0 || request.limit.toNat > maxPullEvents))
    "limit" "must be in 1..=256"

end PullRequest

@[ext]
structure PageAttestation where
  authorityId : AuthorityId
  issuedAt : String
  keyId : String
  signature : String
  deriving DecidableEq

@[ext]
structure PullPage where
  protocol : String
  streamId : String
  events : List AcceptedEvent
  nextCursor : StreamCursor
  snapshotCursor : StreamCursor
  complete : Bool
  attestation : PageAttestation
  deriving DecidableEq

def SnapshotSelection.payload (selection : SnapshotSelection) : Except ValidationError (List UInt8) :=
  match selection with
  | .latest => appendField "latest"
  | .exact cursor => do
    let mode ← appendField "exact"
    let cursor ← appendCursor cursor
    .ok (mode ++ cursor)

def PullSelection.payload (selection : PullSelection) : Except ValidationError (List UInt8) :=
  match selection with
  | .wholeStream => appendField "whole_stream"

namespace PageAttestation

def validateShape (attestation : PageAttestation) : Except ValidationError Unit := do
  validateAuthorityId attestation.authorityId.text
  validateTimestamp attestation.issuedAt
  validateKeyId attestation.keyId
  validateSignature attestation.signature

def signingPayload (isJson : String → Bool) (sha256 : Sha256) (attestation : PageAttestation)
    (request : PullRequest) (page : PullPage) : Except ValidationError (List UInt8) := do
  attestation.validateShape
  request.validate
  let identity ← writeAll appendField
    [pageDomain, protocolV2, attestation.authorityId.text, request.requestId, request.streamId]
  let after ← appendCursor request.after
  let snapshot ← request.snapshot.payload
  let selection ← request.selection.payload
  let next ← appendCursor page.nextCursor
  let snapshotCursor ← appendCursor page.snapshotCursor
  let count ← orError (tryFrom page.events.length) "events" "count overflow"
  let eventsHash ← acceptedEventsHash isJson sha256 page.events
  let rest ← writeAll appendField [eventsHash, attestation.issuedAt, attestation.keyId]
  .ok (identity ++ (after ++ (snapshot ++ (selection ++ (beBytes 2 request.limit.toNat
    ++ (next ++ (snapshotCursor ++ ((if page.complete then 1 else 0)
    :: (beBytes 8 count.toNat ++ rest)))))))))

end PageAttestation

namespace PullPage

variable (isJson : String → Bool) (sha256 : Sha256)

def validateEvents (request : PullRequest) (streamId : String) (index : Nat) (ids : List String)
    (expectedPrev : String) (events : List AcceptedEvent) : Except ValidationError Unit :=
  match events with
  | [] => .ok ()
  | accepted :: rest => do
    accepted.envelope.validate isJson
    accepted.receipt.validateShape
    ensure (accepted.envelope.streamId == streamId && accepted.receipt.streamId == streamId
        && accepted.envelope.clientEventId == accepted.receipt.clientEventId)
      "events" "pull identity or stream mismatch"
    let wireHash ← accepted.envelope.wireHash isJson sha256
    ensure (accepted.receipt.envelopeHash == wireHash) "events" "pull identity or stream mismatch"
    ensure (!ids.contains accepted.envelope.clientEventId)
      "client_event_id" "duplicate inside pull page"
    let seq ← AppendResponse.expectedSeq request.after.position index "events"
    ensure (accepted.receipt.serverSeq == seq) "server_seq" "pull sequence is not contiguous"
    ensure (accepted.receipt.serverPrevHash == expectedPrev)
      "receipts" "pull hash chain is discontinuous"
    validateEvents request streamId (index + 1) (accepted.envelope.clientEventId :: ids)
      accepted.receipt.serverHash rest

def validateEnd (page : PullPage) (request : PullRequest) : Except ValidationError Unit :=
  match page.events.getLast? with
  | some last =>
    ensure (page.nextCursor.headHash == last.receipt.serverHash)
      "next_cursor" "head does not match final durable entry"
  | none => ensure (page.nextCursor == request.after) "next_cursor" "empty page changed request cursor"

def validateSnapshot (page : PullPage) (request : PullRequest) : Except ValidationError Unit := do
  ensure (!(page.snapshotCursor.position < request.after.position))
    "snapshot_cursor" "snapshot regressed"
  match request.snapshot with
  | .exact expected =>
    ensure (page.snapshotCursor == expected) "snapshot_cursor" "response changed fixed snapshot"
  | .latest => .ok ()

def validateAgainst (page : PullPage) (request : PullRequest) : Except ValidationError Unit := do
  request.validate
  ensureProtocol page.protocol
  ensure (page.streamId == request.streamId) "stream_id" "pull response mismatch"
  ensure (page.events.length ≤ request.limit.toNat) "events" "pull limit exceeded"
  page.nextCursor.validate
  page.snapshotCursor.validate
  page.attestation.validateShape
  page.validateSnapshot request
  ensure (!(page.nextCursor.position > page.snapshotCursor.position))
    "next_cursor" "page advanced beyond fixed snapshot"
  ensure (!(page.nextCursor.position == page.snapshotCursor.position
      && page.nextCursor.headHash != page.snapshotCursor.headHash))
    "snapshot_cursor" "same snapshot position has a different durable head"
  validateEvents isJson sha256 request page.streamId 0 [] request.after.headHash page.events
  let count ← orError (tryFrom page.events.length) "events" "count overflow"
  let expectedPosition ← orError (checkedAdd request.after.position count)
    "next_cursor" "position overflow"
  ensure (page.nextCursor.position == expectedPosition)
    "next_cursor" "position does not match returned page"
  page.validateEnd request
  ensure (page.complete == (page.nextCursor == page.snapshotCursor))
    "complete" "must exactly reflect next cursor reaching fixed snapshot"
  ensure (page.complete || !page.events.isEmpty) "complete" "an incomplete page must advance"

end PullPage

abbrev EventVersionPolicy := String → UInt32 → Except EventVersionError Unit

/--
Structurally validated pull page. It is still cryptographically untrusted.
-/
structure ValidatedPullPage (isJson : String → Bool) (sha256 : Sha256) where
  request : PullRequest
  page : PullPage
  valid : page.validateAgainst isJson sha256 request = .ok ()

structure VerifiedAcceptedEvent where
  envelope : EventEnvelope
  receipt : Receipt
  authority : AuthorityId
  deriving DecidableEq

structure VerifiedPullPage (isJson : String → Bool) (sha256 : Sha256) where
  request : PullRequest
  page : PullPage
  authority : AuthorityId
  valid : page.validateAgainst isJson sha256 request = .ok ()

variable {isJson : String → Bool} {sha256 : Sha256}

-- The events as `verify` collects them, under the authority of the page.
def VerifiedPullPage.events (verified : VerifiedPullPage isJson sha256)
    : List VerifiedAcceptedEvent :=
  verified.page.events.map (fun accepted =>
    ⟨accepted.envelope, accepted.receipt, verified.authority⟩)

namespace ValidatedPullPage

def verify (verifier : ReceiptVerifier) (policy : EventVersionPolicy)
    (validated : ValidatedPullPage isJson sha256)
    : Except SyncError (VerifiedPullPage isJson sha256) := do
  let attestation := validated.page.attestation
  let payload ← (attestation.signingPayload isJson sha256 validated.request
    validated.page).mapError .validation
  let authority ← (verifyAs verifier
    { purpose := .pageAttestation
      claimedAuthority := some attestation.authorityId
      streamId := validated.request.streamId
      signedAt := attestation.issuedAt
      keyId := attestation.keyId }
    payload attestation.signature).mapError .verification
  validated.page.events.forM (fun accepted => do
    accepted.receipt.verify verifier authority
    (policy accepted.envelope.kind accepted.envelope.schemaVersion).mapError .eventVersion)
  .ok ⟨validated.request, validated.page, authority, validated.valid⟩

end ValidatedPullPage

end Hyphae

end Pliego
