import Pliego.Hyphae.Signed

/-!
The signed bytes determine what is signed: every field of a receipt, of an append transaction or of a pull
page, but for the signature over it.
-/

namespace Pliego

open Bytes

namespace Hyphae

variable {isJson : String → Bool} {sha256 : Sha256}

theorem hex_inj {a b : Hash} (h : hex a = hex b) : a = b :=
  Hash.ext (encodeHex_inj h)

theorem hashField_delimited : Delimited hashField :=
  (sized_delimited 4 _).comp (fun _ _ => utf8_inj)

theorem hashBytes_delimited : Delimited hashBytes :=
  sized_delimited 4 _

theorem appendField_delimited : Delimited appendField :=
  (sized_delimited 4 _).comp (fun _ _ => utf8_inj)

variable {p : List UInt8}

theorem appendCursor_ok {cursor : StreamCursor} (h : appendCursor cursor = .ok p)
    : ∃ head, appendField cursor.headHash = .ok head ∧
        p = beBytes 8 cursor.position.toNat ++ head := by
  obtain ⟨-, -, h⟩ := Except.bind_eq_ok.mp h
  obtain ⟨head, hhead, h⟩ := Except.bind_eq_ok.mp h
  cases h
  exact ⟨head, hhead, rfl⟩

theorem appendCursor_delimited : Delimited appendCursor := by
  intro a b p q x y ha hb h
  obtain ⟨head, hhead, rfl⟩ := appendCursor_ok ha
  obtain ⟨head', hhead', rfl⟩ := appendCursor_ok hb
  rw [List.append_assoc, List.append_assoc] at h
  obtain ⟨hposition, h⟩ := beBytes_append_inj a.position.toNat_lt b.position.toNat_lt h
  obtain ⟨hhash, hrest⟩ := appendField_delimited _ _ _ _ _ _ hhead hhead' h
  cases a
  cases b
  exact ⟨by rw [StreamCursor.mk.injEq]; exact ⟨UInt64.toNat_inj.mp hposition, hhash⟩, hrest⟩

theorem wirePreimage_ok {envelope : EventEnvelope} (h : envelope.wirePreimage isJson = .ok p)
    : ∃ identity content chain parents created,
        writeAll hashField [envelope.protocol, envelope.clientEventId, envelope.streamId]
          = .ok identity ∧
        writeAll hashField [envelope.kind, envelope.payload] = .ok content ∧
        writeAll hashField [envelope.localPrevHash, envelope.localHash] = .ok chain ∧
        envelope.causalParents.length < 2 ^ 32 ∧
        writeAll hashField envelope.causalParents = .ok parents ∧
        hashField envelope.createdAt = .ok created ∧
        p = identity ++ (beBytes 4 envelope.schemaVersion.toNat ++ (content
          ++ (beBytes 8 envelope.localSeq.toNat ++ (chain
          ++ (beBytes 4 envelope.causalParents.length ++ (parents ++ created)))))) := by
  obtain ⟨-, -, h⟩ := Except.bind_eq_ok.mp h
  obtain ⟨identity, hidentity, h⟩ := Except.bind_eq_ok.mp h
  obtain ⟨content, hcontent, h⟩ := Except.bind_eq_ok.mp h
  obtain ⟨chain, hchain, h⟩ := Except.bind_eq_ok.mp h
  obtain ⟨⟨⟩, hcount, h⟩ := Except.bind_eq_ok.mp h
  obtain ⟨parents, hparents, h⟩ := Except.bind_eq_ok.mp h
  obtain ⟨created, hcreated, h⟩ := Except.bind_eq_ok.mp h
  cases h
  exact ⟨identity, content, chain, parents, created, hidentity, hcontent, hchain,
    of_decide_eq_true (ensure_eq_ok.mp hcount), hparents, hcreated, rfl⟩

theorem wirePreimage_inj {a b : EventEnvelope}
    (ha : a.wirePreimage isJson = .ok p) (hb : b.wirePreimage isJson = .ok p)
    : a = b := by
  obtain ⟨identity, content, chain, parents, created, hidentity, hcontent, hchain, hcount, hparents,
    hcreated, rfl⟩ := wirePreimage_ok ha
  obtain ⟨identity', content', chain', parents', created', hidentity', hcontent', hchain', hcount',
    hparents', hcreated', h⟩ := wirePreimage_ok hb
  obtain ⟨heq₁, h⟩ := hashField_delimited.all hidentity hidentity' rfl h
  obtain ⟨heq₂, h⟩ := beBytes_append_inj a.schemaVersion.toNat_lt b.schemaVersion.toNat_lt h
  obtain ⟨heq₃, h⟩ := hashField_delimited.all hcontent hcontent' rfl h
  obtain ⟨heq₄, h⟩ := beBytes_append_inj a.localSeq.toNat_lt b.localSeq.toNat_lt h
  obtain ⟨heq₅, h⟩ := hashField_delimited.all hchain hchain' rfl h
  obtain ⟨hlen, h⟩ := beBytes_append_inj hcount hcount' h
  obtain ⟨heq₆, h⟩ := hashField_delimited.all hparents hparents' hlen h
  have heq₇ : a.createdAt = b.createdAt :=
    (hashField_delimited _ _ _ _ [] [] hcreated hcreated' (by rw [h])).1
  simp only [List.cons.injEq, and_true] at heq₁ heq₃ heq₅
  rw [UInt32.toNat_inj] at heq₂
  rw [UInt64.toNat_inj] at heq₄
  cases a
  cases b
  simp_all

theorem signingPayload_ok {receipt : Receipt} (h : receipt.signingPayload = .ok p)
    : ∃ identity entry,
        writeAll appendField [receiptDomain, protocolV2, receipt.clientEventId, receipt.streamId,
          receipt.envelopeHash] = .ok identity ∧
        writeAll appendField [receipt.serverHash, receipt.serverPrevHash, receipt.journalHead,
          receipt.committedAt, receipt.keyId] = .ok entry ∧
        p = identity ++ (beBytes 8 receipt.serverSeq.toNat ++ entry) := by
  obtain ⟨-, -, h⟩ := Except.bind_eq_ok.mp h
  obtain ⟨identity, hidentity, h⟩ := Except.bind_eq_ok.mp h
  obtain ⟨entry, hentry, h⟩ := Except.bind_eq_ok.mp h
  cases h
  exact ⟨identity, entry, hidentity, hentry, rfl⟩

theorem Receipt.signingPayload_inj {a b : Receipt} (ha : a.signingPayload = .ok p) (hb : b.signingPayload = .ok p)
    : { a with signature := b.signature } = b := by
  obtain ⟨identity, entry, hidentity, hentry, rfl⟩ := signingPayload_ok ha
  obtain ⟨identity', entry', hidentity', hentry', h⟩ := signingPayload_ok hb
  obtain ⟨heq₁, h⟩ := appendField_delimited.all hidentity hidentity' rfl h
  obtain ⟨heq₂, h⟩ := beBytes_append_inj a.serverSeq.toNat_lt b.serverSeq.toNat_lt h
  have heq₃ := (appendField_delimited.all hentry hentry' rfl (congrArg (· ++ []) h)).1
  simp only [List.cons.injEq, and_true, true_and] at heq₁ heq₃
  rw [UInt64.toNat_inj] at heq₂
  cases a
  cases b
  simp_all

def hashedOf (isJson : String → Bool) (sha256 : Sha256) (events : List AcceptedEvent)
    : Set (List UInt8) :=
  { p | (∃ accepted ∈ events, accepted.envelope.wirePreimage isJson = .ok p) ∨
    acceptedEventsPreimage isJson sha256 events = .ok p }

theorem hashed_ok {accepted : AcceptedEvent} (h : accepted.hashed isJson sha256 = .ok p)
    : ∃ preimage envelope payload receipt signature,
        accepted.envelope.wirePreimage isJson = .ok preimage ∧
        hashField (hex (sha256 preimage)) = .ok envelope ∧
        accepted.receipt.signingPayload = .ok payload ∧ hashBytes payload = .ok receipt ∧
        hashField accepted.receipt.signature = .ok signature ∧
        p = envelope ++ (receipt ++ signature) := by
  obtain ⟨wireHash, hwire, h⟩ := Except.bind_eq_ok.mp h
  obtain ⟨preimage, hpreimage, hwire⟩ := Except.bind_eq_ok.mp hwire
  cases hwire
  obtain ⟨envelope, henvelope, h⟩ := Except.bind_eq_ok.mp h
  obtain ⟨payload, hpayload, h⟩ := Except.bind_eq_ok.mp h
  obtain ⟨receipt, hreceipt, h⟩ := Except.bind_eq_ok.mp h
  obtain ⟨signature, hsignature, h⟩ := Except.bind_eq_ok.mp h
  cases h
  exact ⟨preimage, envelope, payload, receipt, signature, hpreimage, henvelope, hpayload, hreceipt,
    hsignature, rfl⟩

theorem hashed_append_inj {as bs : List AcceptedEvent}
    (hsha : Set.InjOn sha256 (hashedOf isJson sha256 as ∪ hashedOf isJson sha256 bs))
    {a b : AcceptedEvent} (ha : a ∈ as) (hb : b ∈ bs) {p q x y : List UInt8}
    (hp : a.hashed isJson sha256 = .ok p) (hq : b.hashed isJson sha256 = .ok q) (h : p ++ x = q ++ y)
    : a = b ∧ x = y := by
  obtain ⟨preimage, envelope, payload, receipt, signature, hpreimage, henvelope, hpayload, hreceipt,
    hsignature, rfl⟩ := hashed_ok hp
  obtain ⟨preimage', envelope', payload', receipt', signature', hpreimage', henvelope', hpayload',
    hreceipt', hsignature', rfl⟩ := hashed_ok hq
  simp only [List.append_assoc] at h
  obtain ⟨hhash, h⟩ := hashField_delimited _ _ _ _ _ _ henvelope henvelope' h
  obtain ⟨rfl, h⟩ := hashBytes_delimited _ _ _ _ _ _ hreceipt hreceipt' h
  obtain ⟨hsame, h⟩ := hashField_delimited _ _ _ _ _ _ hsignature hsignature' h
  have hwire : preimage = preimage' :=
    hsha (.inl (.inl ⟨a, ha, hpreimage⟩)) (.inr (.inl ⟨b, hb, hpreimage'⟩)) (hex_inj hhash)
  have hreceipts := Receipt.signingPayload_inj hpayload hpayload'
  rw [← hsame] at hreceipts
  subst hwire
  refine ⟨?_, h⟩
  cases a
  cases b
  rw [AcceptedEvent.mk.injEq]
  exact ⟨wirePreimage_inj hpreimage hpreimage', hreceipts⟩

theorem acceptedEventsPreimage_ok {events : List AcceptedEvent}
    (h : acceptedEventsPreimage isJson sha256 events = .ok p)
    : ∃ domain accepted, hashField "pliego-hyphae/2/accepted-events" = .ok domain ∧
        events.length < 2 ^ 64 ∧
        writeAll (AcceptedEvent.hashed isJson sha256) events = .ok accepted ∧
        p = domain ++ (beBytes 8 events.length ++ accepted) := by
  obtain ⟨domain, hdomain, h⟩ := Except.bind_eq_ok.mp h
  obtain ⟨count, hcount, h⟩ := Except.bind_eq_ok.mp h
  obtain ⟨accepted, haccepted, h⟩ := Except.bind_eq_ok.mp h
  cases h
  have hlen := tryFrom_eq_some.mp (orError_eq_ok.mp hcount)
  have hlt := count.toNat_lt
  rw [hlen] at hlt ⊢
  exact ⟨domain, accepted, hdomain, hlt, haccepted, rfl⟩

theorem acceptedEventsPreimage_inj {as bs : List AcceptedEvent}
    (hsha : Set.InjOn sha256 (hashedOf isJson sha256 as ∪ hashedOf isJson sha256 bs))
    (ha : acceptedEventsPreimage isJson sha256 as = .ok p) (hb : acceptedEventsPreimage isJson sha256 bs = .ok p)
    : as = bs := by
  obtain ⟨domain, accepted, hdomain, hlt, haccepted, rfl⟩ := acceptedEventsPreimage_ok ha
  obtain ⟨domain', accepted', hdomain', hlt', haccepted', h⟩ := acceptedEventsPreimage_ok hb
  obtain ⟨-, h⟩ := hashField_delimited _ _ _ _ _ _ hdomain hdomain' h
  obtain ⟨hlen, h⟩ := beBytes_append_inj hlt hlt' h
  apply (writeAll_inj _ haccepted haccepted' hlen (congrArg (· ++ []) h)).1
  intro a hmem b hmem' p q x y hp hq hpq
  exact hashed_append_inj hsha hmem hmem' hp hq hpq

theorem acceptedEventsHash_inj {as bs : List AcceptedEvent}
    (hsha : Set.InjOn sha256 (hashedOf isJson sha256 as ∪ hashedOf isJson sha256 bs)) {h : String}
    (ha : acceptedEventsHash isJson sha256 as = .ok h) (hb : acceptedEventsHash isJson sha256 bs = .ok h)
    : as = bs := by
  obtain ⟨p, hp, ha⟩ := Except.bind_eq_ok.mp ha
  obtain ⟨q, hq, hb⟩ := Except.bind_eq_ok.mp hb
  cases ha
  have hsame := hex_inj (Except.ok.inj hb)
  have hpre : q = p := hsha (.inr (.inr hq)) (.inl (.inr hp)) hsame
  subst hpre
  exact acceptedEventsPreimage_inj hsha hp hq

theorem pair_inj {events events' : List EventEnvelope} {receipts receipts' : List Receipt}
    (hlen : events.length = receipts.length) (hlen' : events'.length = receipts'.length)
    (h : pair events receipts = pair events' receipts')
    : events = events' ∧ receipts = receipts' := by
  have hinj : Function.Injective
      (fun (both : EventEnvelope × Receipt) => AcceptedEvent.mk both.1 both.2) := by
    rintro ⟨a, b⟩ ⟨c, d⟩ hsame
    cases hsame
    rfl
  have hzip : events.zip receipts = events'.zip receipts' := List.map_injective_iff.mpr hinj h
  constructor
  . rw [← List.map_fst_zip (le_of_eq hlen), ← List.map_fst_zip (le_of_eq hlen'), hzip]
  . rw [← List.map_snd_zip (ge_of_eq hlen), ← List.map_snd_zip (ge_of_eq hlen'), hzip]

theorem AuthorityId.ext {a b : AuthorityId} (h : a.text = b.text) : a = b := by
  cases a
  cases b
  cases h
  rfl

namespace AppendAttestation

theorem signingPayload_ok {attestation : AppendAttestation} {batch : AppendBatch}
    {response : AppendResponse} {p : List UInt8}
    (h : attestation.signingPayload isJson sha256 batch response = .ok p)
    : ∃ identity expected next eventsHash rest,
        writeAll appendField [appendDomain, protocolV2, attestation.authorityId.text, batch.batchId,
          batch.streamId] = .ok identity ∧
        appendCursor batch.expectedCursor = .ok expected ∧
        appendCursor response.nextCursor = .ok next ∧ batch.events.length < 2 ^ 64 ∧
        batch.events.length = response.receipts.length ∧
        acceptedEventsHash isJson sha256 (pair batch.events response.receipts) = .ok eventsHash ∧
        writeAll appendField [eventsHash, attestation.committedAt, attestation.keyId] = .ok rest ∧
        p = identity ++ (expected ++ (next ++ (beBytes 8 batch.events.length ++ rest))) := by
  obtain ⟨-, -, h⟩ := Except.bind_eq_ok.mp h
  obtain ⟨-, -, h⟩ := Except.bind_eq_ok.mp h
  obtain ⟨identity, hidentity, h⟩ := Except.bind_eq_ok.mp h
  obtain ⟨expected, hexpected, h⟩ := Except.bind_eq_ok.mp h
  obtain ⟨next, hnext, h⟩ := Except.bind_eq_ok.mp h
  obtain ⟨count, hcount, h⟩ := Except.bind_eq_ok.mp h
  obtain ⟨eventsHash, hevents, h⟩ := Except.bind_eq_ok.mp h
  obtain ⟨⟨⟩, hlen, hevents⟩ := Except.bind_eq_ok.mp hevents
  obtain ⟨rest, hrest, h⟩ := Except.bind_eq_ok.mp h
  cases h
  have hcount := tryFrom_eq_some.mp (orError_eq_ok.mp hcount)
  have hlt := count.toNat_lt
  rw [hcount] at hlt ⊢
  exact ⟨identity, expected, next, eventsHash, rest, hidentity, hexpected, hnext, hlt,
    beq_iff_eq.mp (ensure_eq_ok.mp hlen), hevents, hrest, rfl⟩

end AppendAttestation

namespace ValidatedAppendResponse

def signingPayload (validated : ValidatedAppendResponse isJson sha256)
    : Except ValidationError (List UInt8) :=
  validated.response.attestation.signingPayload isJson sha256 validated.batch validated.response

def hashed (validated : ValidatedAppendResponse isJson sha256) : Set (List UInt8) :=
  hashedOf isJson sha256 (pair validated.batch.events validated.response.receipts)

def responseSigned (validated : ValidatedAppendResponse isJson sha256) (signature : String)
    : AppendResponse :=
  { validated.response with
    attestation := { validated.response.attestation with signature := signature } }

theorem echoed (validated : ValidatedAppendResponse isJson sha256)
    : validated.batch.protocol = protocolV2 ∧ validated.response.protocol = protocolV2 ∧
        validated.response.batchId = validated.batch.batchId ∧
        validated.response.streamId = validated.batch.streamId := by
  have h := validated.valid
  obtain ⟨⟨⟩, hbatch, h⟩ := Except.bind_eq_ok.mp h
  obtain ⟨⟨⟩, hprotocol, h⟩ := Except.bind_eq_ok.mp h
  obtain ⟨⟨⟩, hid, h⟩ := Except.bind_eq_ok.mp h
  obtain ⟨⟨⟩, hstream, h⟩ := Except.bind_eq_ok.mp h
  obtain ⟨⟨⟩, hversion, hbatch⟩ := Except.bind_eq_ok.mp hbatch
  exact ⟨beq_iff_eq.mp (ensure_eq_ok.mp hversion), beq_iff_eq.mp (ensure_eq_ok.mp hprotocol),
    beq_iff_eq.mp (ensure_eq_ok.mp hid), beq_iff_eq.mp (ensure_eq_ok.mp hstream)⟩

theorem signingPayload_inj {a b : ValidatedAppendResponse isJson sha256} {p : List UInt8}
    (hsha : Set.InjOn sha256 (a.hashed ∪ b.hashed))
    (ha : a.signingPayload = .ok p) (hb : b.signingPayload = .ok p)
    : a.batch = b.batch ∧ a.responseSigned b.response.attestation.signature = b.response := by
  obtain ⟨identity, expected, next, eventsHash, rest, hidentity, hexpected, hnext, hlt, hlen, hevents,
    hrest, rfl⟩ := AppendAttestation.signingPayload_ok ha
  obtain ⟨identity', expected', next', eventsHash', rest', hidentity', hexpected', hnext', hlt',
    hlen', hevents', hrest', h⟩ := AppendAttestation.signingPayload_ok hb
  obtain ⟨heq₁, h⟩ := appendField_delimited.all hidentity hidentity' rfl h
  obtain ⟨hcursor, h⟩ := appendCursor_delimited _ _ _ _ _ _ hexpected hexpected' h
  obtain ⟨hnextCursor, h⟩ := appendCursor_delimited _ _ _ _ _ _ hnext hnext' h
  obtain ⟨-, h⟩ := beBytes_append_inj hlt hlt' h
  have heq₂ := (appendField_delimited.all hrest hrest' rfl (congrArg (· ++ []) h)).1
  simp only [List.cons.injEq, and_true, true_and] at heq₁ heq₂
  obtain ⟨hauthority, hbatchId, hstreamId⟩ := heq₁
  obtain ⟨hhash, hcommitted, hkey⟩ := heq₂
  subst hhash
  obtain ⟨hsameEvents, hsameReceipts⟩ := pair_inj hlen hlen' (acceptedEventsHash_inj hsha hevents hevents')
  obtain ⟨hprotocol, hresponse, hid, hstream⟩ := a.echoed
  obtain ⟨hprotocol', hresponse', hid', hstream'⟩ := b.echoed
  have hsameAuthority := AuthorityId.ext hauthority
  constructor
  . rw [AppendBatch.ext_iff]
    exact ⟨hprotocol.trans hprotocol'.symm, hbatchId, hstreamId, hcursor, hsameEvents⟩
  . rw [AppendResponse.ext_iff, AppendAttestation.ext_iff]
    exact ⟨hresponse.trans hresponse'.symm, (hid.trans hbatchId).trans hid'.symm,
      (hstream.trans hstreamId).trans hstream'.symm, hsameReceipts, hnextCursor, hsameAuthority,
      hcommitted, hkey, rfl⟩

end ValidatedAppendResponse

theorem SnapshotSelection.payload_delimited : Delimited SnapshotSelection.payload := by
  intro a b p q x y ha hb h
  cases a with
  | latest =>
    cases b with
    | latest =>
      obtain ⟨-, hrest⟩ := appendField_delimited _ _ _ _ _ _ ha hb h
      exact ⟨rfl, hrest⟩
    | exact cursor =>
      obtain ⟨mode, hmode, hb⟩ := Except.bind_eq_ok.mp hb
      obtain ⟨bytes, -, hb⟩ := Except.bind_eq_ok.mp hb
      cases hb
      rw [List.append_assoc] at h
      have hne := (appendField_delimited _ _ _ _ _ _ ha hmode h).1
      exact absurd hne (by decide)
  | exact cursor =>
    obtain ⟨mode, hmode, ha⟩ := Except.bind_eq_ok.mp ha
    obtain ⟨bytes, hbytes, ha⟩ := Except.bind_eq_ok.mp ha
    cases ha
    rw [List.append_assoc] at h
    cases b with
    | latest =>
      have hne := (appendField_delimited _ _ _ _ _ _ hmode hb h).1
      exact absurd hne (by decide)
    | exact cursor' =>
      obtain ⟨mode', hmode', hb⟩ := Except.bind_eq_ok.mp hb
      obtain ⟨bytes', hbytes', hb⟩ := Except.bind_eq_ok.mp hb
      cases hb
      rw [List.append_assoc] at h
      obtain ⟨-, h⟩ := appendField_delimited _ _ _ _ _ _ hmode hmode' h
      obtain ⟨hcursor, hrest⟩ := appendCursor_delimited _ _ _ _ _ _ hbytes hbytes' h
      exact ⟨by rw [hcursor], hrest⟩

theorem PullSelection.payload_delimited : Delimited PullSelection.payload := by
  intro a b p q x y ha hb h
  cases a
  cases b
  obtain ⟨-, hrest⟩ := appendField_delimited _ _ _ _ _ _ ha hb h
  exact ⟨rfl, hrest⟩

namespace PageAttestation

theorem signingPayload_ok {attestation : PageAttestation} {request : PullRequest} {page : PullPage}
    {p : List UInt8} (h : attestation.signingPayload isJson sha256 request page = .ok p)
    : ∃ identity after snapshot selection next snapshotCursor eventsHash rest,
        writeAll appendField [pageDomain, protocolV2, attestation.authorityId.text,
          request.requestId, request.streamId] = .ok identity ∧
        appendCursor request.after = .ok after ∧ request.snapshot.payload = .ok snapshot ∧
        request.selection.payload = .ok selection ∧ appendCursor page.nextCursor = .ok next ∧
        appendCursor page.snapshotCursor = .ok snapshotCursor ∧ page.events.length < 2 ^ 64 ∧
        acceptedEventsHash isJson sha256 page.events = .ok eventsHash ∧
        writeAll appendField [eventsHash, attestation.issuedAt, attestation.keyId] = .ok rest ∧
        p = identity ++ (after ++ (snapshot ++ (selection ++ (beBytes 2 request.limit.toNat
          ++ (next ++ (snapshotCursor ++ ((if page.complete then 1 else 0)
          :: (beBytes 8 page.events.length ++ rest)))))))) := by
  obtain ⟨-, -, h⟩ := Except.bind_eq_ok.mp h
  obtain ⟨-, -, h⟩ := Except.bind_eq_ok.mp h
  obtain ⟨identity, hidentity, h⟩ := Except.bind_eq_ok.mp h
  obtain ⟨after, hafter, h⟩ := Except.bind_eq_ok.mp h
  obtain ⟨snapshot, hsnapshot, h⟩ := Except.bind_eq_ok.mp h
  obtain ⟨selection, hselection, h⟩ := Except.bind_eq_ok.mp h
  obtain ⟨next, hnext, h⟩ := Except.bind_eq_ok.mp h
  obtain ⟨snapshotCursor, hsnapshotCursor, h⟩ := Except.bind_eq_ok.mp h
  obtain ⟨count, hcount, h⟩ := Except.bind_eq_ok.mp h
  obtain ⟨eventsHash, hevents, h⟩ := Except.bind_eq_ok.mp h
  obtain ⟨rest, hrest, h⟩ := Except.bind_eq_ok.mp h
  cases h
  have hcount := tryFrom_eq_some.mp (orError_eq_ok.mp hcount)
  have hlt := count.toNat_lt
  rw [hcount] at hlt ⊢
  exact ⟨identity, after, snapshot, selection, next, snapshotCursor, eventsHash, rest, hidentity,
    hafter, hsnapshot, hselection, hnext, hsnapshotCursor, hlt, hevents, hrest, rfl⟩

end PageAttestation

namespace ValidatedPullPage

def signingPayload (validated : ValidatedPullPage isJson sha256)
    : Except ValidationError (List UInt8) :=
  validated.page.attestation.signingPayload isJson sha256 validated.request validated.page

def hashed (validated : ValidatedPullPage isJson sha256) : Set (List UInt8) :=
  hashedOf isJson sha256 validated.page.events

def pageSigned (validated : ValidatedPullPage isJson sha256) (signature : String) : PullPage :=
  { validated.page with
    attestation := { validated.page.attestation with signature := signature } }

theorem echoed (validated : ValidatedPullPage isJson sha256)
    : validated.request.protocol = protocolV2 ∧ validated.page.protocol = protocolV2 ∧
        validated.page.streamId = validated.request.streamId := by
  have h := validated.valid
  obtain ⟨⟨⟩, hrequest, h⟩ := Except.bind_eq_ok.mp h
  obtain ⟨⟨⟩, hprotocol, h⟩ := Except.bind_eq_ok.mp h
  obtain ⟨⟨⟩, hstream, h⟩ := Except.bind_eq_ok.mp h
  obtain ⟨⟨⟩, hversion, hrequest⟩ := Except.bind_eq_ok.mp hrequest
  exact ⟨beq_iff_eq.mp (ensure_eq_ok.mp hversion), beq_iff_eq.mp (ensure_eq_ok.mp hprotocol),
    beq_iff_eq.mp (ensure_eq_ok.mp hstream)⟩

theorem signingPayload_inj {a b : ValidatedPullPage isJson sha256} {p : List UInt8}
    (hsha : Set.InjOn sha256 (a.hashed ∪ b.hashed))
    (ha : a.signingPayload = .ok p) (hb : b.signingPayload = .ok p)
    : a.request = b.request ∧ a.pageSigned b.page.attestation.signature = b.page := by
  obtain ⟨identity, after, snapshot, selection, next, snapshotCursor, eventsHash, rest, hidentity,
    hafter, hsnapshot, hselection, hnext, hsnapshotCursor, hlt, hevents, hrest, rfl⟩ :=
    PageAttestation.signingPayload_ok ha
  obtain ⟨identity', after', snapshot', selection', next', snapshotCursor', eventsHash', rest',
    hidentity', hafter', hsnapshot', hselection', hnext', hsnapshotCursor', hlt', hevents', hrest',
    h⟩ := PageAttestation.signingPayload_ok hb
  obtain ⟨heq₁, h⟩ := appendField_delimited.all hidentity hidentity' rfl h
  obtain ⟨hsameAfter, h⟩ := appendCursor_delimited _ _ _ _ _ _ hafter hafter' h
  obtain ⟨hsameSnapshot, h⟩ :=
    SnapshotSelection.payload_delimited _ _ _ _ _ _ hsnapshot hsnapshot' h
  obtain ⟨hsameSelection, h⟩ :=
    PullSelection.payload_delimited _ _ _ _ _ _ hselection hselection' h
  obtain ⟨hlimit, h⟩ := beBytes_append_inj a.request.limit.toNat_lt b.request.limit.toNat_lt h
  obtain ⟨hsameNext, h⟩ := appendCursor_delimited _ _ _ _ _ _ hnext hnext' h
  obtain ⟨hsameCursor, h⟩ := appendCursor_delimited _ _ _ _ _ _ hsnapshotCursor hsnapshotCursor' h
  rw [List.cons.injEq] at h
  obtain ⟨hcomplete, h⟩ := h
  obtain ⟨-, h⟩ := beBytes_append_inj hlt hlt' h
  have heq₂ := (appendField_delimited.all hrest hrest' rfl (congrArg (· ++ []) h)).1
  simp only [List.cons.injEq, and_true, true_and] at heq₁ heq₂
  obtain ⟨hauthority, hrequestId, hstreamId⟩ := heq₁
  obtain ⟨hhash, hissued, hkey⟩ := heq₂
  subst hhash
  have hsameEvents := acceptedEventsHash_inj hsha hevents hevents'
  have hsameComplete : a.page.complete = b.page.complete := by
    cases hca : a.page.complete <;> cases hcb : b.page.complete <;> simp [hca, hcb] at hcomplete ⊢
  obtain ⟨hprotocol, hpage, hstream⟩ := a.echoed
  obtain ⟨hprotocol', hpage', hstream'⟩ := b.echoed
  have hsameAuthority := AuthorityId.ext hauthority
  constructor
  . rw [PullRequest.ext_iff]
    exact ⟨hprotocol.trans hprotocol'.symm, hrequestId, hstreamId, hsameAfter, hsameSnapshot,
      hsameSelection, UInt16.toNat_inj.mp hlimit⟩
  . rw [PullPage.ext_iff, PageAttestation.ext_iff]
    exact ⟨hpage.trans hpage'.symm, (hstream.trans hstreamId).trans hstream'.symm, hsameEvents,
      hsameNext, hsameCursor, hsameComplete, hsameAuthority, hissued, hkey, rfl⟩

end ValidatedPullPage

theorem append_ne_receipt {receipt : Receipt} {attestation : AppendAttestation} {batch : AppendBatch}
    {response : AppendResponse} (hreceipt : receipt.signingPayload = .ok p)
    : attestation.signingPayload isJson sha256 batch response ≠ .ok p := by
  intro happend
  obtain ⟨identity, entry, hidentity, -, rfl⟩ := Hyphae.signingPayload_ok hreceipt
  obtain ⟨identity', _, _, _, _, hidentity', -, -, -, -, -, -, h⟩ :=
    AppendAttestation.signingPayload_ok happend
  have hdomain := (appendField_delimited.all hidentity hidentity' rfl h).1
  rw [List.cons.injEq] at hdomain
  exact absurd hdomain.1 (by decide)

theorem page_ne_receipt {receipt : Receipt} {attestation : PageAttestation} {request : PullRequest}
    {page : PullPage} (hreceipt : receipt.signingPayload = .ok p)
    : attestation.signingPayload isJson sha256 request page ≠ .ok p := by
  intro hpage
  obtain ⟨identity, entry, hidentity, -, rfl⟩ := Hyphae.signingPayload_ok hreceipt
  obtain ⟨identity', _, _, _, _, _, _, _, hidentity', -, -, -, -, -, -, -, -, h⟩ :=
    PageAttestation.signingPayload_ok hpage
  have hdomain := (appendField_delimited.all hidentity hidentity' rfl h).1
  rw [List.cons.injEq] at hdomain
  exact absurd hdomain.1 (by decide)

theorem page_ne_append {attestation : AppendAttestation} {batch : AppendBatch}
    {response : AppendResponse} {attestation' : PageAttestation} {request : PullRequest} {page : PullPage}
    (happend : attestation.signingPayload isJson sha256 batch response = .ok p)
    : attestation'.signingPayload isJson sha256 request page ≠ .ok p := by
  intro hpage
  obtain ⟨identity, _, _, _, _, hidentity, -, -, -, -, -, -, rfl⟩ :=
    AppendAttestation.signingPayload_ok happend
  obtain ⟨identity', _, _, _, _, _, _, _, hidentity', -, -, -, -, -, -, -, -, h⟩ :=
    PageAttestation.signingPayload_ok hpage
  have hdomain := (appendField_delimited.all hidentity hidentity' rfl h).1
  rw [List.cons.injEq] at hdomain
  exact absurd hdomain.1 (by decide)

/--
A signature is accepted only over the bytes it was made over.
-/
def Unforged (verifier : ReceiptVerifier) (signedOver : String → List UInt8) : Prop :=
  ∀ context payload signature authority, verifier context payload signature = .ok authority →
    payload = signedOver signature

section

variable {verifier : ReceiptVerifier} {signedOver : String → List UInt8}

section

variable (hunforged : Unforged verifier signedOver)

include hunforged

theorem verifyAs_ok {context : VerificationContext}
    {payload : List UInt8} {signature : String} {authority : AuthorityId}
    (h : verifyAs verifier context payload signature = .ok authority)
    : payload = signedOver signature := by
  obtain ⟨accepted, haccepted, -⟩ := Except.bind_eq_ok.mp h
  exact hunforged context payload signature accepted haccepted

theorem Receipt.signed_of_verify {receipt : Receipt}
    {authority : AuthorityId} (h : receipt.verify verifier authority = .ok ())
    : receipt.signingPayload = .ok (signedOver receipt.signature) := by
  obtain ⟨payload, hpayload, h⟩ := Except.bind_eq_ok.mp h
  obtain ⟨accepted, haccepted, -⟩ := Except.bind_eq_ok.mp h
  rw [← verifyAs_ok hunforged (Except.mapError_eq_ok.mp haccepted)]
  exact Except.mapError_eq_ok.mp hpayload

theorem ValidatedAppendResponse.signed_of_verify
    {validated : ValidatedAppendResponse isJson sha256} {verified : AppendResponse × AuthorityId}
    (h : validated.verify verifier = .ok verified)
    : validated.signingPayload = .ok (signedOver validated.response.attestation.signature) := by
  obtain ⟨payload, hpayload, h⟩ := Except.bind_eq_ok.mp h
  obtain ⟨accepted, haccepted, -⟩ := Except.bind_eq_ok.mp h
  rw [← verifyAs_ok hunforged (Except.mapError_eq_ok.mp haccepted)]
  exact Except.mapError_eq_ok.mp hpayload

theorem ValidatedPullPage.signed_of_verify
    {policy : EventVersionPolicy} {validated : ValidatedPullPage isJson sha256}
    {verified : VerifiedPullPage isJson sha256} (h : validated.verify verifier policy = .ok verified)
    : validated.signingPayload = .ok (signedOver validated.page.attestation.signature) := by
  obtain ⟨payload, hpayload, h⟩ := Except.bind_eq_ok.mp h
  obtain ⟨accepted, haccepted, -⟩ := Except.bind_eq_ok.mp h
  rw [← verifyAs_ok hunforged (Except.mapError_eq_ok.mp haccepted)]
  exact Except.mapError_eq_ok.mp hpayload

end

end

/--
Where SHA-256 is injective on what is hashed for two objects, equal payloads are payloads of one object but
for the outer signature; payloads of two purposes differ; so a signature is accepted only with the object it
was made for.
-/
theorem signed_payloads_bind (isJson : String → Bool) (sha256 : Sha256)
    : (∀ (a b : Receipt) p, a.signingPayload = .ok p → b.signingPayload = .ok p →
        { a with signature := b.signature } = b) ∧
      (∀ (a b : ValidatedAppendResponse isJson sha256) p,
        Set.InjOn sha256 (a.hashed ∪ b.hashed) →
        a.signingPayload = .ok p → b.signingPayload = .ok p →
        a.batch = b.batch ∧ a.responseSigned b.response.attestation.signature = b.response) ∧
      (∀ (a b : ValidatedPullPage isJson sha256) p, Set.InjOn sha256 (a.hashed ∪ b.hashed) →
        a.signingPayload = .ok p → b.signingPayload = .ok p →
        a.request = b.request ∧ a.pageSigned b.page.attestation.signature = b.page) ∧
      (∀ (receipt : Receipt) (append : ValidatedAppendResponse isJson sha256) p,
        receipt.signingPayload = .ok p → append.signingPayload ≠ .ok p) ∧
      (∀ (receipt : Receipt) (page : ValidatedPullPage isJson sha256) p,
        receipt.signingPayload = .ok p → page.signingPayload ≠ .ok p) ∧
      (∀ (append : ValidatedAppendResponse isJson sha256) (page : ValidatedPullPage isJson sha256) p,
        append.signingPayload = .ok p → page.signingPayload ≠ .ok p) ∧
      ∀ verifier signedOver, Unforged verifier signedOver →
        (∀ (a b : Receipt) authority, a.verify verifier authority = .ok () →
          b.signingPayload = .ok (signedOver a.signature) →
          { a with signature := b.signature } = b) ∧
        (∀ (a b : ValidatedAppendResponse isJson sha256) verified,
          Set.InjOn sha256 (a.hashed ∪ b.hashed) → a.verify verifier = .ok verified →
          b.signingPayload = .ok (signedOver a.response.attestation.signature) →
          a.batch = b.batch ∧ a.responseSigned b.response.attestation.signature = b.response) ∧
        ∀ (a b : ValidatedPullPage isJson sha256) policy verified,
          Set.InjOn sha256 (a.hashed ∪ b.hashed) → a.verify verifier policy = .ok verified →
          b.signingPayload = .ok (signedOver a.page.attestation.signature) →
          a.request = b.request ∧ a.pageSigned b.page.attestation.signature = b.page := by
  refine ⟨?_, ?_, ?_, ?_, ?_, ?_, ?_⟩
  . exact fun _ _ _ => Receipt.signingPayload_inj
  . exact fun _ _ _ => ValidatedAppendResponse.signingPayload_inj
  . exact fun _ _ _ => ValidatedPullPage.signingPayload_inj
  . exact fun _ _ _ => append_ne_receipt
  . exact fun _ _ _ => page_ne_receipt
  . exact fun _ _ _ => page_ne_append
  . intro verifier signedOver hunforged
    refine ⟨?_, ?_, ?_⟩
    . intro a b authority ha hb
      exact Receipt.signingPayload_inj (Receipt.signed_of_verify hunforged ha) hb
    . intro a b verified hsha ha hb
      exact ValidatedAppendResponse.signingPayload_inj hsha
        (ValidatedAppendResponse.signed_of_verify hunforged ha) hb
    . intro a b policy verified hsha ha hb
      exact ValidatedPullPage.signingPayload_inj hsha
        (ValidatedPullPage.signed_of_verify hunforged ha) hb

def sampleEnvelope (n : Nat) : EventEnvelope :=
  { protocol := protocolV2
    clientEventId := "01890f3e-9b4a-7cc0-8a1a-01234567890" ++ n.repr
    streamId := "project:alpha"
    schemaVersion := 1
    kind := "app_task_added"
    payload := "null"
    localSeq := UInt64.ofNat n
    localPrevHash := emptyStreamHash
    localHash := emptyStreamHash
    causalParents := []
    createdAt := "2026-07-15T20:00:00Z" }

def sampleHash (n : Nat) : String :=
  String.ofList (List.replicate 64 (if n = 0 then '0' else if n = 1 then 'a' else 'b'))

def sampleEvent (n : Nat) : AcceptedEvent where
  envelope := sampleEnvelope n
  receipt :=
    { clientEventId := (sampleEnvelope n).clientEventId
      streamId := "project:alpha"
      envelopeHash := ((sampleEnvelope n).wireHash (fun _ => true) sha256Digest).toOption.getD ""
      serverSeq := UInt64.ofNat n
      serverHash := sampleHash n
      serverPrevHash := sampleHash (n - 1)
      journalHead := sampleHash n
      committedAt := "2026-07-15T20:00:00Z"
      keyId := "key-1"
      signature := "AAAAAAAAAAAAAAAA" }

def sampleBatch : AppendBatch :=
  { protocol := protocolV2
    batchId := "01890f3e-9b4a-7cc1-8a1a-0123456789ab"
    streamId := "project:alpha"
    expectedCursor := .genesis
    events := [sampleEnvelope 1] }

def answerAs (authorityId : AuthorityId) (signature : String) : AppendResponse :=
  { protocol := protocolV2
    batchId := sampleBatch.batchId
    streamId := sampleBatch.streamId
    receipts := [(sampleEvent 1).receipt]
    nextCursor := ⟨1, sampleHash 1⟩
    attestation :=
      { authorityId
        committedAt := "2026-07-15T20:00:00Z"
        keyId := "key-1"
        signature } }

-- accepts a signature for the bytes it was made over
def signedOnly (signedOver : String → List UInt8) : ReceiptVerifier := fun _ payload signature =>
  if payload = signedOver signature then .ok hyphaeAuthority else .error .invalidSignature

def appendedAs (signature : String)
    (valid : (answerAs hyphaeAuthority signature).validateAgainst (fun _ => true) sha256Digest sampleBatch = .ok ())
    : ValidatedAppendResponse (fun _ => true) sha256Digest :=
  ⟨sampleBatch, answerAs hyphaeAuthority signature, valid⟩

-- One event appended: the attestation verifies, and the signature is that of no other batch or response.
theorem signed_payloads_bind_append
    : ∃ (a b : ValidatedAppendResponse (fun _ => true) sha256Digest) (signedOver : String → List UInt8)
        (verified : AppendResponse × AuthorityId),
        a.batch.events.length = 1 ∧ a.response.receipts.length = 1 ∧ a.response ≠ b.response ∧
        Unforged (signedOnly signedOver) signedOver ∧ a.verify (signedOnly signedOver) = .ok verified ∧
        b.signingPayload = .ok (signedOver a.response.attestation.signature) ∧
        a.batch = b.batch ∧ a.responseSigned b.response.attestation.signature = b.response := by
  let a := appendedAs "BBBBBBBBBBBBBBBB" (by decide +kernel)
  let b := appendedAs "CCCCCCCCCCCCCCCC" (by decide +kernel)
  let receipt := (sampleEvent 1).receipt
  let signedOver := fun signature =>
    if signature = receipt.signature then receipt.signingPayload.toOption.getD [] else a.signingPayload.toOption.getD []
  have hunforged : Unforged (signedOnly signedOver) signedOver := by
    intro context payload signature authority h
    unfold signedOnly at h
    split at h
    . assumption
    . cases h
  have hverified : (a.verify (signedOnly signedOver)).isOk = true := by decide +kernel
  have hsame : b.signingPayload = a.signingPayload := rfl
  have hapart : (sampleEnvelope 1).wireHash (fun _ => true) sha256Digest
      ≠ acceptedEventsHash (fun _ => true) sha256Digest [sampleEvent 1] := by
    decide +kernel
  have hsha : Set.InjOn sha256Digest (a.hashed ∪ b.hashed) := by
    have hhashed : ∀ q ∈ a.hashed ∪ b.hashed, (sampleEnvelope 1).wirePreimage (fun _ => true) = .ok q ∨
        acceptedEventsPreimage (fun _ => true) sha256Digest [sampleEvent 1] = .ok q := by
      rintro q ((⟨accepted, hmem, hq⟩ | hq) | (⟨accepted, hmem, hq⟩ | hq))
      . cases List.mem_singleton.mp hmem
        exact .inl hq
      . exact .inr hq
      . cases List.mem_singleton.mp hmem
        exact .inl hq
      . exact .inr hq
    have hne : ∀ {w q}, (sampleEnvelope 1).wirePreimage (fun _ => true) = .ok w →
        acceptedEventsPreimage (fun _ => true) sha256Digest [sampleEvent 1] = .ok q →
        sha256Digest w ≠ sha256Digest q := by
      intro w q hw hq hdigest
      unfold EventEnvelope.wireHash acceptedEventsHash at hapart
      rw [hw, hq] at hapart
      exact hapart (congrArg (fun digest => Except.ok (hex digest)) hdigest)
    intro q hq r hr hdigest
    rcases hhashed q hq with hwire | hevents <;> rcases hhashed r hr with hwire' | hevents'
    . exact Except.ok.inj (hwire.symm.trans hwire')
    . exact absurd hdigest (hne hwire hevents')
    . exact absurd hdigest.symm (hne hwire' hevents)
    . exact Except.ok.inj (hevents.symm.trans hevents')
  cases hverify : a.verify (signedOnly signedOver) with
  | error error =>
    rw [hverify] at hverified
    cases hverified
  | ok verified =>
    have hsigned := hsame.trans (ValidatedAppendResponse.signed_of_verify hunforged hverify)
    obtain ⟨-, -, -, -, -, -, hbinds⟩ := signed_payloads_bind (fun _ => true) sha256Digest
    obtain ⟨hbatch, hresponse⟩ := (hbinds _ _ hunforged).2.1 a b verified hsha hverify hsigned
    exact ⟨a, b, signedOver, verified, rfl, rfl, by decide +kernel, hunforged, hverify, hsigned, hbatch, hresponse⟩

end Hyphae

end Pliego
