import Pliego.Hyphae.Wire
import Pliego.Log.CanonicalValue
import Pliego.Log.Chain

/-!
The event grammars of `pliego-log` and `pliego-hyphae` side by side.
-/

namespace Pliego

open Bytes JsonText

namespace Hyphae

variable {isJson : String → Bool} {sha256 : Sha256}

structure KindFits (kind : String) : Prop where
  length_le : (utf8 kind).length ≤ 96
  head : (utf8 kind)[4]? ≠ some 95
  last : (utf8 kind).getLast? ≠ some 95

def kindByte (byte : UInt8) : Bool := isAsciiLowercase byte || isAsciiDigit byte || byte == 95

theorem kind_parts {kind : String} {suffix : List UInt8} (h : utf8 kind = utf8 "app_" ++ suffix)
    : (utf8 kind).length = suffix.length + 4 ∧ (utf8 kind).take 4 = utf8 "app_" ∧
        (utf8 kind).drop 4 = suffix := by
  rw [h, List.length_append, Nat.add_comm]
  exact ⟨rfl, List.take_left' rfl, List.drop_left' rfl⟩

theorem validateKind_log {kind : String} {suffix : List UInt8} (h : utf8 kind = utf8 "app_" ++ suffix)
    : Pliego.validateKind kind = .ok () ↔
        suffix ≠ [] ∧ suffix.length + 4 ≤ maxKindBytes ∧ suffix.all kindByte = true := by
  obtain ⟨hlen, htake, hdrop⟩ := kind_parts h
  unfold Pliego.validateKind
  dsimp only
  rw [hlen, htake, hdrop, if_neg (not_not.mpr rfl)]
  cases suffix with
  | nil => decide
  | cons first rest =>
    change (if _ then _ else if (false || !(first :: rest).all kindByte) = true then _ else _) = _ ↔ _
    rw [List.length_cons]
    by_cases hmax : rest.length + 1 + 4 ≤ maxKindBytes
    . cases (first :: rest).all kindByte <;> simp [hmax]
    . simp [hmax]

theorem validateKind_envelope {kind : String} {suffix : List UInt8} (h : utf8 kind = utf8 "app_" ++ suffix)
    : validateKind kind = .ok () ↔
        suffix ≠ [] ∧ suffix.length + 4 ≤ 96 ∧ suffix.head? ≠ some 95 ∧
        suffix.getLast? ≠ some 95 ∧ suffix.all kindByte = true := by
  obtain ⟨hlen, htake, hdrop⟩ := kind_parts h
  unfold validateKind
  dsimp only
  rw [hlen, htake, hdrop, if_pos rfl, ensure_eq_ok]
  simp only [Bool.and_eq_true, Bool.not_eq_true', List.isEmpty_eq_false_iff, decide_eq_true_eq,
    bne_iff_ne, and_assoc]
  rfl

theorem validateKind_iff {kind : String}
    : validateKind kind = .ok () ↔ Pliego.validateKind kind = .ok () ∧ KindFits kind := by
  by_cases happ : (utf8 kind).take 4 = utf8 "app_"
  . obtain ⟨suffix, h⟩ : ∃ suffix, utf8 kind = utf8 "app_" ++ suffix :=
      ⟨(utf8 kind).drop 4, by rw [← happ, List.take_append_drop]⟩
    rw [validateKind_envelope h, validateKind_log h]
    have hmax : maxKindBytes = 128 := rfl
    have hlen := (kind_parts h).1
    have hhead : (utf8 kind)[4]? = suffix.head? := by
      rw [h, List.getElem?_append_right (Nat.le_refl 4), List.head?_eq_getElem?]
      rfl
    constructor
    . rintro ⟨hne, hle, hfirst, hlast, hall⟩
      refine ⟨⟨hne, by omega, hall⟩, ⟨by omega, hhead ▸ hfirst, ?_⟩⟩
      rw [h, List.getLast?_append_of_ne_nil _ hne]
      exact hlast
    . rintro ⟨⟨hne, hle, hall⟩, hfits⟩
      have hlength := hfits.length_le
      refine ⟨hne, by omega, hhead ▸ hfits.head, ?_, hall⟩
      have hlast := hfits.last
      rw [h, List.getLast?_append_of_ne_nil _ hne] at hlast
      exact hlast
  . constructor
    . intro h
      unfold validateKind at h
      dsimp only at h
      rw [if_neg happ] at h
      cases h
    . rintro ⟨h, -⟩
      unfold Pliego.validateKind at h
      dsimp only at h
      rw [if_pos happ] at h
      split at h <;> cases h

theorem appendTyped_event {T : Type} {schema : EventSchema T} {payload : T} {log log' : Log}
    {event : Event} (h : log.appendTyped sha256 schema payload = .ok log')
    (hlast : log'.events.getLast? = some event)
    : schema.serialize payload = .ok event.payload ∧ Pliego.validateKind event.kind = .ok () ∧
        validVersion event.schemaVersion = true := by
  unfold Log.appendTyped at h
  split at h
  . cases h
  . split at h
    . cases h
    . next canonical hserialize =>
      split at h
      . cases h
      . split at h
        . cases h
        . unfold Log.appendCanonical at h
          split at h
          . cases h
          . next hkind =>
            split at h
            . cases h
            . next hversion =>
              split at h
              . cases h
              . cases h
                rw [List.getLast?_concat] at hlast
                cases hlast
                rw [Bool.not_eq_true, Bool.not_eq_false'] at hversion
                exact ⟨hserialize, hkind, hversion⟩

theorem utf8_of_asStr {json : CanonicalJson} {text : String} (h : json.asStr = some text)
    : utf8 text = json.bytes := by
  unfold CanonicalJson.asStr String.fromUTF8? at h
  split at h
  . cases h
    simp [utf8, String.fromUTF8]
  . cases h

theorem asStr_of_utf8 {json : CanonicalJson} {text : String} (h : json.bytes = utf8 text)
    : json.asStr = some text := by
  have hbytes : (⟨json.bytes.toArray⟩ : ByteArray) = text.toByteArray := by
    rw [h]
    unfold utf8
    rw [Array.toArray_toList]
  unfold CanonicalJson.asStr String.fromUTF8?
  rw [hbytes, dif_pos]
  rfl

-- `serde_json::from_str::<Value>`.
def readsValue (serde : SerdeJson) (text : String) : Bool := (serde.fromSlice (utf8 text)).isOk

theorem asStr_of_parse {serde : SerdeJson} {raw : List UInt8} {json : CanonicalJson}
    (hserde : CanonicalJson.Lawful serde) (h : CanonicalJson.parse serde raw = .ok json)
    : ∃ text, json.asStr = some text ∧ readsValue serde text = true := by
  obtain ⟨value, hadmitted⟩ := (CanonicalJson.parse_ok hserde).mp h
  have hcanonical := hadmitted.canonical hserde
  obtain ⟨chars, hchars, -⟩ := hadmitted.reads hserde
  refine ⟨String.ofList chars, asStr_of_utf8 hchars, ?_⟩
  unfold readsValue
  rw [← hchars, hserde.fromSlice json.bytes _ hcanonical.visit hcanonical.unique hcanonical.unreserved]
  rfl

-- The documents that the log takes: no key twice in an object, none of them reserved, and neither too many values
-- nor too many levels, nor too many bytes when the numbers are spelled canonically.
structure PayloadFits (serde : SerdeJson) (value : Value) : Prop where
  unique : value.Every UniqueNames
  unreserved : value.Every (Unnamed serdeArbitraryPrecisionNumberKey)
  nodes : value.values.length ≤ maxJsonNodes
  levels : value.levels ≤ maxJsonDepth
  length : (write serde.quote (value.normal CanonicalJson.canonicalLexeme)).length ≤ maxJsonBytes

theorem parse_isOk_iff {serde : SerdeJson} {raw : List UInt8} (hserde : CanonicalJson.Lawful serde)
    (hlength : raw.length ≤ maxJsonBytes)
    : (∃ json, CanonicalJson.parse serde raw = .ok json) ↔ ∃ value, Reads raw value ∧ PayloadFits serde value := by
  constructor
  . rintro ⟨json, h⟩
    obtain ⟨value, hadmitted⟩ := (CanonicalJson.parse_ok hserde).mp h
    refine ⟨value, hserde.sound raw value hadmitted.visit, hadmitted.unique, hadmitted.unreserved, hadmitted.nodes,
      hadmitted.levels, ?_⟩
    rw [← hadmitted.bytes]
    exact json.length_le
  . rintro ⟨value, hreads, hfits⟩
    have hvisit := hserde.complete raw value hreads (lt_of_le_of_lt hfits.levels (by decide))
    exact ⟨⟨_, hfits.length⟩, (CanonicalJson.parse_ok hserde).mpr
      ⟨value, hlength, hvisit, hfits.unique, hfits.unreserved, hfits.nodes, hfits.levels, rfl⟩⟩

structure Fits (event : Event) : Prop where
  kind : KindFits event.kind
  payload : event.payload.bytes.length ≤ maxEventPayloadBytes

theorem fromLocalEvent_ok {event : Event} {text clientEventId streamId createdAt : String}
    (htext : event.payload.asStr = some text) (hversion : validVersion event.schemaVersion = true)
    (hid : validateClientEventId clientEventId = .ok ()) (hstream : validateStreamId streamId = .ok ())
    (hcreated : validateTimestamp createdAt = .ok ())
    : (∃ envelope, EventEnvelope.fromLocalEvent isJson event clientEventId streamId createdAt
        = some (.ok envelope)) ↔
      validateKind event.kind = .ok () ∧ event.payload.bytes.length ≤ maxEventPayloadBytes ∧
        isJson text = true := by
  have hne : (UInt32.ofNat event.schemaVersion != 0) = true := by
    unfold validVersion maxSchemaVersion at hversion
    rw [Bool.and_eq_true, decide_eq_true_eq, decide_eq_true_eq] at hversion
    rw [bne_iff_ne]
    intro h
    have := congrArg UInt32.toNat h
    rw [UInt32.toNat_ofNat', UInt32.toNat_zero] at this
    omega
  have hprotocol : ensureProtocol protocolV2 = .ok () := by decide
  unfold EventEnvelope.fromLocalEvent
  rw [htext, Option.map_some, ← utf8_of_asStr htext]
  simp only [Option.some.injEq, Except.bind_unit_eq_ok, EventEnvelope.validate, hprotocol, hid, hstream,
    hne, hcreated, validateHash_hex, ensure_eq_ok, decide_eq_true_eq, List.length_nil, Nat.zero_le,
    EventEnvelope.validateParents, true_and, and_true]
  constructor
  . rintro ⟨envelope, h, -⟩
    exact h
  . intro h
    exact ⟨_, h, rfl⟩

theorem validate_parts {envelope : EventEnvelope} (h : envelope.validate isJson = .ok ())
    : validateKind envelope.kind = .ok () ∧ envelope.schemaVersion ≠ 0 ∧
        (utf8 envelope.payload).length ≤ maxEventPayloadBytes := by
  simp only [EventEnvelope.validate, Except.bind_unit_eq_ok, ensure_eq_ok, decide_eq_true_eq, bne_iff_ne] at h
  obtain ⟨-, -, -, hversion, hkind, hpayload, -⟩ := h
  exact ⟨hkind, hversion, hpayload⟩

theorem appendCanonical_isOk {kind : String} {version : Nat} {payload : CanonicalJson} {log : Log}
    (hkind : Pliego.validateKind kind = .ok ()) (hversion : validVersion version = true) (hlen : log.len < 2 ^ 64)
    : ∃ log', log.appendCanonical sha256 kind version payload = .ok log' := by
  have hlen' : log.events.length < 2 ^ 64 := hlen
  unfold Log.appendCanonical seqOfLen
  rw [hkind, hversion, if_pos hlen']
  exact ⟨_, rfl⟩

/--
An event that `append_typed` admits can be wrapped if and only if its kind and its payload fit. The kind of an
envelope is always one of the log, its version is if it is not above the log's greatest, and its payload is if it
fits the log's bounds for documents.
-/
theorem log_sync_grammar (serde : SerdeJson) (sha256 : Sha256) (hserde : CanonicalJson.Lawful serde)
    : (∀ {T : Type} (schema : EventSchema T) (payload : T) (log log' : Log) (event : Event)
        (clientEventId streamId createdAt : String),
        (∀ value canonical, schema.serialize value = .ok canonical →
          ∃ raw, CanonicalJson.parse serde raw = .ok canonical) →
        log.appendTyped sha256 schema payload = .ok log' → log'.events.getLast? = some event →
        validateClientEventId clientEventId = .ok () → validateStreamId streamId = .ok () →
        validateTimestamp createdAt = .ok () →
        ((∃ envelope, EventEnvelope.fromLocalEvent (readsValue serde) event clientEventId streamId createdAt
          = some (.ok envelope)) ↔ Fits event)) ∧
      ∀ envelope : EventEnvelope, envelope.validate (readsValue serde) = .ok () →
        Pliego.validateKind envelope.kind = .ok () ∧
        (validVersion envelope.schemaVersion.toNat = true ↔
          envelope.schemaVersion.toNat ≤ maxSchemaVersion) ∧
        ((∃ canonical, CanonicalJson.parse serde (utf8 envelope.payload) = .ok canonical) ↔
          ∃ value, Reads (utf8 envelope.payload) value ∧ PayloadFits serde value) ∧
        ∀ (log : Log) canonical, log.len < 2 ^ 64 →
          CanonicalJson.parse serde (utf8 envelope.payload) = .ok canonical →
          envelope.schemaVersion.toNat ≤ maxSchemaVersion →
          ∃ log', log.appendCanonical sha256 envelope.kind envelope.schemaVersion.toNat canonical
            = .ok log' := by
  refine ⟨?_, ?_⟩
  . intro T schema payload log log' event clientEventId streamId createdAt hschema happend hlast hid
      hstream hcreated
    obtain ⟨hserialize, hkind, hversion⟩ := appendTyped_event happend hlast
    obtain ⟨raw, hraw⟩ := hschema payload event.payload hserialize
    obtain ⟨text, htext, hreads⟩ := asStr_of_parse hserde hraw
    rw [fromLocalEvent_ok htext hversion hid hstream hcreated, validateKind_iff]
    constructor
    . rintro ⟨⟨-, hfits⟩, hpayload, -⟩
      exact ⟨hfits, hpayload⟩
    . rintro ⟨hfits, hpayload⟩
      exact ⟨⟨hkind, hfits⟩, hpayload, hreads⟩
  . intro envelope h
    obtain ⟨hkind, hversion, hpayload⟩ := validate_parts h
    have hlog := (validateKind_iff.mp hkind).1
    have hpositive : 1 ≤ envelope.schemaVersion.toNat := by
      rw [Nat.one_le_iff_ne_zero]
      intro hzero
      exact hversion (UInt32.toNat_inj.mp hzero)
    have hvalid : validVersion envelope.schemaVersion.toNat = true ↔
        envelope.schemaVersion.toNat ≤ maxSchemaVersion := by
      unfold validVersion
      rw [decide_eq_true hpositive, Bool.true_and, decide_eq_true_eq]
    refine ⟨hlog, hvalid, parse_isOk_iff hserde (hpayload.trans (by decide)), ?_⟩
    intro log canonical hlen _ hle
    exact appendCanonical_isOk hlog (hvalid.mpr hle) hlen

def nullJson : CanonicalJson := ⟨utf8 "null", by decide⟩

def taskSchema (kind : String) : EventSchema Unit where
  kind := kind
  version := 1
  schemaId := "task/1"
  serialize _ := .ok nullJson
  deserialize _ := .ok ()
  eq _ _ := true

def taskLog (kind : String) : Except LogError Log :=
  Log.new.appendTyped sha256Digest (taskSchema kind) ()

theorem taskLog_ok (kind : String) (h : Pliego.validateKind kind = .ok ())
    : ∃ log event, taskLog kind = .ok log ∧ log.events.getLast? = some event ∧ event.kind = kind ∧
        event.payload = nullJson := by
  have hid : validateContractId "task/1" = .ok () := by decide
  have hschema : validateSchema (taskSchema kind) = .ok () := by
    unfold validateSchema taskSchema
    rw [h]
    dsimp only
    rw [hid]
    rfl
  unfold taskLog Log.appendTyped
  rw [hschema]
  dsimp only [taskSchema]
  unfold Log.appendCanonical
  rw [h]
  exact ⟨_, _, rfl, rfl, rfl, rfl⟩

open CanonicalJson (grammarSerde grammarSerde_lawful quoteText isLiteral_quoteText)

theorem null_proper : Value.null.Every ProperNumber := by
  intro part hpart lexeme hlexeme
  subst hlexeme
  rcases List.mem_singleton.mp hpart with ⟨⟩

theorem parse_null : CanonicalJson.parse grammarSerde (utf8 "null") = .ok nullJson := by
  apply @CanonicalJson.parse_write .null nullJson null_proper
  all_goals decide

-- The event of an ordinary kind fits and is wrapped.
theorem log_sync_grammar_task
    : ∃ log event, taskLog "app_task_added" = .ok log ∧ log.events.getLast? = some event ∧
        ∃ envelope, EventEnvelope.fromLocalEvent (readsValue grammarSerde) event
          "01890f3e-9b4a-7cc0-8a1a-0123456789ab" "project:alpha" "2026-07-15T20:00:00Z"
          = some (.ok envelope) := by
  have hschema : ∀ value canonical, (taskSchema "app_task_added").serialize value = .ok canonical →
      ∃ raw, CanonicalJson.parse grammarSerde raw = .ok canonical := by
    rintro value canonical ⟨⟩
    exact ⟨utf8 "null", parse_null⟩
  obtain ⟨log, event, happend, hevent, hkind, hpayload⟩ :=
    taskLog_ok "app_task_added" (by decide)
  refine ⟨log, event, happend, hevent, ?_⟩
  apply ((log_sync_grammar grammarSerde sha256Digest grammarSerde_lawful).1 (taskSchema "app_task_added") ()
    Log.new log event _ _ _ hschema happend hevent (by decide) (by decide)
    (by decide)).mpr
  refine ⟨⟨?_, ?_, ?_⟩, ?_⟩
  . rw [hkind]
    decide
  . rw [hkind]
    decide
  . rw [hkind]
    decide
  . rw [hpayload]
    decide

def grammarEnvelope (version : UInt32) (payload : String) : EventEnvelope :=
  { protocol := protocolV2
    clientEventId := "01890f3e-9b4a-7cc0-8a1a-0123456789ab"
    streamId := "project:alpha"
    schemaVersion := version
    kind := "app_task_added"
    payload
    localSeq := 0
    localPrevHash := emptyStreamHash
    localHash := emptyStreamHash
    causalParents := []
    createdAt := "2026-07-15T20:00:00Z" }

def repeatedKey : Value := .object [("a", .null), ("a", .null)]

theorem reads_repeatedKey : Reads (write quoteText repeatedKey) repeatedKey := by
  apply reads_write isLiteral_quoteText
  intro part hpart lexeme hlexeme
  subst hlexeme
  simp [repeatedKey, Value.values, membersValues] at hpart

theorem validate_grammar {version : UInt32} {payload : String} {value : Value} (hreads : Reads (utf8 payload) value)
    (hlevels : value.levels < 128) (h : (grammarEnvelope version payload).validate (fun _ => true) = .ok ())
    : (grammarEnvelope version payload).validate (readsValue grammarSerde) = .ok () := by
  have hreads' : readsValue grammarSerde payload = true := by
    have hexists : ∃ value, Reads (utf8 payload) value ∧ value.levels < 128 := ⟨value, hreads, hlevels⟩
    unfold readsValue grammarSerde
    dsimp only
    rw [dif_pos hexists]
    rfl
  have hsame : (grammarEnvelope version payload).validate (readsValue grammarSerde)
      = (grammarEnvelope version payload).validate (fun _ => readsValue grammarSerde payload) := rfl
  rw [hsame, hreads']
  exact h

/--
The log admits a kind that ends with an underscore, which no envelope has; an envelope has a version or a repeated
key that the log refuses.
-/
theorem log_and_sync_differ
    : (∃ log event, taskLog "app_task_" = .ok log ∧ log.events.getLast? = some event ∧
        ∀ isJson clientEventId streamId createdAt envelope,
          EventEnvelope.fromLocalEvent isJson event clientEventId streamId createdAt
            ≠ some (.ok envelope)) ∧
      ((grammarEnvelope 4097 "null").validate (readsValue grammarSerde) = .ok () ∧ validVersion 4097 = false) ∧
      ∃ payload, (grammarEnvelope 1 payload).validate (readsValue grammarSerde) = .ok () ∧
        ∀ json, CanonicalJson.parse grammarSerde (utf8 payload) ≠ .ok json := by
  have hnull : Reads (utf8 "null") .null := reads_write isLiteral_quoteText null_proper
  refine ⟨?_, ⟨validate_grammar hnull (by decide) (by decide), by decide⟩,
    "\x7b\"a\":null,\"a\":null\x7d", validate_grammar reads_repeatedKey (by decide) (by decide), ?_⟩
  . obtain ⟨log, event, happend, hevent, hkind, -⟩ := taskLog_ok "app_task_" (by decide)
    refine ⟨log, event, happend, hevent, ?_⟩
    intro isJson clientEventId streamId createdAt envelope h
    obtain ⟨text, -, h⟩ := Option.map_eq_some_iff.mp h
    obtain ⟨⟨⟩, hvalid, -⟩ := Except.bind_eq_ok.mp h
    have hrefused : validateKind event.kind = .ok () := (validate_parts hvalid).1
    rw [hkind] at hrefused
    exact absurd hrefused (by decide)
  . intro json hjson
    obtain ⟨value, hreads, hfits⟩ := (parse_isOk_iff grammarSerde_lawful (by decide)).mp ⟨json, hjson⟩
    rw [hreads.unique reads_repeatedKey] at hfits
    have hunique := CanonicalJson.duplicate_eq_none.mpr hfits.unique
    cases hunique

end Hyphae

end Pliego
