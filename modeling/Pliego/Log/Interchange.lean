import Pliego.Log.CanonicalValue
import Pliego.Log.Chain

/-!
Export and import of logs: what was appended comes back as it was, and exactly the valid chains are imported.
-/

namespace Pliego

-- `written` is what `serde_json` writes for a value, up to the limit of the writer.
def CanonicalJson.fromSerialize (serde : SerdeJson) (written : Except CanonicalJsonError (List UInt8))
    : Except CanonicalJsonError CanonicalJson :=
  match written with
  | .error error => .error error
  | .ok bytes => CanonicalJson.parse serde bytes

def EventSchema.Writes (serde : SerdeJson) (schema : EventSchema T) : Prop :=
  ∃ written : T → Except CanonicalJsonError (List UInt8),
    ∀ payload, schema.serialize payload = CanonicalJson.fromSerialize serde (written payload)

def Event.raw (event : Event) : RawEvent where
  seq := event.seq
  kind := event.kind
  schemaVersion := event.schemaVersion
  payloadJson := event.payload.bytes
  prevHash := event.prevHash
  hash := event.hash

def RawEvent.event (raw : RawEvent) (payload : CanonicalJson) : Event where
  seq := raw.seq
  kind := raw.kind
  schemaVersion := raw.schemaVersion
  payload := payload
  prevHash := raw.prevHash
  hash := raw.hash

namespace Log

-- The logs of `append_typed` calls.
inductive Appended (sha256 : Sha256) (serde : SerdeJson) : Log → Prop where
  | new : Appended sha256 serde Log.new
  | append {T : Type} {log longer : Log} (schema : EventSchema T) (payload : T) (hwrites : schema.Writes serde)
    (hlog : Appended sha256 serde log) (happend : log.appendTyped sha256 schema payload = .ok longer)
    : Appended sha256 serde longer

structure Continues (sha256 : Sha256) (serde : SerdeJson) (index : Nat) (previous : Hash) (raw : RawEvent)
    (payload : CanonicalJson) : Prop where
  kind : (validateKind raw.kind).isOk = true
  version : 1 ≤ raw.schemaVersion ∧ raw.schemaVersion ≤ maxSchemaVersion
  seq : raw.seq = index
  word : raw.seq < 2 ^ 64
  linked : raw.prevHash = previous
  parsed : CanonicalJson.parse serde raw.payloadJson = .ok payload
  hashed : raw.hash = eventHash sha256 (raw.event payload)

def Imports (sha256 : Sha256) (serde : SerdeJson) (index : Nat) (previous : Hash) (raws : List RawEvent)
    (payloads : List CanonicalJson) : Prop :=
  match raws, payloads with
  | [], [] => True
  | raw :: raws, payload :: payloads =>
    Continues sha256 serde index previous raw payload ∧ Imports sha256 serde (index + 1) raw.hash raws payloads
  | _, _ => False

def preceding (previous : Hash) (raws : List RawEvent) (index : Nat) : Hash :=
  match index with
  | 0 => previous
  | index + 1 => (raws[index]?.map (fun raw => raw.hash)).getD previous

section Import

variable {sha256 : Sha256} {serde : SerdeJson} {index : Nat} {previous : Hash} {raws : List RawEvent}

theorem validVersion_iff {version : Nat} : validVersion version = true ↔ 1 ≤ version ∧ version ≤ maxSchemaVersion := by
  unfold validVersion
  rw [Bool.and_eq_true, decide_eq_true_eq, decide_eq_true_eq]

theorem importRaw_go_cons {admitted : List Event} {log : Log} {raw : RawEvent}
    : importRaw.go sha256 (CanonicalJson.parse serde) admitted previous (raw :: raws) = .ok log
      ↔ ∃ payload, Continues sha256 serde admitted.length previous raw payload
        ∧ importRaw.go sha256 (CanonicalJson.parse serde) (admitted ++ [raw.event payload]) raw.hash raws = .ok log := by
  rw [importRaw.go.eq_def]
  dsimp only
  constructor
  . intro h
    split at h
    . cases h
    . next hkind =>
      split at h
      . cases h
      . next hversion =>
        split at h
        . cases h
        . next expectedSeq hseq =>
          obtain ⟨hword, rfl⟩ := seqOfLen_eq_ok hseq
          split at h
          . cases h
          . next hlink =>
            rw [Bool.or_eq_true, decide_eq_true_eq, decide_eq_true_eq, not_or, not_not, not_not] at hlink
            split at h
            . cases h
            . next payload hparse =>
              split at h
              . cases h
              . next hhash =>
                rw [not_not] at hhash
                refine ⟨payload, ⟨?_, ?_, hlink.1, hlink.1 ▸ hword, hlink.2, hparse, hhash⟩, h⟩
                . rw [hkind]
                  rfl
                . rw [← validVersion_iff]
                  simpa using hversion
  . intro h
    obtain ⟨payload, hcontinues, h⟩ := h
    have hkind : validateKind raw.kind = .ok () := by
      have hok := hcontinues.kind
      cases hvalid : validateKind raw.kind with
      | error reason =>
        rw [hvalid] at hok
        cases hok
      | ok done => rfl
    have hseq : seqOfLen admitted.length = .ok admitted.length := if_pos (hcontinues.seq ▸ hcontinues.word)
    rw [hkind]
    dsimp only
    rw [validVersion_iff.mpr hcontinues.version, hseq]
    dsimp only
    rw [Bool.not_true, if_neg Bool.false_ne_true, if_neg, hcontinues.parsed]
    . dsimp only
      exact (if_neg (not_not.mpr hcontinues.hashed)).trans h
    . rw [Bool.or_eq_true, decide_eq_true_eq, decide_eq_true_eq, not_or, not_not, not_not]
      exact ⟨hcontinues.seq, hcontinues.linked⟩

theorem importRaw_go_ok {admitted : List Event} {log : Log}
    : importRaw.go sha256 (CanonicalJson.parse serde) admitted previous raws = .ok log
      ↔ ∃ payloads, Imports sha256 serde admitted.length previous raws payloads
        ∧ log.events = admitted ++ List.zipWith RawEvent.event raws payloads := by
  induction raws generalizing admitted previous with
  | nil =>
    unfold importRaw.go
    constructor
    . intro h
      cases h
      exact ⟨[], trivial, (List.append_nil _).symm⟩
    . intro h
      obtain ⟨payloads, himports, hevents⟩ := h
      cases payloads with
      | nil =>
        rw [List.zipWith_nil_left, List.append_nil] at hevents
        rw [← hevents]
      | cons payload rest => exact himports.elim
  | cons raw rest ih =>
    rw [importRaw_go_cons]
    constructor
    . intro h
      obtain ⟨payload, hcontinues, h⟩ := h
      obtain ⟨payloads, himports, hevents⟩ := ih.mp h
      rw [List.length_append] at himports
      refine ⟨payload :: payloads, ⟨hcontinues, himports⟩, ?_⟩
      rw [List.zipWith_cons_cons, hevents, List.append_assoc, List.singleton_append]
    . intro h
      obtain ⟨payloads, himports, hevents⟩ := h
      cases payloads with
      | nil => exact himports.elim
      | cons payload payloads =>
        refine ⟨payload, himports.1, ih.mpr ⟨payloads, ?_, ?_⟩⟩
        . rw [List.length_append]
          exact himports.2
        . rw [hevents, List.zipWith_cons_cons, List.append_assoc, List.singleton_append]

theorem preceding_cons {raw : RawEvent} {position : Nat} (hposition : position < raws.length)
    : preceding previous (raw :: raws) (position + 1) = preceding raw.hash raws position := by
  cases position with
  | zero => rfl
  | succ position =>
    have hbefore : position < raws.length := by omega
    unfold preceding
    dsimp only
    rw [List.getElem?_cons_succ, List.getElem?_eq_getElem hbefore]
    rfl

theorem imports_iff
    : (∃ payloads, Imports sha256 serde index previous raws payloads)
      ↔ ∀ position raw, raws[position]? = some raw
        → ∃ payload, Continues sha256 serde (index + position) (preceding previous raws position) raw payload := by
  induction raws generalizing index previous with
  | nil => exact ⟨fun _ => nofun, fun _ => ⟨[], trivial⟩⟩
  | cons raw rest ih =>
    constructor
    . intro h
      obtain ⟨payloads, himports⟩ := h
      cases payloads with
      | nil => exact himports.elim
      | cons payload payloads =>
        intro position later hlater
        cases position with
        | zero =>
          cases hlater
          exact ⟨payload, himports.1⟩
        | succ position =>
          rw [List.getElem?_cons_succ] at hlater
          obtain ⟨hposition, -⟩ := List.getElem?_eq_some_iff.mp hlater
          have hcontinues := ih.mp ⟨payloads, himports.2⟩ position later hlater
          rw [← @preceding_cons previous rest raw position hposition, Nat.add_right_comm] at hcontinues
          exact hcontinues
    . intro h
      obtain ⟨payload, hcontinues⟩ := h 0 raw rfl
      have hrest : ∃ payloads, Imports sha256 serde (index + 1) raw.hash rest payloads := by
        apply ih.mpr
        intro position later hlater
        obtain ⟨hposition, -⟩ := List.getElem?_eq_some_iff.mp hlater
        rw [← @preceding_cons previous rest raw position hposition, Nat.add_right_comm]
        exact h (position + 1) later hlater
      obtain ⟨payloads, himports⟩ := hrest
      exact ⟨payload :: payloads, hcontinues, himports⟩

theorem imports_raw {events : List Event} (hchained : Chained sha256 index previous events)
    (hcanonical : ∀ event ∈ events, CanonicalJson.parse serde event.payload.bytes = .ok event.payload)
    : Imports sha256 serde index previous (events.map Event.raw) (events.map (fun event => event.payload)) := by
  induction events generalizing index previous with
  | nil => trivial
  | cons event rest ih =>
    obtain ⟨hword, hseq, hkind, hversion, hprev, hhash, hrest⟩ := hchained
    refine ⟨⟨hkind, validVersion_iff.mp hversion, hseq, ?_, hprev, hcanonical event List.mem_cons_self, hhash⟩,
      ih hrest (fun later hlater => hcanonical later (List.mem_cons_of_mem _ hlater))⟩
    exact lt_of_eq_of_lt hseq hword

theorem zipWith_raw {events : List Event}
    : List.zipWith RawEvent.event (events.map Event.raw) (events.map (fun event => event.payload)) = events := by
  induction events with
  | nil => rfl
  | cons event rest ih =>
    rw [List.map_cons, List.map_cons, List.zipWith_cons_cons, ih]
    rfl

theorem appendTyped_concat {T : Type} {log longer : Log} {schema : EventSchema T} {payload : T}
    (h : log.appendTyped sha256 schema payload = .ok longer)
    : ∃ event, longer.events = log.events ++ [event] ∧ schema.serialize payload = .ok event.payload := by
  unfold appendTyped at h
  split at h
  . cases h
  . split at h
    . cases h
    . next canonical hserialize =>
      split at h
      . cases h
      . split at h
        . cases h
        . unfold appendCanonical at h
          split at h
          . cases h
          . split at h
            . cases h
            . split at h
              . cases h
              . cases h
                exact ⟨_, rfl, hserialize⟩

theorem fromSerialize_canonical (hserde : CanonicalJson.Lawful serde)
    {written : Except CanonicalJsonError (List UInt8)} {json : CanonicalJson}
    (h : CanonicalJson.fromSerialize serde written = .ok json)
    : CanonicalJson.parse serde json.bytes = .ok json := by
  unfold CanonicalJson.fromSerialize at h
  split at h
  . cases h
  . obtain ⟨value, hadmitted⟩ := (CanonicalJson.parse_ok hserde).mp h
    exact (CanonicalJson.parse_ok hserde).mpr ⟨_, hadmitted.canonical hserde⟩

theorem Appended.canonical (hserde : CanonicalJson.Lawful serde) {log : Log} (h : Appended sha256 serde log)
    : ∀ event ∈ log.events, CanonicalJson.parse serde event.payload.bytes = .ok event.payload := by
  induction h with
  | new => exact nofun
  | append schema payload hwrites hlog happend ih =>
    obtain ⟨written, hserialize⟩ := hwrites
    obtain ⟨event, hevents, hpayload⟩ := appendTyped_concat happend
    rw [hserialize] at hpayload
    intro later hlater
    rw [hevents, List.mem_append, List.mem_singleton] at hlater
    cases hlater with
    | inl hlater => exact ih later hlater
    | inr hlater =>
      rw [hlater]
      exact fromSerialize_canonical hserde hpayload

theorem Appended.chained {log : Log} (h : Appended sha256 serde log) : Chained sha256 0 genesisHash log.events := by
  induction h with
  | new => trivial
  | append schema payload hwrites hlog happend ih =>
    obtain ⟨canonical, hcanonical⟩ := appendTyped_eq_ok happend
    exact appendCanonical_chained ih hcanonical

-- What is appended verifies and is imported again as it was, and the histories that are imported are the valid
-- chains, which verify then.
theorem import_inverts_export (sha256 : Sha256) (hserde : CanonicalJson.Lawful serde)
    : (∀ log, Appended sha256 serde log → log.verify sha256 = .ok ()
        ∧ importRaw sha256 (CanonicalJson.parse serde) (log.events.map Event.raw) = .ok log)
      ∧ ∀ raws, ((∃ log, importRaw sha256 (CanonicalJson.parse serde) raws = .ok log)
          ↔ ∀ index raw, raws[index]? = some raw
            → ∃ payload, Continues sha256 serde index (preceding genesisHash raws index) raw payload)
        ∧ ∀ log, importRaw sha256 (CanonicalJson.parse serde) raws = .ok log
          → log.verify sha256 = .ok ()
            ∧ ∃ payloads, Imports sha256 serde 0 genesisHash raws payloads
              ∧ log.events = List.zipWith RawEvent.event raws payloads := by
  constructor
  . intro log happended
    refine ⟨verify_eq_ok_iff.mpr happended.chained, importRaw_go_ok.mpr
      ⟨log.events.map (fun event => event.payload), imports_raw happended.chained (happended.canonical hserde), ?_⟩⟩
    rw [zipWith_raw, List.nil_append]
  . intro raws
    refine ⟨?_, ?_⟩
    . have hiff := @imports_iff sha256 serde 0 genesisHash raws
      simp only [Nat.zero_add] at hiff
      rw [← hiff]
      constructor
      . intro h
        obtain ⟨log, himport⟩ := h
        obtain ⟨payloads, himports, -⟩ := importRaw_go_ok.mp himport
        exact ⟨payloads, himports⟩
      . intro h
        obtain ⟨payloads, himports⟩ := h
        exact ⟨⟨List.zipWith RawEvent.event raws payloads⟩, importRaw_go_ok.mpr ⟨payloads, himports, rfl⟩⟩
    . intro log himport
      have hchained := @importRaw_go_chained sha256 _ raws [] genesisHash log trivial rfl himport
      exact ⟨verify_eq_ok_iff.mpr hchained, importRaw_go_ok.mp himport⟩

end Import

def sampleSchema : EventSchema Unit where
  kind := "app_sample"
  version := 1
  schemaId := "sample/1"
  serialize _ := .ok CanonicalJson.canonicalSample
  deserialize _ := .ok ()
  eq _ _ := true

theorem import_inverts_export_sample
    : ∃ log, log.len = 1 ∧ log.verify sha256Digest = .ok ()
        ∧ importRaw sha256Digest (CanonicalJson.parse CanonicalJson.grammarSerde) (log.events.map Event.raw)
          = .ok log := by
  obtain ⟨log, happend, hlen⟩ : ∃ log, Log.new.appendTyped sha256Digest sampleSchema () = .ok log ∧ log.len = 1 :=
    ⟨_, rfl, rfl⟩
  have hsample : CanonicalJson.parse CanonicalJson.grammarSerde
      (JsonText.write CanonicalJson.quoteText CanonicalJson.firstSample) = .ok CanonicalJson.canonicalSample :=
    CanonicalJson.parse_write CanonicalJson.samples_proper.1 rfl (by decide) (by decide) (by decide) (by decide)
      (by decide)
  have hwrites : sampleSchema.Writes CanonicalJson.grammarSerde :=
    ⟨fun _ => .ok (JsonText.write CanonicalJson.quoteText CanonicalJson.firstSample), fun _ => hsample.symm⟩
  obtain ⟨hverify, himport⟩ := (import_inverts_export sha256Digest CanonicalJson.grammarSerde_lawful).1 log
    (.append sampleSchema () hwrites .new happend)
  exact ⟨log, hlen, hverify, himport⟩

end Log

end Pliego
