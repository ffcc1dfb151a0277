import Pliego.Log.Basic

/-!
A log that verifies is a hash chain, and a cursor of a hash chain binds every event before it.
-/

namespace Pliego

open Bytes

theorem validateKind_length_le (kind : String) (h : (validateKind kind).isOk = true)
    : (utf8 kind).length ≤ maxKindBytes := by
  unfold validateKind at h
  dsimp at h
  split at h
  . simp [Except.isOk, Except.toBool] at h
  . next hlen =>
    simp only [Bool.not_eq_true', Bool.not_eq_false, Bool.and_eq_true, decide_eq_true_eq] at hlen
    exact hlen.2

namespace Log

variable (sha256 : Sha256)

def Chained (index : Nat) (previous : Hash) (events : List Event) : Prop :=
  match events with
  | [] => True
  | event :: rest =>
    index < 2 ^ 64
      ∧ event.seq = index
      ∧ (validateKind event.kind).isOk = true
      ∧ validVersion event.schemaVersion = true
      ∧ event.prevHash = previous
      ∧ event.hash = eventHash sha256 event
      ∧ Chained (index + 1) event.hash rest

theorem verify_go_eq_ok_iff (index : Nat) (previous : Hash) (events : List Event)
    : verify.go sha256 index previous events = .ok () ↔ Chained sha256 index previous events := by
  induction events generalizing index previous with
  | nil => simp [verify.go, Chained]
  | cons event rest ih =>
    unfold verify.go Chained seqOfLen
    by_cases hindex : index < 2 ^ 64
    . simp only [hindex, ↓reduceIte, true_and]
      split
      . next hbad =>
        simp only [reduceCtorEq, false_iff]
        rintro ⟨hseq, hkind, hversion, hprev, hhash, -⟩
        simp [hseq, hkind, hversion, hprev, ← hhash] at hbad
      . next hgood =>
        simp only [Bool.or_eq_true, decide_eq_true_eq, Bool.not_eq_true', not_or, ne_eq,
          Decidable.not_not, Bool.not_eq_false] at hgood
        obtain ⟨⟨⟨⟨hseq, hkind⟩, hversion⟩, hprev⟩, hhash⟩ := hgood
        rw [ih]
        constructor
        . intro hrest
          exact ⟨hseq, hkind, hversion, hprev, hhash, hrest⟩
        . intro hchain
          exact hchain.2.2.2.2.2
    . simp only [hindex, ↓reduceIte, reduceCtorEq, false_and]

def lastHash (previous : Hash) (events : List Event) : Hash :=
  match events.getLast? with
  | none => previous
  | some event => event.hash

theorem lastHash_cons (previous : Hash) (event : Event) (rest : List Event)
    : lastHash previous (event :: rest) = lastHash event.hash rest := by
  unfold lastHash
  cases rest with
  | nil => rfl
  | cons next rest =>
    rw [List.getLast?_cons_cons]
    cases hlast : (next :: rest).getLast? with
    | none => simp at hlast
    | some event => rfl

theorem lastHash_concat (previous : Hash) (events : List Event) (event : Event)
    : lastHash previous (events ++ [event]) = event.hash := by
  simp [lastHash]

variable {sha256} in
theorem Chained.mem {index : Nat} {previous : Hash} {events : List Event}
    (h : Chained sha256 index previous events) {event : Event} (hmem : event ∈ events)
    : event.seq < 2 ^ 64
        ∧ (validateKind event.kind).isOk = true
        ∧ validVersion event.schemaVersion = true
        ∧ event.hash = eventHash sha256 event := by
  induction events generalizing index previous with
  | nil => simp at hmem
  | cons first rest ih =>
    obtain ⟨hindex, hseq, hkind, hversion, -, hhash, hrest⟩ := h
    cases List.mem_cons.mp hmem with
    | inl heq =>
      subst heq
      exact ⟨by omega, hkind, hversion, hhash⟩
    | inr hin => exact ih hrest hin

theorem chained_concat (index : Nat) (previous : Hash) (events : List Event) (event : Event)
    : Chained sha256 index previous (events ++ [event])
        ↔
      Chained sha256 index previous events
        ∧ Chained sha256 (index + events.length) (lastHash previous events) [event] := by
  induction events generalizing index previous with
  | nil => simp [Chained, lastHash]
  | cons first rest ih =>
    rw [List.cons_append]
    unfold Chained
    rw [ih, lastHash_cons, List.length_cons]
    have hshift : index + 1 + rest.length = index + (rest.length + 1) := by omega
    rw [hshift]
    simp only [Chained]
    tauto

theorem chained_take {index : Nat} {previous : Hash} {events : List Event} (position : Nat)
    (h : Chained sha256 index previous events)
    : Chained sha256 index previous (events.take position) := by
  induction events generalizing index previous position with
  | nil => simpa using h
  | cons first rest ih =>
    cases position with
    | zero => simp [Chained]
    | succ position =>
      obtain ⟨hindex, hseq, hkind, hversion, hprev, hhash, hrest⟩ := h
      exact ⟨hindex, hseq, hkind, hversion, hprev, hhash, ih position hrest⟩

end Log

theorem eventPreimage_inj {a b : Event} (haseq : a.seq < 2 ^ 64) (hbseq : b.seq < 2 ^ 64)
    (hakind : (validateKind a.kind).isOk = true) (hbkind : (validateKind b.kind).isOk = true)
    (haversion : validVersion a.schemaVersion = true) (hbversion : validVersion b.schemaVersion = true)
    (h : eventPreimage a = eventPreimage b)
    : a.seq = b.seq ∧ a.prevHash = b.prevHash ∧ a.kind = b.kind
        ∧ a.schemaVersion = b.schemaVersion ∧ a.payload = b.payload := by
  unfold eventPreimage at h
  have h := List.append_cancel_left h
  obtain ⟨hseq, h⟩ := List.append_inj h (by simp)
  obtain ⟨hprev, h⟩ := List.append_inj h (by rw [a.prevHash.length_eq, b.prevHash.length_eq])
  have hakind := validateKind_length_le a.kind hakind
  have hbkind := validateKind_length_le b.kind hbkind
  unfold maxKindBytes at hakind hbkind
  obtain ⟨hkind, h⟩ := lenPrefixed_append_inj (by omega) (by omega) h
  obtain ⟨hversion, h⟩ := List.append_inj h (by simp)
  have hapayload := a.payload.length_le
  have hbpayload := b.payload.length_le
  unfold maxJsonBytes at hapayload hbpayload
  rw [← List.append_nil (lenPrefixed a.payload.bytes), ← List.append_nil (lenPrefixed b.payload.bytes)] at h
  obtain ⟨hpayload, -⟩ := lenPrefixed_append_inj (by omega) (by omega) h
  unfold validVersion maxSchemaVersion at haversion hbversion
  simp only [Bool.and_eq_true, decide_eq_true_eq] at haversion hbversion
  refine ⟨beBytes_inj (by omega) (by omega) hseq, ?_, utf8_inj hkind,
    beBytes_inj (by omega) (by omega) hversion, ?_⟩
  . exact Hash.ext hprev
  . exact CanonicalJson.ext hpayload

namespace Log

def CollisionFree (sha256 : Sha256) (l₁ l₂ : Log) : Prop :=
  ∀ a ∈ l₁.events, ∀ b ∈ l₂.events,
    sha256 (eventPreimage a) = sha256 (eventPreimage b) → eventPreimage a = eventPreimage b

variable {sha256 : Sha256}

theorem eq_of_hash_eq {a b : Event} {i j : Nat} {p q : Hash}
    (ha : Chained sha256 i p [a]) (hb : Chained sha256 j q [b])
    (hinj : sha256 (eventPreimage a) = sha256 (eventPreimage b) → eventPreimage a = eventPreimage b)
    (hhash : a.hash = b.hash)
    : a = b := by
  obtain ⟨haseq, hakind, haversion, hahash⟩ := ha.mem (List.mem_singleton_self a)
  obtain ⟨hbseq, hbkind, hbversion, hbhash⟩ := hb.mem (List.mem_singleton_self b)
  have hpre : eventPreimage a = eventPreimage b := by
    apply hinj
    unfold eventHash at hahash hbhash
    rw [← hahash, ← hbhash, hhash]
  obtain ⟨hseq, hprev, hkind, hversion, hpayload⟩ :=
    eventPreimage_inj haseq hbseq hakind hbkind haversion hbversion hpre
  exact Event.ext hseq hkind hversion hpayload hprev hhash

theorem eq_of_lastHash_eq (n : Nat) (as bs : List Event) (halen : as.length = n) (hblen : bs.length = n)
    (ha : Chained sha256 0 genesisHash as) (hb : Chained sha256 0 genesisHash bs) (hinj : ∀ a ∈ as, ∀ b ∈ bs,
      sha256 (eventPreimage a) = sha256 (eventPreimage b) → eventPreimage a = eventPreimage b)
    (hlast : lastHash genesisHash as = lastHash genesisHash bs)
    : as = bs := by
  induction n generalizing as bs with
  | zero => rw [List.eq_nil_of_length_eq_zero halen, List.eq_nil_of_length_eq_zero hblen]
  | succ n ih =>
    cases List.eq_nil_or_concat' as with
    | inl hnil => simp [hnil] at halen
    | inr has =>
      obtain ⟨as', a, rfl⟩ := has
      cases List.eq_nil_or_concat' bs with
      | inl hnil => simp [hnil] at hblen
      | inr hbs =>
        obtain ⟨bs', b, rfl⟩ := hbs
        rw [lastHash_concat, lastHash_concat] at hlast
        rw [chained_concat] at ha hb
        have hab : a = b := by
          apply eq_of_hash_eq ha.2 hb.2 _ hlast
          apply hinj
          . simp
          . simp
        have hlink : lastHash genesisHash as' = lastHash genesisHash bs' := by
          rw [← ha.2.2.2.2.2.1, ← hb.2.2.2.2.2.1, hab]
        have hsame : as' = bs' := by
          apply ih
          . simpa using halen
          . simpa using hblen
          . exact ha.1
          . exact hb.1
          . intro x hx y hy
            apply hinj
            . simp [hx]
            . simp [hy]
          . exact hlink
        rw [hsame, hab]

inductive Admitted (sha256 : Sha256)
    (parse : List UInt8 → Except CanonicalJsonError CanonicalJson) : Log → Prop where
  | verified {log : Log} (h : log.verify sha256 = .ok ()) : Admitted sha256 parse log
  | imported {log : Log} (raws : List RawEvent) (h : importRaw sha256 parse raws = .ok log) :
    Admitted sha256 parse log
  | new : Admitted sha256 parse Log.new
  | appended {log log' : Log} {T : Type} (schema : EventSchema T) (payload : T)
    (hlog : Admitted sha256 parse log)
    (h : log.appendTyped sha256 schema payload = .ok log') :
    Admitted sha256 parse log'

variable {log : Log} {cursor : LogCursor}

theorem verify_eq_ok_iff
    : log.verify sha256 = .ok () ↔ Chained sha256 0 genesisHash log.events := by
  unfold verify
  apply verify_go_eq_ok_iff

theorem chained_concat_of_hash {events : List Event} (h : Chained sha256 0 genesisHash events)
    (event : Event) (hindex : events.length < 2 ^ 64) (hseq : event.seq = events.length)
    (hkind : (validateKind event.kind).isOk = true) (hversion : validVersion event.schemaVersion = true)
    (hprev : event.prevHash = lastHash genesisHash events) (hhash : event.hash = eventHash sha256 event)
    : Chained sha256 0 genesisHash (events ++ [event]) := by
  rw [chained_concat]
  refine ⟨h, ?_⟩
  rw [Nat.zero_add]
  exact ⟨hindex, hseq, hkind, hversion, hprev, hhash, trivial⟩

theorem seqOfLen_eq_ok {len seq : Nat} (h : seqOfLen len = .ok seq) : len < 2 ^ 64 ∧ seq = len := by
  unfold seqOfLen at h
  split at h
  . next hlen => exact ⟨hlen, (Except.ok.inj h).symm⟩
  . simp at h

theorem importRaw_go_chained {parse : List UInt8 → Except CanonicalJsonError CanonicalJson}
    {raws : List RawEvent} {admitted : List Event} {previous : Hash} {log : Log}
    (hadmitted : Chained sha256 0 genesisHash admitted) (hprevious : previous = lastHash genesisHash admitted)
    (h : importRaw.go sha256 parse admitted previous raws = .ok log)
    : Chained sha256 0 genesisHash log.events := by
  induction raws generalizing admitted previous with
  | nil =>
    unfold importRaw.go at h
    cases h
    exact hadmitted
  | cons raw rest ih =>
    unfold importRaw.go at h
    split at h
    . simp at h
    . next hkind =>
      split at h
      . simp at h
      . next hversion =>
        split at h
        . simp at h
        . next expectedSeq hseq =>
          split at h
          . simp at h
          . next hlink =>
            split at h
            . simp at h
            . dsimp at h
              split at h
              . simp at h
              . next hhash =>
                obtain ⟨hlen, rfl⟩ := seqOfLen_eq_ok hseq
                simp only [ne_eq, Bool.or_eq_true, decide_eq_true_eq, not_or, Decidable.not_not] at hlink hhash
                apply ih _ (lastHash_concat genesisHash admitted _).symm h
                apply chained_concat_of_hash hadmitted _ hlen hlink.1
                . rw [hkind]
                  rfl
                . simpa using hversion
                . rw [← hprevious]
                  exact hlink.2
                . exact hhash

theorem appendTyped_eq_ok {T : Type} {log log' : Log} {schema : EventSchema T} {payload : T}
    (h : log.appendTyped sha256 schema payload = .ok log')
    : ∃ canonical, log.appendCanonical sha256 schema.kind schema.version canonical = .ok log' := by
  unfold appendTyped at h
  split at h
  . simp at h
  . split at h
    . simp at h
    . next canonical _ =>
      split at h
      . simp at h
      . split at h
        . simp at h
        . exact ⟨canonical, h⟩

theorem appendCanonical_chained {log log' : Log} {kind : String} {version : Nat}
    {payload : CanonicalJson} (hlog : Chained sha256 0 genesisHash log.events)
    (h : log.appendCanonical sha256 kind version payload = .ok log')
    : Chained sha256 0 genesisHash log'.events := by
  unfold appendCanonical at h
  split at h
  . simp at h
  . next hkind =>
    split at h
    . simp at h
    . next hversion =>
      split at h
      . simp at h
      . next seq hseq =>
        obtain ⟨hlen, rfl⟩ := seqOfLen_eq_ok hseq
        cases h
        apply chained_concat_of_hash hlog _ hlen rfl
        . dsimp
          rw [hkind]
          rfl
        . simpa using hversion
        . rfl
        . rfl

theorem Admitted.chained {parse : List UInt8 → Except CanonicalJsonError CanonicalJson}
    (h : Admitted sha256 parse log)
    : Chained sha256 0 genesisHash log.events := by
  induction h with
  | verified h => exact verify_eq_ok_iff.mp h
  | imported raws h =>
    have hempty : Chained sha256 0 genesisHash [] := trivial
    exact importRaw_go_chained hempty rfl h
  | new => trivial
  | appended schema payload _ h ih =>
    obtain ⟨canonical, h⟩ := appendTyped_eq_ok h
    exact appendCanonical_chained ih h

theorem cursorAt_eq_ok_iff {position : Nat}
    : log.cursorAt position = .ok cursor
        ↔
      position ≤ log.len
        ∧ cursor = ⟨position, lastHash genesisHash (log.events.take position)⟩ := by
  unfold cursorAt
  by_cases hle : position ≤ log.len
  . rw [if_neg (by omega)]
    cases position with
    | zero => simp [lastHash, eq_comm]
    | succ index =>
      have hlt : index < log.events.length := hle
      have hget : log.get index = some log.events[index] := by
        unfold get
        exact List.getElem?_eq_getElem hlt
      have htake : log.events.take (index + 1) = log.events.take index ++ [log.events[index]] := by
        simp
      dsimp
      rw [hget, htake, lastHash_concat]
      simp [hle, eq_comm]
  . rw [if_pos (by omega)]
    simp [hle]

theorem cursorAt_of_lt {position : Nat} (h : log.len < position)
    : log.cursorAt position = .error (.outOfBounds position log.len) := by
  unfold cursorAt
  rw [if_pos h]

theorem cursor_eq_cursorAt (log : Log) : log.cursorAt log.len = .ok log.cursor := by
  rw [cursorAt_eq_ok_iff]
  refine ⟨Nat.le_refl _, ?_⟩
  have hwhole : log.events.take log.len = log.events := List.take_length
  simp only [hwhole]
  unfold cursor head lastHash
  cases log.events.getLast? <;> rfl

theorem tail_eq_ok_iff {events : List Event}
    : log.tail cursor = .ok events
        ↔
      log.cursorAt cursor.position = .ok cursor ∧ events = log.events.drop cursor.position := by
  unfold tail
  cases hat : log.cursorAt cursor.position with
  | error error => simp
  | ok expected =>
    obtain ⟨-, hexpected⟩ := cursorAt_eq_ok_iff.mp hat
    dsimp
    by_cases hhead : expected.headHash = cursor.headHash
    . have : expected = cursor := by
        cases cursor
        simp_all
      simp [this, eq_comm]
    . have : expected ≠ cursor := by
        rintro rfl
        exact hhead rfl
      simp [hhead, this]

theorem tail_eq_error {error : CursorError} (h : log.tail cursor = .error error)
    : error = .headMismatch cursor.position ∨ error = .outOfBounds cursor.position log.len := by
  unfold tail at h
  cases hat : log.cursorAt cursor.position with
  | error found =>
    rw [hat] at h
    cases h
    by_cases hle : cursor.position ≤ log.len
    . rw [cursorAt_eq_ok_iff.mpr ⟨hle, rfl⟩] at hat
      simp at hat
    . rw [cursorAt_of_lt (by omega)] at hat
      cases hat
      exact Or.inr rfl
  | ok expected =>
    rw [hat] at h
    dsimp at h
    split at h
    . cases h
      exact Or.inl rfl
    . simp at h

theorem take_eq_of_cursorAt_eq {l₁ l₂ : Log} (hinj : CollisionFree sha256 l₁ l₂)
    (h₁ : Chained sha256 0 genesisHash l₁.events) (h₂ : Chained sha256 0 genesisHash l₂.events) {position : Nat}
    (hc₁ : l₁.cursorAt position = .ok cursor) (hc₂ : l₂.cursorAt position = .ok cursor)
    : l₁.events.take position = l₂.events.take position := by
  rw [cursorAt_eq_ok_iff] at hc₁ hc₂
  obtain ⟨hle₁, rfl⟩ := hc₁
  obtain ⟨hle₂, heq⟩ := hc₂
  unfold len at hle₁ hle₂
  apply eq_of_lastHash_eq position
  . simp [hle₁]
  . simp [hle₂]
  . exact chained_take sha256 position h₁
  . exact chained_take sha256 position h₂
  . intro a ha b hb
    exact hinj a (List.mem_of_mem_take ha) b (List.mem_of_mem_take hb)
  . exact congrArg LogCursor.headHash heq

/--
A log cursor binds every event before it: two admitted logs that agree on a cursor agree on
every event before it, a log that accepts another log's cursor extends that log, and a cursor taken
on a log whose prefix differs is refused.
-/
theorem cursor_binds_events (sha256 : Sha256)
    (parse : List UInt8 → Except CanonicalJsonError CanonicalJson) (l₁ l₂ : Log)
    (hinj : CollisionFree sha256 l₁ l₂) (h₁ : Admitted sha256 parse l₁) (h₂ : Admitted sha256 parse l₂)
    : (∀ position cursor,
        l₁.cursorAt position = .ok cursor
          →
        l₂.cursorAt position = .ok cursor
          →
        l₁.events.take position = l₂.events.take position)
      ∧ (∀ events, l₂.tail l₁.cursor = .ok events → l₂.events = l₁.events ++ events)
      ∧ (∀ position cursor,
        l₁.cursorAt position = .ok cursor
          →
        l₁.events.take position ≠ l₂.events.take position
          →
        l₂.tail cursor = .error (.headMismatch position)
          ∨ l₂.tail cursor = .error (.outOfBounds position l₂.len)) := by
  have h₁ := h₁.chained
  have h₂ := h₂.chained
  refine ⟨?_, ?_, ?_⟩
  . intro position cursor hc₁ hc₂
    exact take_eq_of_cursorAt_eq hinj h₁ h₂ hc₁ hc₂
  . intro events htail
    obtain ⟨hc₂, rfl⟩ := tail_eq_ok_iff.mp htail
    have hsame := take_eq_of_cursorAt_eq hinj h₁ h₂ (cursor_eq_cursorAt l₁) hc₂
    have hwhole : l₁.events.take l₁.len = l₁.events := List.take_length
    rw [hwhole] at hsame
    conv => lhs; rw [← List.take_append_drop l₁.len l₂.events, ← hsame]
    rfl
  . intro position cursor hc₁ hne
    have hposition : cursor.position = position := by
      rw [(cursorAt_eq_ok_iff.mp hc₁).2]
    cases htail : l₂.tail cursor with
    | ok events =>
      exfalso
      apply hne
      obtain ⟨hc₂, -⟩ := tail_eq_ok_iff.mp htail
      rw [hposition] at hc₂
      exact take_eq_of_cursorAt_eq hinj h₁ h₂ hc₁ hc₂
    | error error =>
      rw [← hposition]
      cases tail_eq_error htail with
      | inl h => rw [h]; exact Or.inl rfl
      | inr h => rw [h]; exact Or.inr rfl

def noteEvent (seq : Nat) (payload : CanonicalJson) (prevHash : Hash) : Event :=
  let event : Event :=
    {
      seq := seq
      kind := "app_note_added"
      schemaVersion := 1
      payload := payload
      prevHash := prevHash
      hash := genesisHash
    }
  { event with hash := eventHash sha256Digest event }

def firstEvent : Event :=
  noteEvent 0 ⟨utf8 "\x7b\"n\":1\x7d", by decide⟩ genesisHash

def secondEvent : Event :=
  noteEvent 1 ⟨utf8 "\x7b\"n\":2\x7d", by decide⟩ firstEvent.hash

theorem cursor_binds_events_of_two_notes
    : Log.tail ⟨[firstEvent, secondEvent]⟩ (Log.cursor ⟨[firstEvent]⟩) = .ok [secondEvent]
        ∧ [firstEvent, secondEvent] = [firstEvent] ++ [secondEvent] := by
  have htail : Log.tail ⟨[firstEvent, secondEvent]⟩ (Log.cursor ⟨[firstEvent]⟩)
      = .ok [secondEvent] := by
    decide +kernel
  refine ⟨htail, ?_⟩
  have hbinds := cursor_binds_events sha256Digest (fun _ => .error (.invalid "")) ⟨[firstEvent]⟩
    ⟨[firstEvent, secondEvent]⟩ (by unfold CollisionFree; decide +kernel) (.verified (by decide +kernel))
    (.verified (by decide +kernel))
  exact hbinds.2.1 [secondEvent] htail

end Log

end Pliego
