import Pliego.Hyphae.Payload
import Pliego.Lib.Reach
import Pliego.Lib.SortedMap

/-!
Replay of verified pull pages.
-/

namespace Pliego

namespace Hyphae

def maxReplayAnchors : Nat := maxPullEvents * 4 + 1

structure ReplayAnchor where
  headHash : String
  eventIdentity : Option (String × String)
  deriving DecidableEq

structure ReplayState where
  streamId : String
  authority : Option AuthorityId
  cursor : StreamCursor
  snapshot : Option StreamCursor
  anchors : SortedMap Nat ReplayAnchor

def UntrustedPullPage := PullRequest × PullPage

def pruneAnchors (position : Nat) (fuel : Nat) (anchors : SortedMap Nat ReplayAnchor)
    : SortedMap Nat ReplayAnchor :=
  match fuel with
  | 0 => anchors
  | fuel + 1 =>
    if anchors.len > maxReplayAnchors then
      match anchors.firstKey with
      | none => anchors
      | some oldest =>
        if oldest = position then anchors
        else pruneAnchors position fuel (anchors.remove oldest)
    else
      anchors

namespace ReplayState

def new (streamId : String) : Except ValidationError ReplayState := do
  validateStreamId streamId
  .ok {
    streamId := streamId
    authority := none
    cursor := .genesis
    snapshot := none
    anchors := .singleton 0 ⟨StreamCursor.genesis.headHash, none⟩ }

def preflightSnapshot (state : ReplayState) (request : PullRequest) (page : PullPage)
    : Except ValidationError Unit :=
  match state.snapshot with
  | none => .ok ()
  | some bound =>
    match request.snapshot with
    | .exact _ =>
      ensure (page.snapshotCursor == bound)
        "snapshot_cursor" "exact snapshot differs from replay state"
    | .latest =>
      ensure (!(state.cursor != bound && page.snapshotCursor != bound))
        "snapshot_cursor" "active pull cycle changed snapshot"

def preflight (state : ReplayState) (request : PullRequest) (page : PullPage)
    : Except ValidationError Unit := do
  ensure (request.streamId == state.streamId && page.streamId == state.streamId)
    "stream_id" "replay state mismatch"
  ensure (request.after.position ≤ state.cursor.position) "after" "request skips local replay state"
  let anchor ← orError (state.anchors.get? request.after.position.toNat)
    "after" "cursor falls outside bounded replay window"
  ensure (anchor.headHash == request.after.headHash) "after" "cursor forks from replay state"
  ensure (state.cursor.position ≤ page.snapshotCursor.position)
    "snapshot_cursor" "snapshot regressed behind replay state"
  ensure (!(page.snapshotCursor.position == state.cursor.position
      && page.snapshotCursor.headHash != state.cursor.headHash))
    "snapshot_cursor" "snapshot forks at the current replay position"
  state.preflightSnapshot request page

def pruned (state : ReplayState) : ReplayState :=
  { state with
    anchors := pruneAnchors state.cursor.position.toNat state.anchors.len state.anchors }

end ReplayState

variable {isJson : String → Bool} {sha256 : Sha256}

def UntrustedPullPage.validate (isJson : String → Bool) (sha256 : Sha256)
    (untrusted : UntrustedPullPage) (state : ReplayState)
    : Except SyncError (ValidatedPullPage isJson sha256) :=
  match h : untrusted.2.validateAgainst isJson sha256 untrusted.1 with
  | .error error => .error (.validation error)
  | .ok () => do
    (state.preflight untrusted.1 untrusted.2).mapError .validation
    .ok ⟨untrusted.1, untrusted.2, h⟩

namespace VerifiedAcceptedEvent

def identity (event : VerifiedAcceptedEvent) : String × String :=
  (event.envelope.clientEventId, event.receipt.serverHash)

def anchor (event : VerifiedAcceptedEvent) : ReplayAnchor :=
  ⟨event.receipt.serverHash, some event.identity⟩

end VerifiedAcceptedEvent

def eventPosition (after : UInt64) (index : Nat) : Except ValidationError UInt64 := do
  let offset ← orError (tryFrom index) "events" "index overflow"
  orError ((checkedAdd after offset).bind (checkedAdd · 1)) "events" "position overflow"

def freshPosition (current : UInt64) (fresh : Nat) : Except ValidationError UInt64 := do
  let offset ← orError (tryFrom fresh) "events" "count overflow"
  orError ((checkedAdd current offset).bind (checkedAdd · 1)) "events" "position overflow"

def replayEvents (state : ReplayState) (after : UInt64) (index : Nat)
    (candidate : SortedMap Nat ReplayAnchor) (fresh : List VerifiedAcceptedEvent)
    (events : List VerifiedAcceptedEvent)
    : Except ValidationError (SortedMap Nat ReplayAnchor × List VerifiedAcceptedEvent) :=
  match events with
  | [] => .ok (candidate, fresh)
  | event :: rest => do
    let position ← eventPosition after index
    if position ≤ state.cursor.position then
      let anchor ← orError (state.anchors.get? position.toNat)
        "events" "overlap falls outside bounded replay window"
      ensure (anchor.headHash == event.receipt.serverHash
          && anchor.eventIdentity == some event.identity)
        "events" "overlap changed event identity or durable hash"
      replayEvents state after (index + 1) candidate fresh rest
    else
      let expected ← freshPosition state.cursor.position fresh.length
      ensure (position == expected) "events" "fresh replay contains a position gap"
      ensure (!candidate.values.any (fun anchor =>
          anchor.eventIdentity.any (·.1 == event.envelope.clientEventId)))
        "client_event_id" "event identity moved to another stream position"
      replayEvents state after (index + 1) (candidate.insert position.toNat event.anchor)
        (fresh ++ [event]) rest

def ReplaySink (σ : Type) : Type :=
  σ → List VerifiedAcceptedEvent → σ × Except String Unit

structure AppliedPullPage where
  appliedCount : UInt64
  cursor : StreamCursor
  snapshotCursor : StreamCursor
  complete : Bool
  authority : AuthorityId
  deriving DecidableEq

namespace VerifiedPullPage

def nextCursor (verified : VerifiedPullPage isJson sha256) (state : ReplayState)
    : Except ValidationError StreamCursor :=
  if verified.page.nextCursor.position > state.cursor.position then
    .ok verified.page.nextCursor
  else do
    ensure (!(verified.page.nextCursor.position == state.cursor.position
        && verified.page.nextCursor.headHash != state.cursor.headHash))
      "next_cursor" "same position changed durable head"
    .ok state.cursor

def candidate (verified : VerifiedPullPage isJson sha256) (state : ReplayState)
    : Except SyncError (ReplayState × List VerifiedAcceptedEvent) := do
  (state.preflight verified.request verified.page).mapError .validation
  if state.authority.any (· ≠ verified.authority) then
    .error (.verification .authorityMismatch)
  else do
    let (anchors, fresh) ← (replayEvents state verified.request.after.position 0 state.anchors []
      verified.events).mapError .validation
    let cursor ← (verified.nextCursor state).mapError .validation
    let replayed : ReplayState :=
      { streamId := state.streamId
        authority := some verified.authority
        cursor := cursor
        snapshot := some verified.page.snapshotCursor
        anchors := anchors }
    .ok (replayed.pruned, fresh)

def apply {σ : Type} (sink : ReplaySink σ) (verified : VerifiedPullPage isJson sha256)
    (state : ReplayState) (reducer : σ) : (ReplayState × σ) × Except SyncError AppliedPullPage :=
  match verified.candidate state with
  | .error error => ((state, reducer), .error error)
  | .ok (replayed, fresh) =>
    match tryFrom fresh.length with
    | none => ((state, reducer), .error (.validation ⟨"events", "count overflow"⟩))
    | some appliedCount =>
      let applied : AppliedPullPage :=
        { appliedCount := appliedCount
          cursor := replayed.cursor
          snapshotCursor := verified.page.snapshotCursor
          complete := replayed.cursor == verified.page.snapshotCursor
          authority := verified.authority }
      if fresh.isEmpty then
        ((replayed, reducer), .ok applied)
      else
        match sink reducer fresh with
        | (reducer, .error message) => ((state, reducer), .error (.reducer message))
        | (reducer, .ok ()) => ((replayed, reducer), .ok applied)

end VerifiedPullPage

def Linked (prev : String) (position : Nat) (receipts : List Receipt) : Prop :=
  match receipts with
  | [] => True
  | receipt :: rest =>
    receipt.serverSeq.toNat = position + 1 ∧ receipt.serverPrevHash = prev ∧
      Linked receipt.serverHash (position + 1) rest

def lastHash (prev : String) (receipts : List Receipt) : String :=
  match receipts with
  | [] => prev
  | receipt :: rest => lastHash receipt.serverHash rest

variable {position : Nat} {prev : String} {index : Nat} {state : ReplayState}

theorem linked_append {xs ys : List Receipt}
    : Linked prev position (xs ++ ys) ↔
        Linked prev position xs ∧ Linked (lastHash prev xs) (position + xs.length) ys := by
  induction xs generalizing prev position with
  | nil => simp [Linked, lastHash]
  | cons x xs ih =>
    have hlen : position + (x :: xs).length = position + 1 + xs.length := by
      rw [List.length_cons]
      omega
    rw [List.cons_append, Linked, Linked, lastHash, ih, hlen]
    simp only [and_assoc]

theorem lastHash_append {xs ys : List Receipt}
    : lastHash prev (xs ++ ys) = lastHash (lastHash prev xs) ys := by
  induction xs generalizing prev with
  | nil => rfl
  | cons x xs ih => exact ih

theorem lastHash_getLast? {receipts : List Receipt} {last : Receipt} (h : receipts.getLast? = some last)
    : lastHash prev receipts = last.serverHash := by
  obtain ⟨front, rfl⟩ := List.getLast?_eq_some_iff.mp h
  rw [lastHash_append]
  rfl

theorem linked_seqs {receipts : List Receipt} (h : Linked prev position receipts)
    : receipts.map (·.serverSeq.toNat) = List.range' (position + 1) receipts.length := by
  induction receipts generalizing prev position with
  | nil => rfl
  | cons receipt rest ih =>
    obtain ⟨hseq, -, hrest⟩ := h
    rw [List.map_cons, List.length_cons, List.range'_succ, hseq, ih hrest]

theorem linked_getElem? {position i : Nat} {receipts : List Receipt} {receipt : Receipt}
    (h : Linked prev position receipts) (hget : receipts[i]? = some receipt)
    : receipt.serverSeq.toNat = position + i + 1 ∧
        receipt.serverPrevHash = lastHash prev (receipts.take i) := by
  induction receipts generalizing prev position i with
  | nil => cases hget
  | cons first rest ih =>
    obtain ⟨hseq, hprev, hrest⟩ := h
    cases i with
    | zero =>
      cases hget
      exact ⟨hseq, hprev⟩
    | succ i =>
      obtain ⟨hseq', hprev'⟩ := ih hrest hget
      refine ⟨?_, hprev'⟩
      rw [hseq']
      omega

theorem succ_checkedAdd {a b c : UInt64} (h : (checkedAdd a b).bind (checkedAdd · 1) = some c)
    : c.toNat = a.toNat + b.toNat + 1 := by
  obtain ⟨sum, hsum, hnext⟩ := Option.bind_eq_some_iff.mp h
  rw [checkedAdd_eq_some.mp hnext, checkedAdd_eq_some.mp hsum]
  rfl

theorem expectedSeq_ok {after seq : UInt64} {owner : String}
    (h : AppendResponse.expectedSeq after index owner = .ok seq)
    : seq.toNat = after.toNat + index + 1 := by
  obtain ⟨offset, hoffset, h⟩ := Except.bind_eq_ok.mp h
  rw [succ_checkedAdd (orError_eq_ok.mp h), tryFrom_eq_some.mp (orError_eq_ok.mp hoffset)]

theorem eventPosition_ok {after position : UInt64} (h : eventPosition after index = .ok position)
    : position.toNat = after.toNat + index + 1 := by
  obtain ⟨offset, hoffset, h⟩ := Except.bind_eq_ok.mp h
  rw [succ_checkedAdd (orError_eq_ok.mp h), tryFrom_eq_some.mp (orError_eq_ok.mp hoffset)]

theorem linked_of_validateEvents {request : PullRequest} {streamId prev : String}
    {ids : List String} {events : List AcceptedEvent}
    (h : PullPage.validateEvents isJson sha256 request streamId index ids prev events = .ok ())
    : Linked prev (request.after.position.toNat + index) (events.map (·.receipt)) := by
  induction events generalizing index ids prev with
  | nil => trivial
  | cons accepted rest ih =>
    obtain ⟨-, -, h⟩ := Except.bind_eq_ok.mp h
    obtain ⟨-, -, h⟩ := Except.bind_eq_ok.mp h
    obtain ⟨-, -, h⟩ := Except.bind_eq_ok.mp h
    obtain ⟨wireHash, -, h⟩ := Except.bind_eq_ok.mp h
    obtain ⟨-, -, h⟩ := Except.bind_eq_ok.mp h
    obtain ⟨-, -, h⟩ := Except.bind_eq_ok.mp h
    obtain ⟨seq, hseq, h⟩ := Except.bind_eq_ok.mp h
    obtain ⟨⟨⟩, hserver, h⟩ := Except.bind_eq_ok.mp h
    obtain ⟨⟨⟩, hprev, h⟩ := Except.bind_eq_ok.mp h
    refine ⟨?_, beq_iff_eq.mp (ensure_eq_ok.mp hprev), ih h⟩
    rw [beq_iff_eq.mp (ensure_eq_ok.mp hserver)]
    exact expectedSeq_ok hseq

namespace VerifiedPullPage

variable {verified : VerifiedPullPage isJson sha256} {state : ReplayState}

theorem page_ok (verified : VerifiedPullPage isJson sha256)
    : Linked verified.request.after.headHash verified.request.after.position.toNat
        (verified.events.map (·.receipt)) ∧
      verified.page.nextCursor.position.toNat
        = verified.request.after.position.toNat + verified.events.length ∧
      verified.page.nextCursor.headHash
        = lastHash verified.request.after.headHash (verified.events.map (·.receipt)) ∧
      verified.page.nextCursor.position.toNat ≤ verified.page.snapshotCursor.position.toNat ∧
      (verified.page.nextCursor.position = verified.page.snapshotCursor.position →
        verified.page.nextCursor = verified.page.snapshotCursor) := by
  have hreceipts : verified.events.map (·.receipt) = verified.page.events.map (·.receipt) := by
    unfold events
    rw [List.map_map]
    rfl
  have hlen : verified.events.length = verified.page.events.length := List.length_map _
  have h := verified.valid
  obtain ⟨-, -, h⟩ := Except.bind_eq_ok.mp h
  obtain ⟨-, -, h⟩ := Except.bind_eq_ok.mp h
  obtain ⟨-, -, h⟩ := Except.bind_eq_ok.mp h
  obtain ⟨-, -, h⟩ := Except.bind_eq_ok.mp h
  obtain ⟨-, -, h⟩ := Except.bind_eq_ok.mp h
  obtain ⟨-, -, h⟩ := Except.bind_eq_ok.mp h
  obtain ⟨-, -, h⟩ := Except.bind_eq_ok.mp h
  obtain ⟨-, -, h⟩ := Except.bind_eq_ok.mp h
  obtain ⟨⟨⟩, hbound, h⟩ := Except.bind_eq_ok.mp h
  obtain ⟨⟨⟩, hfork, h⟩ := Except.bind_eq_ok.mp h
  obtain ⟨⟨⟩, hevents, h⟩ := Except.bind_eq_ok.mp h
  obtain ⟨count, hcount, h⟩ := Except.bind_eq_ok.mp h
  obtain ⟨expected, hexpected, h⟩ := Except.bind_eq_ok.mp h
  obtain ⟨⟨⟩, hposition, h⟩ := Except.bind_eq_ok.mp h
  obtain ⟨⟨⟩, hend, -⟩ := Except.bind_eq_ok.mp h
  rw [ensure_eq_ok, Bool.not_eq_true', decide_eq_false_iff_not, gt_iff_lt, UInt64.not_lt,
    UInt64.le_iff_toNat_le] at hbound
  rw [hreceipts, hlen]
  refine ⟨linked_of_validateEvents hevents, ?_, ?_, hbound, ?_⟩
  . rw [beq_iff_eq.mp (ensure_eq_ok.mp hposition), checkedAdd_eq_some.mp (orError_eq_ok.mp hexpected),
      tryFrom_eq_some.mp (orError_eq_ok.mp hcount)]
  . unfold PullPage.validateEnd at hend
    split at hend
    . next last hlast =>
      rw [beq_iff_eq.mp (ensure_eq_ok.mp hend)]
      apply (lastHash_getLast? _).symm
      rw [List.getLast?_map, hlast]
      rfl
    . next hnone =>
      rw [beq_iff_eq.mp (ensure_eq_ok.mp hend), List.getLast?_eq_none_iff.mp hnone]
      rfl
  . intro hsame
    simp only [ensure_eq_ok, hsame, BEq.rfl, Bool.true_and, bne_eq_false_iff_eq, Bool.not_eq_true'] at hfork
    rw [StreamCursor.ext_iff]
    exact ⟨hsame, hfork⟩

end VerifiedPullPage

def anchorEntry (event : VerifiedAcceptedEvent) : Nat × ReplayAnchor :=
  (event.receipt.serverSeq.toNat, event.anchor)

theorem replayEvents_fresh {after : UInt64}
    {candidate : SortedMap Nat ReplayAnchor} {fresh events : List VerifiedAcceptedEvent}
    {result : SortedMap Nat ReplayAnchor × List VerifiedAcceptedEvent}
    (hindex : after.toNat + index = state.cursor.position.toNat + fresh.length)
    (hkeys : ∀ entry ∈ candidate.entries, entry.1 ≤ after.toNat + index)
    (hlinked : Linked prev (after.toNat + index) (events.map (·.receipt)))
    (h : replayEvents state after index candidate fresh events = .ok result)
    : result.2 = fresh ++ events ∧
        result.1.entries = candidate.entries ++ events.map anchorEntry := by
  induction events generalizing index candidate fresh prev with
  | nil =>
    cases h
    simp
  | cons event rest ih =>
    obtain ⟨hseq, -, hrest⟩ := hlinked
    obtain ⟨position, hposition, h⟩ := Except.bind_eq_ok.mp h
    have hnat := eventPosition_ok hposition
    have hfresh : ¬ position ≤ state.cursor.position := by
      rw [UInt64.le_iff_toNat_le]
      omega
    rw [if_neg hfresh] at h
    obtain ⟨expected, -, h⟩ := Except.bind_eq_ok.mp h
    obtain ⟨-, -, h⟩ := Except.bind_eq_ok.mp h
    obtain ⟨-, -, h⟩ := Except.bind_eq_ok.mp h
    have hsame : position.toNat = event.receipt.serverSeq.toNat := hnat.trans hseq.symm
    have hlast : (candidate.insert position.toNat event.anchor).entries
        = candidate.entries ++ [anchorEntry event] := by
      rw [SortedMap.insert_of_last, hsame]
      . rfl
      . intro entry hentry
        have := hkeys entry hentry
        omega
    have hkeys' : ∀ entry ∈ (candidate.insert position.toNat event.anchor).entries,
        entry.1 ≤ after.toNat + (index + 1) := by
      intro entry hentry
      rw [hlast, List.mem_append, List.mem_singleton] at hentry
      cases hentry with
      | inl hold =>
        have := hkeys entry hold
        omega
      | inr hnew =>
        rw [hnew]
        exact le_of_eq hseq
    have hlen : after.toNat + (index + 1)
        = state.cursor.position.toNat + (fresh ++ [event]).length := by
      rw [List.length_append, List.length_singleton]
      omega
    obtain ⟨hevents, hentries⟩ := ih hlen hkeys' hrest h
    rw [hevents, hentries, hlast]
    simp

theorem replayEvents_ok {after : UInt64} {events : List VerifiedAcceptedEvent}
    {result : SortedMap Nat ReplayAnchor × List VerifiedAcceptedEvent}
    (hcursor : ∃ anchor, state.anchors.get? state.cursor.position.toNat = some anchor ∧
      anchor.headHash = state.cursor.headHash)
    (hkeys : ∀ entry ∈ state.anchors.entries, entry.1 ≤ state.cursor.position.toNat)
    (hindex : after.toNat + index ≤ state.cursor.position.toNat)
    (hanchor : ∃ anchor, state.anchors.get? (after.toNat + index) = some anchor ∧
      anchor.headHash = prev)
    (hlinked : Linked prev (after.toNat + index) (events.map (·.receipt)))
    (h : replayEvents state after index state.anchors [] events = .ok result)
    : (∃ old, events = old ++ result.2 ∧ after.toNat + index + old.length
        ≤ state.cursor.position.toNat ∧ (result.2 ≠ [] →
          after.toNat + index + old.length = state.cursor.position.toNat ∧
          lastHash prev (old.map (·.receipt)) = state.cursor.headHash)) ∧
      result.1.entries = state.anchors.entries ++ result.2.map anchorEntry := by
  induction events generalizing index prev with
  | nil =>
    cases h
    exact ⟨⟨[], rfl, hindex, fun hne => absurd rfl hne⟩, by simp⟩
  | cons event rest ih =>
    by_cases hat : after.toNat + index = state.cursor.position.toNat
    . obtain ⟨hevents, hentries⟩ := replayEvents_fresh hat (hat ▸ hkeys) hlinked h
      rw [List.nil_append] at hevents
      rw [hevents]
      refine ⟨⟨[], rfl, hindex, fun _ => ⟨hat, ?_⟩⟩, hentries⟩
      obtain ⟨anchor, hget, hhead⟩ := hanchor
      obtain ⟨anchor', hget', hhead'⟩ := hcursor
      rw [← hhead, ← hhead']
      rw [hat, hget'] at hget
      exact congrArg (·.headHash) (Option.some.inj hget).symm
    . obtain ⟨hseq, -, hrest⟩ := hlinked
      obtain ⟨position, hposition, h⟩ := Except.bind_eq_ok.mp h
      have hnat := eventPosition_ok hposition
      have hold : position ≤ state.cursor.position := by
        rw [UInt64.le_iff_toNat_le]
        omega
      rw [if_pos hold] at h
      obtain ⟨anchor, hget, h⟩ := Except.bind_eq_ok.mp h
      obtain ⟨⟨⟩, hmatch, h⟩ := Except.bind_eq_ok.mp h
      rw [ensure_eq_ok, Bool.and_eq_true, beq_iff_eq] at hmatch
      have hindex' : after.toNat + (index + 1) ≤ state.cursor.position.toNat := by omega
      have hanchor' : ∃ anchor, state.anchors.get? (after.toNat + (index + 1)) = some anchor ∧
          anchor.headHash = event.receipt.serverHash := by
        rw [← Nat.add_assoc, ← hnat]
        exact ⟨anchor, orError_eq_ok.mp hget, hmatch.1⟩
      obtain ⟨⟨old, hevents, hle, hfresh⟩, hentries⟩ := ih hindex' hanchor' hrest h
      refine ⟨⟨event :: old, by rw [List.cons_append, ← hevents], ?_, ?_⟩, hentries⟩
      . rw [List.length_cons]
        omega
      . intro hne
        obtain ⟨hlen, hlast⟩ := hfresh hne
        refine ⟨?_, hlast⟩
        rw [List.length_cons]
        omega

def EndsAt (position : Nat) (anchors : SortedMap Nat ReplayAnchor) : Prop :=
  ∃ first count, anchors.keys = List.range' first (count + 1) ∧ first + count = position

theorem EndsAt.le {anchors : SortedMap Nat ReplayAnchor} (h : EndsAt position anchors)
    : ∀ entry ∈ anchors.entries, entry.1 ≤ position := by
  obtain ⟨first, count, hkeys, hend⟩ := h
  intro entry hentry
  have hmem : entry.1 ∈ anchors.keys := List.mem_map_of_mem hentry
  rw [hkeys, List.mem_range'_1] at hmem
  omega

theorem EndsAt.mem {anchors : SortedMap Nat ReplayAnchor} (h : EndsAt position anchors)
    : ∃ anchor, (position, anchor) ∈ anchors.entries := by
  obtain ⟨first, count, hkeys, hend⟩ := h
  have hmem : position ∈ anchors.keys := by
    rw [hkeys, List.mem_range'_1]
    omega
  obtain ⟨⟨key, anchor⟩, hentry, rfl⟩ := List.mem_map.mp hmem
  exact ⟨anchor, hentry⟩

theorem pruneAnchors_ok {position fuel : Nat} {anchors : SortedMap Nat ReplayAnchor}
    (h : EndsAt position anchors) (hfuel : anchors.len ≤ fuel)
    : EndsAt position (pruneAnchors position fuel anchors) ∧
        (pruneAnchors position fuel anchors).entries ⊆ anchors.entries ∧
        (pruneAnchors position fuel anchors).len ≤ maxReplayAnchors := by
  induction fuel generalizing anchors with
  | zero => exact ⟨h, List.Subset.refl _, hfuel.trans (Nat.zero_le _)⟩
  | succ fuel ih =>
    unfold pruneAnchors
    split
    . next hlong =>
      obtain ⟨first, count, hkeys, hend⟩ := h
      have hcount : anchors.len = count + 1 := by
        have := congrArg List.length hkeys
        rwa [SortedMap.keys, List.length_map, List.length_range'] at this
      have hmany : maxReplayAnchors ≥ 1 := by decide
      rw [List.range'_succ] at hkeys
      obtain ⟨⟨oldest, anchor⟩, rest, hentries, hfirst, hrest⟩ := List.map_eq_cons_iff.mp hkeys
      have holdest : oldest = first := hfirst
      have hkey : anchors.firstKey = some first := by
        unfold SortedMap.firstKey
        rw [hentries, ← holdest]
        rfl
      have hremoved : (anchors.remove first).entries = rest :=
        SortedMap.remove_first (holdest ▸ hentries)
      have hlen : (anchors.remove first).len = count := by
        have := congrArg List.length hrest
        rw [List.length_map, List.length_range'] at this
        rw [SortedMap.len, hremoved, this]
      rw [hkey]
      dsimp only
      rw [if_neg (by omega)]
      have hnext : EndsAt position (anchors.remove first) := by
        refine ⟨first + 1, count - 1, ?_, by omega⟩
        rw [SortedMap.keys, hremoved, hrest, Nat.sub_add_cancel (by omega)]
      obtain ⟨hends, hsub, hle⟩ := ih hnext (by omega)
      refine ⟨hends, ?_, hle⟩
      apply List.Subset.trans hsub
      rw [hremoved, hentries]
      exact List.subset_cons_self _ _
    . next hshort => exact ⟨h, List.Subset.refl _, not_lt.mp hshort⟩

structure ReplayState.Sound (state : ReplayState) : Prop where
  ends : EndsAt state.cursor.position.toNat state.anchors
  head : ∃ anchor, state.anchors.get? state.cursor.position.toNat = some anchor ∧
    anchor.headHash = state.cursor.headHash
  bounded : state.anchors.len ≤ maxReplayAnchors
  ahead : ∀ bound, state.snapshot = some bound →
    state.cursor.position.toNat ≤ bound.position.toNat
  reached : ∀ bound, state.snapshot = some bound → state.cursor.position = bound.position →
    state.cursor = bound

theorem ReplayState.Sound.initial {streamId : String} (h : ReplayState.new streamId = .ok state)
    : state.Sound ∧ state.authority = none ∧ state.cursor = .genesis := by
  obtain ⟨-, -, h⟩ := Except.bind_eq_ok.mp h
  cases h
  have hone : 1 ≤ maxReplayAnchors := by decide
  refine ⟨⟨⟨0, 0, rfl, rfl⟩, ⟨_, rfl, rfl⟩, hone, ?_, ?_⟩, rfl, rfl⟩
  . intro bound hbound
    cases hbound
  . intro bound hbound
    cases hbound

theorem ReplayState.preflight_ok {request : PullRequest} {page : PullPage}
    (h : state.preflight request page = .ok ())
    : request.after.position.toNat ≤ state.cursor.position.toNat ∧
        (∃ anchor, state.anchors.get? request.after.position.toNat = some anchor ∧
          anchor.headHash = request.after.headHash) ∧
        state.cursor.position.toNat ≤ page.snapshotCursor.position.toNat ∧
        (page.snapshotCursor.position = state.cursor.position →
          page.snapshotCursor = state.cursor) ∧
        ∀ bound, state.snapshot = some bound → state.cursor ≠ bound → page.snapshotCursor = bound := by
  obtain ⟨-, -, h⟩ := Except.bind_eq_ok.mp h
  obtain ⟨⟨⟩, hafter, h⟩ := Except.bind_eq_ok.mp h
  obtain ⟨anchor, hanchor, h⟩ := Except.bind_eq_ok.mp h
  obtain ⟨⟨⟩, hhead, h⟩ := Except.bind_eq_ok.mp h
  obtain ⟨⟨⟩, hregressed, h⟩ := Except.bind_eq_ok.mp h
  obtain ⟨⟨⟩, hforks, h⟩ := Except.bind_eq_ok.mp h
  rw [ensure_eq_ok, decide_eq_true_eq, UInt64.le_iff_toNat_le] at hafter hregressed
  refine ⟨hafter, ⟨anchor, orError_eq_ok.mp hanchor, beq_iff_eq.mp (ensure_eq_ok.mp hhead)⟩,
    hregressed, ?_, ?_⟩
  . intro hsame
    simp only [ensure_eq_ok, hsame, BEq.rfl, Bool.true_and, bne_eq_false_iff_eq, Bool.not_eq_true'] at hforks
    rw [StreamCursor.ext_iff]
    exact ⟨hsame, hforks⟩
  . intro bound hbound hactive
    unfold preflightSnapshot at h
    rw [hbound] at h
    dsimp only at h
    split at h
    . exact beq_iff_eq.mp (ensure_eq_ok.mp h)
    . rw [ensure_eq_ok, bne_iff_ne.mpr hactive, Bool.true_and, Bool.not_eq_true', bne_eq_false_iff_eq] at h
      exact h

/--
What one page adds to a sound state.
-/
structure Extends (verified : VerifiedPullPage isJson sha256) (state next : ReplayState)
    (fresh : List VerifiedAcceptedEvent) : Prop where
  sound : next.Sound
  linked : Linked state.cursor.headHash state.cursor.position.toNat (fresh.map (·.receipt))
  position : next.cursor.position.toNat = state.cursor.position.toNat + fresh.length
  headHash : next.cursor.headHash = lastHash state.cursor.headHash (fresh.map (·.receipt))
  snapshot : ∀ bound, state.snapshot = some bound → state.cursor ≠ bound →
    next.snapshot = some bound
  authority : next.authority = some verified.authority
  bound : ∀ authority, state.authority = some authority → authority = verified.authority
  signed : ∀ event ∈ fresh, event.authority = verified.authority

namespace VerifiedPullPage

variable {verified : VerifiedPullPage isJson sha256} {state next : ReplayState}
  {fresh : List VerifiedAcceptedEvent}

theorem authority_of_mem {event : VerifiedAcceptedEvent} (h : event ∈ verified.events)
    : event.authority = verified.authority := by
  obtain ⟨accepted, -, rfl⟩ := List.mem_map.mp h
  rfl

theorem nextCursor_ok {cursor : StreamCursor} (h : verified.nextCursor state = .ok cursor)
    : (state.cursor.position.toNat < verified.page.nextCursor.position.toNat ∧
        cursor = verified.page.nextCursor) ∨
      (verified.page.nextCursor.position.toNat ≤ state.cursor.position.toNat ∧
        cursor = state.cursor) := by
  unfold VerifiedPullPage.nextCursor at h
  split at h
  . next hlt =>
    cases h
    rw [gt_iff_lt, UInt64.lt_iff_toNat_lt] at hlt
    exact .inl ⟨hlt, rfl⟩
  . next hle =>
    obtain ⟨-, -, h⟩ := Except.bind_eq_ok.mp h
    cases h
    rw [gt_iff_lt, UInt64.lt_iff_toNat_lt, not_lt] at hle
    exact .inr ⟨hle, rfl⟩

theorem fresh_ok {cursor : StreamCursor}
    {result : SortedMap Nat ReplayAnchor × List VerifiedAcceptedEvent} (hsound : state.Sound)
    (hpre : state.preflight verified.request verified.page = .ok ())
    (hreplay : replayEvents state verified.request.after.position 0 state.anchors []
      verified.events = .ok result)
    (hcursor : verified.nextCursor state = .ok cursor)
    : Linked state.cursor.headHash state.cursor.position.toNat (result.2.map (·.receipt)) ∧
      cursor.position.toNat = state.cursor.position.toNat + result.2.length ∧
      cursor.headHash = lastHash state.cursor.headHash (result.2.map (·.receipt)) ∧
      result.1.entries = state.anchors.entries ++ result.2.map anchorEntry ∧
      ∀ event ∈ result.2, event ∈ verified.events := by
  obtain ⟨hafter, hanchor, -, -, -⟩ := ReplayState.preflight_ok hpre
  obtain ⟨hlinked, hposition, hhead, -, -⟩ := verified.page_ok
  obtain ⟨⟨old, hevents, hold, hfresh⟩, hentries⟩ :=
    replayEvents_ok hsound.head hsound.ends.le hafter hanchor hlinked hreplay
  have hcount : verified.events.length = old.length + result.2.length := by
    rw [hevents, List.length_append]
  have hmem : ∀ event ∈ result.2, event ∈ verified.events := by
    intro event hevent
    rw [hevents]
    exact List.mem_append_right _ hevent
  by_cases hnone : result.2 = []
  . rw [hnone] at hentries hmem hcount ⊢
    rcases nextCursor_ok hcursor with ⟨hlt, -⟩ | ⟨-, rfl⟩
    . rw [List.length_nil] at hcount
      omega
    . exact ⟨trivial, rfl, rfl, hentries, hmem⟩
  . obtain ⟨hat, hlast⟩ := hfresh hnone
    rw [Nat.add_zero] at hat
    rw [hevents, List.map_append, linked_append, List.length_map] at hlinked
    rw [hevents, List.map_append, lastHash_append, hlast] at hhead
    rw [hlast, hat] at hlinked
    have hpos := List.length_pos_iff.mpr hnone
    rcases nextCursor_ok hcursor with ⟨-, rfl⟩ | ⟨hle, -⟩
    . exact ⟨hlinked.2, by omega, hhead, hentries, hmem⟩
    . omega

theorem ends_of_linked {anchors anchors' : SortedMap Nat ReplayAnchor} {prev : String} {position : Nat}
    (hends : EndsAt position anchors) (hlinked : Linked prev position (fresh.map (·.receipt)))
    (hentries : anchors'.entries = anchors.entries ++ fresh.map anchorEntry)
    : EndsAt (position + fresh.length) anchors' := by
  obtain ⟨first, count, hkeys, hend⟩ := hends
  have hseqs := linked_seqs hlinked
  rw [List.map_map, List.length_map] at hseqs
  have hnew : (fresh.map anchorEntry).map Prod.fst = List.range' (position + 1) fresh.length := by
    rw [← hseqs, List.map_map]
    rfl
  have hold : anchors.entries.map Prod.fst = List.range' first (count + 1) := hkeys
  refine ⟨first, count + fresh.length, ?_, by omega⟩
  rw [SortedMap.keys, hentries, List.map_append, hold, hnew, ← hend, Nat.add_assoc, List.range'_append_1]
  congr 1
  omega

theorem head_of_linked {anchors anchors' : SortedMap Nat ReplayAnchor} {prev : String} {position : Nat}
    (hhead : ∃ anchor, anchors.get? position = some anchor ∧ anchor.headHash = prev)
    (hlinked : Linked prev position (fresh.map (·.receipt)))
    (hentries : anchors'.entries = anchors.entries ++ fresh.map anchorEntry)
    : ∃ anchor, anchors'.get? (position + fresh.length) = some anchor ∧
        anchor.headHash = lastHash prev (fresh.map (·.receipt)) := by
  cases hlast : fresh.getLast? with
  | none =>
    obtain ⟨anchor, hget, hsame⟩ := hhead
    rw [List.getLast?_eq_none_iff.mp hlast] at hentries ⊢
    refine ⟨anchor, ?_, hsame⟩
    rw [SortedMap.get?_eq_some] at hget ⊢
    rw [hentries]
    exact List.mem_append_left _ hget
  | some last =>
    obtain ⟨front, hfront⟩ := List.getLast?_eq_some_iff.mp hlast
    refine ⟨last.anchor, ?_, ?_⟩
    . rw [hfront, List.map_append, linked_append, List.length_map] at hlinked
      have hseq : last.receipt.serverSeq.toNat = position + fresh.length := by
        rw [hlinked.2.1, hfront, List.length_append, List.length_singleton, Nat.add_assoc]
      rw [SortedMap.get?_eq_some, hentries, ← hseq]
      apply List.mem_append_right
      exact List.mem_map_of_mem (List.mem_of_getLast? hlast)
    . apply (lastHash_getLast? _).symm
      rw [List.getLast?_map, hlast]
      rfl

theorem candidate_ok (hsound : state.Sound) (h : verified.candidate state = .ok (next, fresh))
    : Extends verified state next fresh := by
  obtain ⟨⟨⟩, hpre, h⟩ := Except.bind_eq_ok.mp h
  have hpre := Except.mapError_eq_ok.mp hpre
  split at h
  . cases h
  . next hauthority =>
    obtain ⟨result, hreplay, h⟩ := Except.bind_eq_ok.mp h
    obtain ⟨cursor, hcursor, h⟩ := Except.bind_eq_ok.mp h
    have hcursor := Except.mapError_eq_ok.mp hcursor
    cases h
    obtain ⟨hlinked, hposition, hhead, hentries, hmem⟩ :=
      fresh_ok hsound hpre (Except.mapError_eq_ok.mp hreplay) hcursor
    obtain ⟨-, -, hahead, hforks, hactive⟩ := ReplayState.preflight_ok hpre
    obtain ⟨-, -, -, hbound, hreached⟩ := verified.page_ok
    have hends := hposition ▸ ends_of_linked hsound.ends hlinked hentries
    obtain ⟨anchor, hget, hsame⟩ := head_of_linked hsound.head hlinked hentries
    obtain ⟨hpruned, hsub, hle⟩ := pruneAnchors_ok hends (Nat.le_refl _)
    refine ⟨⟨hpruned, ?_, hle, ?_, ?_⟩, hlinked, hposition, hhead, ?_, rfl, ?_, ?_⟩
    . obtain ⟨anchor', hmem'⟩ := hpruned.mem
      rw [← hposition] at hget
      have hget' := SortedMap.get?_eq_some.mpr (hsub hmem')
      refine ⟨anchor', SortedMap.get?_eq_some.mpr hmem', ?_⟩
      rw [hget] at hget'
      cases hget'
      exact hsame.trans hhead.symm
    . rintro bound ⟨⟩
      rcases nextCursor_ok hcursor with ⟨-, rfl⟩ | ⟨-, rfl⟩
      . exact hbound
      . exact hahead
    . rintro bound ⟨⟩ hat
      rcases nextCursor_ok hcursor with ⟨-, rfl⟩ | ⟨-, rfl⟩
      . exact hreached hat
      . exact (hforks hat.symm).symm
    . intro bound hold hne
      exact congrArg some (hactive bound hold hne)
    . intro authority hold
      rw [hold, Option.any_some, decide_eq_true_eq, not_not] at hauthority
      exact hauthority
    . exact fun event hevent => authority_of_mem (hmem event hevent)

end VerifiedPullPage

def recording {σ : Type} (sink : ReplaySink σ) : ReplaySink (σ × List VerifiedAcceptedEvent) :=
  fun reducer events =>
    match sink reducer.1 events with
    | (next, .ok ()) => ((next, reducer.2 ++ events), .ok ())
    | (next, .error message) => ((next, reducer.2), .error message)

structure Replay (σ : Type) where
  state : ReplayState
  reducer : σ × List VerifiedAcceptedEvent

namespace Replay

variable {σ : Type} {sink : ReplaySink σ} {replay next : Replay σ}

def received (replay : Replay σ) : List VerifiedAcceptedEvent := replay.reducer.2

def step (sink : ReplaySink σ) (replay : Replay σ) (verified : VerifiedPullPage isJson sha256)
    : Option (Replay σ) :=
  let applied := verified.apply (recording sink) replay.state replay.reducer
  some ⟨applied.1.1, applied.1.2⟩

def Initial (replay : Replay σ) : Prop :=
  (∃ streamId, ReplayState.new streamId = .ok replay.state) ∧ replay.received = []

structure Sound (replay : Replay σ) : Prop where
  state : replay.state.Sound
  linked : Linked emptyStreamHash 0 (replay.received.map (·.receipt))
  position : replay.received.length = replay.state.cursor.position.toNat
  headHash : replay.state.cursor.headHash
    = lastHash emptyStreamHash (replay.received.map (·.receipt))
  authority : ∀ event ∈ replay.received, replay.state.authority = some event.authority

theorem Sound.initial (h : Initial replay) : replay.Sound := by
  obtain ⟨⟨streamId, hnew⟩, hnone⟩ := h
  obtain ⟨hsound, -, hcursor⟩ := ReplayState.Sound.initial hnew
  refine ⟨hsound, ?_, ?_, ?_, ?_⟩
  . rw [hnone]
    trivial
  . rw [hnone, hcursor]
    rfl
  . rw [hnone, hcursor]
    rfl
  . rw [hnone]
    simp

theorem apply_cases (sink : ReplaySink σ) (verified : VerifiedPullPage isJson sha256) (replay : Replay σ)
    : ((∃ error, (verified.apply (recording sink) replay.state replay.reducer).2 = .error error) ∧
        (verified.apply (recording sink) replay.state replay.reducer).1.1 = replay.state ∧
        (verified.apply (recording sink) replay.state replay.reducer).1.2.2 = replay.received) ∨
      ∃ applied fresh, (verified.apply (recording sink) replay.state replay.reducer).2 = .ok applied ∧
        verified.candidate replay.state
          = .ok ((verified.apply (recording sink) replay.state replay.reducer).1.1, fresh) ∧
        (verified.apply (recording sink) replay.state replay.reducer).1.2.2
          = replay.received ++ fresh := by
  unfold VerifiedPullPage.apply
  split
  . exact .inl ⟨⟨_, rfl⟩, rfl, rfl⟩
  . next replayed fresh hcandidate =>
    rw [hcandidate]
    split
    . exact .inl ⟨⟨_, rfl⟩, rfl, rfl⟩
    . dsimp only
      split
      . next hempty =>
        rw [List.isEmpty_iff.mp hempty]
        exact .inr ⟨_, [], rfl, rfl, (List.append_nil _).symm⟩
      . split
        . next reducer message hsink =>
          refine .inl ⟨⟨_, rfl⟩, rfl, ?_⟩
          unfold recording at hsink
          split at hsink
          . cases hsink
          . cases hsink
            rfl
        . next reducer hsink =>
          refine .inr ⟨_, fresh, rfl, rfl, ?_⟩
          unfold recording at hsink
          split at hsink
          . cases hsink
            rfl
          . cases hsink

theorem Sound.step {verified : VerifiedPullPage isJson sha256} (h : replay.Sound)
    (hstep : replay.step sink verified = some next)
    : next.Sound := by
  cases hstep
  rcases apply_cases sink verified replay with
    ⟨-, hstate, hreceived⟩ | ⟨applied, fresh, -, hcandidate, hreceived⟩
  . refine ⟨hstate.symm ▸ h.state, ?_, ?_, ?_, ?_⟩
    . rw [Replay.received, hreceived]
      exact h.linked
    . rw [Replay.received, hreceived, hstate]
      exact h.position
    . rw [Replay.received, hreceived, hstate]
      exact h.headHash
    . rw [Replay.received, hreceived, hstate]
      exact h.authority
  . have hextends := VerifiedPullPage.candidate_ok h.state hcandidate
    refine ⟨hextends.sound, ?_, ?_, ?_, ?_⟩
    . rw [Replay.received, hreceived, List.map_append, linked_append, List.length_map, ← h.headHash,
        Nat.zero_add, h.position]
      exact ⟨h.linked, hextends.linked⟩
    . rw [Replay.received, hreceived, List.length_append, h.position]
      exact hextends.position.symm
    . rw [Replay.received, hreceived, List.map_append, lastHash_append, ← h.headHash]
      exact hextends.headHash
    . rw [Replay.received, hreceived]
      intro event hevent
      rw [hextends.authority]
      cases List.mem_append.mp hevent with
      | inl hold => exact congrArg some (hextends.bound _ (h.authority event hold)).symm
      | inr hnew => exact congrArg some (hextends.signed event hnew).symm

theorem sound_of_run (h : Reach.Any Initial (step sink : Replay σ → VerifiedPullPage isJson sha256 → _) replay)
    : replay.Sound := by
  apply h.invariant
  . exact fun _ => Sound.initial
  . exact fun _ _ _ hs _ hstep => hs.step hstep

end Replay

/--
Whatever pages are applied: the sink has taken the events of the positions 1, 2, 3, ... up to the cursor, each
once, hash linked and of one authority; the anchors are a range of positions that ends at the cursor with its
head; a snapshot that is not reached stays bound; and an application that fails leaves the state as it was.
-/
theorem replay_exactly_once {isJson : String → Bool} {sha256 : Sha256} {σ : Type}
    (sink : ReplaySink σ) (replay : Replay σ) (hrun : Reach.Any Replay.Initial
      (Replay.step sink : Replay σ → VerifiedPullPage isJson sha256 → _) replay)
    : (∀ (i : Nat) event, replay.received[i]? = some event →
        event.receipt.serverSeq.toNat = i + 1 ∧ replay.state.authority = some event.authority) ∧
      (∀ event, replay.received[0]? = some event →
        event.receipt.serverPrevHash = emptyStreamHash) ∧
      (∀ (i : Nat) before event, replay.received[i]? = some before →
        replay.received[i + 1]? = some event →
        event.receipt.serverPrevHash = before.receipt.serverHash) ∧
      replay.received.length = replay.state.cursor.position.toNat ∧
      (∃ first count, replay.state.anchors.keys = List.range' first (count + 1) ∧
        first + count = replay.state.cursor.position.toNat) ∧
      (∃ anchor, replay.state.anchors.get? replay.state.cursor.position.toNat = some anchor ∧
        anchor.headHash = replay.state.cursor.headHash) ∧
      ∀ verified : VerifiedPullPage isJson sha256,
        (∀ bound, replay.state.snapshot = some bound → replay.state.cursor ≠ bound →
          (verified.apply (recording sink) replay.state replay.reducer).1.1.snapshot = some bound) ∧
        ∀ error, (verified.apply (recording sink) replay.state replay.reducer).2 = .error error →
          (verified.apply (recording sink) replay.state replay.reducer).1.1 = replay.state ∧
          (verified.apply (recording sink) replay.state replay.reducer).1.2.2 = replay.received := by
  have h := Replay.sound_of_run hrun
  have hreceipt : ∀ {i : Nat} {event : VerifiedAcceptedEvent}, replay.received[i]? = some event →
      (replay.received.map (·.receipt))[i]? = some event.receipt := by
    intro i event hget
    rw [List.getElem?_map, hget]
    rfl
  refine ⟨?_, ?_, ?_, h.position, h.state.ends, h.state.head, ?_⟩
  . intro i event hget
    refine ⟨?_, h.authority event (List.mem_of_getElem? hget)⟩
    rw [(linked_getElem? h.linked (hreceipt hget)).1, Nat.zero_add]
  . intro event hget
    exact (linked_getElem? h.linked (hreceipt hget)).2
  . intro i before event hbefore hget
    rw [(linked_getElem? h.linked (hreceipt hget)).2, List.take_add_one, hreceipt hbefore, lastHash_append]
    rfl
  . intro verified
    rcases Replay.apply_cases sink verified replay with
      ⟨-, hstate, hreceived⟩ | ⟨applied, fresh, hok, hcandidate, -⟩
    . refine ⟨?_, fun _ _ => ⟨hstate, hreceived⟩⟩
      intro bound hbound _
      rw [hstate]
      exact hbound
    . refine ⟨(VerifiedPullPage.candidate_ok h.state hcandidate).snapshot, ?_⟩
      intro error herror
      rw [hok] at herror
      cases herror

def sampleRequest (after : Nat) : PullRequest :=
  { protocol := protocolV2
    requestId := "01890f3e-9b4a-7cc2-8a1a-0123456789ab"
    streamId := "project:alpha"
    after := ⟨UInt64.ofNat after, sampleHash after⟩
    snapshot := .latest
    selection := .wholeStream
    limit := 256 }

def samplePage (events : List Nat) : PullPage :=
  { protocol := protocolV2
    streamId := "project:alpha"
    events := events.map sampleEvent
    nextCursor := ⟨UInt64.ofNat (events.getLastD 0), sampleHash (events.getLastD 0)⟩
    snapshotCursor := ⟨2, sampleHash 2⟩
    complete := events.getLastD 0 == 2
    attestation :=
      { authorityId := hyphaeAuthority
        issuedAt := "2026-07-15T20:00:00Z"
        keyId := "key-1"
        signature := "AAAAAAAAAAAAAAAA" } }

theorem sampleEvent_hash (n : Nat) (hpreimage : ((sampleEnvelope n).wirePreimage (fun _ => true)).isOk = true)
    : (sampleEnvelope n).wireHash (fun _ => true) sha256Digest = .ok (sampleEvent n).receipt.envelopeHash ∧
      validateHash (sampleEvent n).receipt.envelopeHash = .ok () := by
  cases h : (sampleEnvelope n).wirePreimage (fun _ => true) with
  | error error =>
    rw [h] at hpreimage
    cases hpreimage
  | ok preimage =>
    have hhash : (sampleEnvelope n).wireHash (fun _ => true) sha256Digest = .ok (hex (sha256Digest preimage)) := by
      unfold EventEnvelope.wireHash
      rw [h]
      rfl
    unfold sampleEvent
    dsimp only
    rw [hhash]
    exact ⟨rfl, validateHash_hex _⟩

theorem sampleEvent_valid {n index : Nat} {request : PullRequest} {ids : List String} {before : String}
    {rest : List AcceptedEvent} (hn : n ∈ [1, 2]) (hids : ids.contains (sampleEnvelope n).clientEventId = false)
    (hseq : AppendResponse.expectedSeq request.after.position index "events" = .ok (UInt64.ofNat n))
    (hbefore : sampleHash (n - 1) = before)
    : PullPage.validateEvents (fun _ => true) sha256Digest request "project:alpha" index ids before
        (sampleEvent n :: rest)
      = PullPage.validateEvents (fun _ => true) sha256Digest request "project:alpha" (index + 1)
        ((sampleEnvelope n).clientEventId :: ids) (sampleHash n) rest := by
  have hvalid : ∀ n ∈ [1, 2], (sampleEnvelope n).validate (fun _ => true) = .ok () ∧
      ((sampleEnvelope n).wirePreimage (fun _ => true)).isOk = true ∧
      { (sampleEvent n).receipt with envelopeHash := emptyStreamHash }.validateShape = .ok () := by
    decide +kernel
  obtain ⟨henvelope, hpreimage, hreceipt⟩ := hvalid n hn
  obtain ⟨hwire, hhash⟩ := sampleEvent_hash n hpreimage
  have hshape : (sampleEvent n).receipt.validateShape = .ok () := Receipt.validateShape_of_hash hreceipt hhash
  rw [PullPage.validateEvents.eq_def]
  dsimp only
  rw [show (sampleEvent n).envelope = sampleEnvelope n from rfl, henvelope, hshape, hwire, hids, hseq,
    show (sampleEvent n).receipt.serverPrevHash = before from hbefore]
  have hfields : ((sampleEnvelope n).streamId == "project:alpha" && (sampleEvent n).receipt.streamId == "project:alpha"
      && (sampleEnvelope n).clientEventId == (sampleEvent n).receipt.clientEventId) = true := by
    rw [show (sampleEvent n).receipt.clientEventId = (sampleEnvelope n).clientEventId from rfl, beq_self_eq_true,
      Bool.and_true]
    rfl
  have hnumber : ((sampleEvent n).receipt.serverSeq == UInt64.ofNat n) = true := beq_self_eq_true _
  simp only [bind, Except.bind, hfields, hnumber, beq_self_eq_true]
  rfl

theorem samplePage_valid {after : Nat} {events : List Nat}
    (hmem : (after, events) ∈ [(0, [1]), (0, [1, 2]), (1, [2])])
    (hevents : PullPage.validateEvents (fun _ => true) sha256Digest (sampleRequest after) "project:alpha" 0 []
      (sampleHash after) (events.map sampleEvent) = .ok ())
    : (samplePage events).validateAgainst (fun _ => true) sha256Digest (sampleRequest after) = .ok () := by
  have hevents : PullPage.validateEvents (fun _ => true) sha256Digest (sampleRequest after)
      (samplePage events).streamId 0 [] (sampleRequest after).after.headHash (samplePage events).events = .ok () :=
    hevents
  unfold PullPage.validateAgainst
  simp only [hevents]
  simp only [List.mem_cons, Prod.mk.injEq, List.not_mem_nil, or_false] at hmem
  obtain ⟨rfl, rfl⟩ | ⟨rfl, rfl⟩ | ⟨rfl, rfl⟩ := hmem
  . decide +kernel
  . decide +kernel
  . decide +kernel

theorem sampleEvents_valid
    : let valid := fun after events => PullPage.validateEvents (fun _ => true) sha256Digest (sampleRequest after)
        "project:alpha" 0 [] (sampleHash after) (events.map sampleEvent) = .ok ()
      valid 0 [1] ∧ valid 0 [1, 2] ∧ valid 1 [2] := by
  have hfirst := fun rest =>
    @sampleEvent_valid 1 0 (sampleRequest 0) [] (sampleHash 0) rest (by decide) (by decide) (by decide) rfl
  have hsecond := @sampleEvent_valid 2 1 (sampleRequest 0) [(sampleEnvelope 1).clientEventId] (sampleHash 1) []
    (by decide) (by decide) (by decide) rfl
  have hlater := @sampleEvent_valid 2 0 (sampleRequest 1) [] (sampleHash 1) [] (by decide) (by decide) (by decide) rfl
  simp only [List.map_cons, List.map_nil]
  rw [hfirst, hfirst, hsecond, hlater]
  exact ⟨rfl, rfl, rfl⟩

def sampleVerified (after : Nat) (events : List Nat)
    (valid : (samplePage events).validateAgainst (fun _ => true) sha256Digest (sampleRequest after)
      = .ok ())
    : VerifiedPullPage (fun _ => true) sha256Digest :=
  ⟨sampleRequest after, samplePage events, (samplePage events).attestation.authorityId, valid⟩

def countingSink : ReplaySink Nat := fun reducer events => (reducer + events.length, .ok ())

def sampleReplay : Replay Nat where
  state :=
    { streamId := "project:alpha"
      authority := none
      cursor := .genesis
      snapshot := none
      anchors := .singleton 0 ⟨StreamCursor.genesis.headHash, none⟩ }
  reducer := (0, [])

theorem sampleReplay_initial : Replay.Initial sampleReplay := by
  have hid : validateStreamId "project:alpha" = .ok () := by decide
  refine ⟨⟨"project:alpha", ?_⟩, rfl⟩
  unfold ReplayState.new
  rw [hid]
  rfl

-- A page, one that overlaps it and a stale one again.
theorem replay_exactly_once_overlapping
    : ∃ (first overlapping stale : VerifiedPullPage (fun _ => true) sha256Digest)
        (replay : Replay Nat),
        Reach.exec (Replay.step countingSink) sampleReplay [first, overlapping, stale]
          = some replay ∧
        replay.reducer.1 = 2 ∧ replay.received.length = replay.state.cursor.position.toNat ∧
        ∀ before event, replay.received[0]? = some before → replay.received[1]? = some event →
          event.receipt.serverPrevHash = before.receipt.serverHash := by
  let first := sampleVerified 0 [1] (samplePage_valid (by decide) sampleEvents_valid.1)
  let overlapping := sampleVerified 0 [1, 2] (samplePage_valid (by decide) sampleEvents_valid.2.1)
  let stale := sampleVerified 1 [2] (samplePage_valid (by decide) sampleEvents_valid.2.2)
  have hran : (Reach.exec (Replay.step countingSink) sampleReplay [first, overlapping, stale]).any
      (fun replay => replay.reducer.1 = 2) = true := by decide
  obtain ⟨replay, hexec, htest⟩ := (Option.any_eq_true _ _).mp hran
  have hrun := Reach.exec_any _ (.init sampleReplay_initial) hexec
  obtain ⟨-, -, hlinked, hposition, -⟩ := replay_exactly_once countingSink replay hrun
  exact ⟨first, overlapping, stale, replay, hexec, of_decide_eq_true htest, hposition, hlinked 0⟩

end Hyphae

end Pliego
