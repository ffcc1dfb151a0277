import Pliego.Data.CacheIsolation

/-!
Invalidations. Nothing orders an insert after one: a value whose loader is still running when its target is
invalidated is stored afterwards, and served. So the results about what is served are about the runs without such
inserts.
-/

namespace Pliego

open Bytes

namespace Data

namespace InvalidationRequest

variable {sha256 : Sha256} {a b request : InvalidationRequest}

def Targets (request : InvalidationRequest) (digest : String) (record : CacheStoreRecord) : Prop :=
  request.exactKey = some digest ∨
    (record.nameSpace = request.policy.nameSpace ∧
      record.compatibilityEpoch = request.policy.compatibilityEpoch ∧
      ∃ tag ∈ record.tags, tag ∈ request.tags)

instance (request : InvalidationRequest) (digest : String) (record : CacheStoreRecord)
    : Decidable (request.Targets digest record) := by
  unfold Targets
  infer_instance

def InScope (request : InvalidationRequest) (record : CacheStoreRecord) : Prop :=
  record.nameSpace = request.policy.nameSpace ∧ record.compatibilityEpoch = request.policy.compatibilityEpoch

instance (request : InvalidationRequest) (record : CacheStoreRecord) : Decidable (request.InScope record) := by
  unfold InScope
  infer_instance

theorem hits_iff {digest : String} {record : CacheStoreRecord}
    : request.hits digest record = true ↔ request.Targets digest record := by
  unfold hits InMemoryCacheStore.hit Targets
  simp only [Bool.or_eq_true, beq_iff_eq, Bool.and_eq_true, Bool.not_eq_true', List.any_eq_true,
    List.contains_iff_mem, List.isEmpty_eq_false_iff]
  constructor
  . rintro (h | ⟨⟨⟨-, hname⟩, hepoch⟩, htag⟩)
    . exact .inl h
    . exact .inr ⟨hname, hepoch, htag⟩
  . rintro (h | ⟨hname, hepoch, tag, hmem, htag⟩)
    . exact .inl h
    . exact .inr ⟨⟨⟨List.ne_nil_of_mem htag, hname⟩, hepoch⟩, tag, hmem, htag⟩

structure SameDelivery (a b : InvalidationRequest) : Prop where
  id : a.policy.id = b.policy.id
  semanticRevision : a.policy.semanticRevision = b.policy.semanticRevision
  nameSpace : a.policy.nameSpace = b.policy.nameSpace
  compatibilityEpoch : a.policy.compatibilityEpoch = b.policy.compatibilityEpoch
  tags : a.tags = b.tags
  exactKey : a.exactKey = b.exactKey
  causeReceipt : a.causeReceipt = b.causeReceipt

structure Valid (request : InvalidationRequest) : Prop where
  policy : request.policy.Valid
  tags : ∀ tag ∈ request.tags, validateStableId tag = true
  exactKey : ∀ key, request.exactKey = some key → (utf8 key).length < 256 ^ 8 ∧ key ≠ ""

theorem Built.valid (h : request.Built sha256) : request.Valid := by
  cases h with
  | ofTags hpolicy htags h =>
    unfold InvalidationRequest.ofTags at h
    dsimp only at h
    split at h
    . cases h
    . cases h
      exact ⟨hpolicy.valid, validateStableId_foldl_setInsert htags (by simp), by simp⟩
  | @ofKey policy key cause request hpolicy h =>
    unfold InvalidationRequest.ofKey at h
    split at h
    . cases h
    . cases h
      refine ⟨hpolicy.valid, by simp, ?_⟩
      rintro _ ⟨⟩
      rw [key.digest_eq]
      have hlen := length_encodeHex (sha256 key.preimage).bytes
      rw [(sha256 key.preimage).length_eq] at hlen
      refine ⟨by omega, ?_⟩
      intro hempty
      rw [hempty] at hlen
      cases hlen

theorem SameDelivery.replayId_eq (h : a.SameDelivery b) : a.replayId sha256 = b.replayId sha256 := by
  unfold replayId replayPreimage replayHead
  rw [h.id, h.semanticRevision, h.nameSpace, h.compatibilityEpoch, h.tags, h.exactKey, h.causeReceipt]

theorem sameDelivery_of_replayId_eq (ha : a.Valid) (hb : b.Valid)
    (hcause : validateStableId a.causeReceipt = true) (hcause' : validateStableId b.causeReceipt = true)
    (hsha : sha256 a.replayPreimage = sha256 b.replayPreimage → a.replayPreimage = b.replayPreimage)
    (h : a.replayId sha256 = b.replayId sha256)
    : a.SameDelivery b := by
  have hpre := eq_of_hex_sha256_eq hsha h
  have hfields : ∀ {request : InvalidationRequest}, request.Valid →
      validateStableId request.causeReceipt = true →
      ∀ field ∈ request.replayHead, field.length < 256 ^ 8 := by
    intro request hvalid hcause field hfield
    have hkey : (utf8 (request.exactKey.getD "")).length < 256 ^ 8 := by
      cases hkey : request.exactKey with
      | none => decide
      | some key => exact (hvalid.exactKey key hkey).1
    simp only [replayHead, List.mem_cons, List.not_mem_nil, or_false] at hfield
    rcases hfield with rfl | rfl | rfl | rfl | rfl | rfl
    . exact (length_of_validateStableId hvalid.policy.id).1
    . simp
    . exact (length_of_validateStableId hvalid.policy.nameSpace).1
    . simp
    . exact (length_of_validateStableId hcause).1
    . exact hkey
  have htags : ∀ {request : InvalidationRequest}, request.Valid →
      ∀ field ∈ request.tags.map utf8, field.length < 256 ^ 8 := by
    intro request hvalid field hfield
    obtain ⟨tag, htag, rfl⟩ := List.mem_map.mp hfield
    exact (length_of_validateStableId (hvalid.tags tag htag)).1
  unfold replayPreimage at hpre
  rw [List.append_assoc, List.append_assoc _ _ (b.tags.flatMap _), List.append_cancel_left_eq] at hpre
  have hlen : a.replayHead.length = b.replayHead.length := by simp [replayHead]
  obtain ⟨hhead, hrest⟩ := flatMap_lenPrefixed_append_inj hlen (hfields ha hcause)
    (hfields hb hcause') hpre
  have hmap : ∀ tags : List String, tags.flatMap (fun tag => lenPrefixed (utf8 tag))
      = (tags.map utf8).flatMap lenPrefixed := by
    intro tags
    rw [List.flatMap_map]
  rw [hmap, hmap] at hrest
  have hrest := flatMap_lenPrefixed_inj (htags ha) (htags hb) hrest
  simp only [replayHead, List.cons.injEq, and_true] at hhead
  obtain ⟨hid, hrevision, hname, hepoch, hcauses, hkeys⟩ := hhead
  refine ⟨utf8_inj hid, beBytes_inj ha.policy.semanticRevision hb.policy.semanticRevision hrevision,
    utf8_inj hname,
    beBytes_inj ha.policy.compatibilityEpoch hb.policy.compatibilityEpoch hepoch,
    List.map_injective_iff.mpr (fun _ _ h => utf8_inj h) hrest, ?_, utf8_inj hcauses⟩
  have hkeys := utf8_inj hkeys
  cases hak : a.exactKey with
  | none =>
    cases hbk : b.exactKey with
    | none => rfl
    | some key =>
      rw [hak, hbk, Option.getD_none, Option.getD_some] at hkeys
      exact absurd hkeys.symm (hb.exactKey key hbk).2
  | some key =>
    cases hbk : b.exactKey with
    | none =>
      rw [hak, hbk, Option.getD_none, Option.getD_some] at hkeys
      exact absurd hkeys (ha.exactKey key hak).2
    | some key' =>
      rw [hak, hbk, Option.getD_some, Option.getD_some] at hkeys
      rw [hkeys]

end InvalidationRequest

namespace InvalidationReplayWindow

structure Holds (window : InvalidationReplayWindow) (issued : List (String × InvalidationEvent))
    : Prop where
  order : window.order = ((issued.take maxInvalidationReplayEvents).map (·.1)).reverse
  nodup : ((issued.take maxInvalidationReplayEvents).map (·.1)).Nodup
  events : ∀ replayId, window.events.lookup replayId
    = (issued.take maxInvalidationReplayEvents).lookup replayId

theorem Holds.empty : Holds ⟨[], []⟩ [] where
  order := by simp
  nodup := by simp
  events := by simp

theorem expire_of_length_le {fuel : Nat} {window : InvalidationReplayWindow}
    (h : window.order.length ≤ maxInvalidationReplayEvents)
    : expire fuel window = window := by
  cases fuel with
  | zero => rfl
  | succ fuel =>
    unfold expire
    split
    . rw [if_neg (by omega)]
    . rfl

theorem expire_oldest {fuel : Nat} {events : List (String × InvalidationEvent)} {expired : String}
    {order : List String} (h : order.length = maxInvalidationReplayEvents)
    : expire (fuel + 1) ⟨events, expired :: order⟩
        =
      ⟨events.filter (fun kept => kept.1 != expired), order⟩ := by
  unfold expire
  dsimp only
  rw [if_pos (by rw [List.length_cons]; omega), expire_of_length_le (le_of_eq h)]

theorem lookup_of_mem_nodup {α : Type} {entries : List (String × α)} {key : String} {value : α}
    (hnodup : (entries.map (·.1)).Nodup) (h : (key, value) ∈ entries)
    : entries.lookup key = some value := by
  obtain ⟨before, after, hsplit⟩ := List.append_of_mem h
  refine List.lookup_eq_some_iff.mpr ⟨before, after, hsplit, ?_⟩
  intro entry hentry
  rw [bne_iff_ne]
  intro heq
  rw [hsplit, List.map_append, List.map_cons, List.nodup_append] at hnodup
  exact hnodup.2.2 entry.1 (List.mem_map_of_mem hentry) key (by simp) heq.symm

theorem not_mem_of_lookup_eq_none {α : Type} {entries : List (String × α)} {key : String}
    (h : entries.lookup key = none)
    : key ∉ entries.map (·.1) := by
  intro hmem
  obtain ⟨entry, hentry, rfl⟩ := List.mem_map.mp hmem
  have := List.lookup_eq_none_iff.mp h entry hentry
  simp at this

theorem Holds.record {window : InvalidationReplayWindow}
    {issued : List (String × InvalidationEvent)} {replayId : String} {event : InvalidationEvent}
    (h : window.Holds issued) (hnew : window.events.lookup replayId = none)
    : (window.record replayId event).Holds ((replayId, event) :: issued) := by
  rw [h.events] at hnew
  have hfresh := not_mem_of_lookup_eq_none hnew
  have hlookup : ∀ other, ((replayId, event) :: window.events.filter
      (fun kept => kept.1 != replayId)).lookup other
        = if other = replayId then some event
          else (issued.take maxInvalidationReplayEvents).lookup other := by
    intro other
    rw [List.lookup_cons, lookup_filter_ne, h.events]
    by_cases hother : other = replayId
    . rw [if_pos hother, if_pos hother, beq_iff_eq.mpr hother]
    . rw [if_neg hother, if_neg hother, beq_false_of_ne hother]
  unfold InvalidationReplayWindow.record
  dsimp only
  by_cases hlen : issued.length < maxInvalidationReplayEvents
  . have htake : issued.take maxInvalidationReplayEvents = issued := List.take_of_length_le (by omega)
    have htake' : ((replayId, event) :: issued).take maxInvalidationReplayEvents
        = (replayId, event) :: issued := List.take_of_length_le (by simp; omega)
    have horder := h.order
    have hnodup := h.nodup
    rw [htake] at horder hnodup hfresh hlookup
    rw [expire_of_length_le (by simp [horder]; omega)]
    refine ⟨?_, ?_, ?_⟩
    . rw [htake', horder, List.map_cons, List.reverse_cons]
    . rw [htake', List.map_cons, List.nodup_cons]
      exact ⟨hfresh, hnodup⟩
    . intro other
      rw [hlookup, htake', List.lookup_cons]
      by_cases hother : other = replayId
      . rw [if_pos hother, beq_iff_eq.mpr hother]
      . rw [if_neg hother, beq_false_of_ne hother]
  . -- the oldest of the window makes room
    obtain ⟨n, hmax⟩ : ∃ n, maxInvalidationReplayEvents = n + 1 := ⟨4095, rfl⟩
    obtain ⟨oldest, hsplit⟩ : ∃ oldest,
        issued.take maxInvalidationReplayEvents = issued.take n ++ [oldest] := by
      rw [hmax, List.take_succ_eq_append_getElem (by omega)]
      exact ⟨_, rfl⟩
    have htake : ((replayId, event) :: issued).take maxInvalidationReplayEvents
        = (replayId, event) :: issued.take n := by rw [hmax, List.take_succ_cons]
    have horder := h.order
    have hnodup := h.nodup
    rw [hsplit, List.map_append, List.map_singleton] at horder hnodup hfresh
    rw [hsplit] at hlookup
    rw [List.reverse_append, List.reverse_singleton, List.singleton_append] at horder
    rw [List.nodup_append] at hnodup
    have hfront : (issued.take n).length = n := by rw [List.length_take]; omega
    have hold : oldest.1 ∉ (issued.take n).map (·.1) :=
      fun hmem => hnodup.2.2 oldest.1 hmem oldest.1 (by simp) rfl
    rw [List.mem_append, List.mem_singleton, not_or] at hfresh
    rw [horder, List.cons_append, List.length_cons,
      expire_oldest (by simp only [List.length_append, List.length_reverse, List.length_map, hfront,
        hmax, List.length_singleton])]
    refine ⟨?_, ?_, ?_⟩
    . rw [htake, List.map_cons, List.reverse_cons]
    . rw [htake, List.map_cons, List.nodup_cons]
      exact ⟨hfresh.1, hnodup.1⟩
    . intro other
      dsimp only
      rw [lookup_filter_ne, hlookup, htake, List.lookup_cons]
      by_cases hother : other = replayId
      . rw [if_neg (by rw [hother]; exact hfresh.2), if_pos hother, beq_iff_eq.mpr hother]
      . rw [if_neg hother, beq_false_of_ne hother]
        by_cases hoverdue : other = oldest.1
        . rw [if_pos hoverdue]
          symm
          rw [List.lookup_eq_none_iff]
          intro entry hentry
          rw [bne_iff_ne, hoverdue]
          intro heq
          apply hold
          rw [heq]
          exact List.mem_map_of_mem hentry
        . rw [if_neg hoverdue, List.lookup_append, List.lookup_cons, beq_false_of_ne hoverdue]
          simp

end InvalidationReplayWindow

namespace Caches

variable {sha256 : Sha256} {V : Type} {codec : CacheCodec V} {caches next : Caches sha256 V}

def visits (caches : Caches sha256 V) (store : Nat) : List Invalidation :=
  caches.active.toList.filter
      (fun invalidation => store ∈ invalidation.replicas && store ∉ invalidation.pending)
    ++ (caches.returned.map (·.invalidation)).filter
      (fun invalidation => store ∈ invalidation.replicas)

def storing (codec : CacheCodec V) (caches : Caches sha256 V) (i : Nat)
    (clock : Except CacheError Nat) : Option (Nat × String × CacheStoreRecord × Nat) :=
  match caches.threads[i]? with
  | some ⟨m, key, tags, _, .inserting started value _⟩ =>
    match caches.managers[m]? with
    | none => none
    | some manager =>
      match manager.policy.record codec key.key value tags clock with
      | .error _ => none
      | .ok record => some (manager.store, key.key.digest, record, started)
  | _ => none

def inScope (invalidation : Invalidation) (store : InMemoryCacheStore (Insertion sha256 V)) : Bool :=
  store.entries.all (fun kept =>
    invalidation.request.exactKey ≠ some kept.1 || invalidation.request.InScope kept.2.record)

/--
Nothing is stored that an invalidation, begun after its loader started, has removed before; an exact key names no
entry of another namespace or epoch on the replica that is visited; and the sequence does not wrap around.
-/
def InOrder (codec : CacheCodec V) (caches : Caches sha256 V) (label : CacheStep sha256 V) : Prop :=
  match label with
  | .store i clock =>
    match caches.storing codec i clock with
    | none => True
    | some (store, digest, record, started) =>
      ∀ invalidation ∈ caches.visits store,
        invalidation.request.Targets digest record → invalidation.begun ≤ started
  | .begin _ _ => caches.sequence + 1 < 2 ^ 64
  | .apply =>
    ∀ invalidation ∈ caches.active, ∀ replica ∈ invalidation.pending.head?, ∀ store ∈ caches.stores[replica]?,
      inScope invalidation store = true
  | _ => True

instance (codec : CacheCodec V) (caches : Caches sha256 V) (label : CacheStep sha256 V)
    : Decidable (InOrder codec caches label) := by
  unfold InOrder
  split
  . split
    . infer_instance
    . infer_instance
  . infer_instance
  . infer_instance
  . infer_instance

theorem mem_visits {store : Nat} {invalidation : Invalidation}
    : invalidation ∈ caches.visits store
        ↔
      (caches.active = some invalidation ∧ store ∈ invalidation.replicas ∧
          store ∉ invalidation.pending) ∨
        ∃ returned ∈ caches.returned, returned.invalidation = invalidation ∧
          store ∈ invalidation.replicas := by
  simp only [visits, List.mem_append, List.mem_filter, Option.mem_toList, Bool.and_eq_true,
    decide_eq_true_eq, List.mem_map]
  constructor
  . rintro (⟨hactive, hvisited⟩ | ⟨⟨returned, hmem, heq⟩, hvisited⟩)
    . exact .inl ⟨hactive, hvisited⟩
    . exact .inr ⟨returned, hmem, heq, hvisited⟩
  . rintro (⟨hactive, hvisited⟩ | ⟨returned, hmem, heq, hvisited⟩)
    . exact .inl ⟨hactive, hvisited⟩
    . exact .inr ⟨⟨returned, hmem, heq⟩, hvisited⟩

theorem visits_eq (h : next.coordinator = caches.coordinator) (store : Nat)
    : next.visits store = caches.visits store := by
  simp only [coordinator, Prod.mk.injEq] at h
  unfold visits
  rw [h.2.2.1, h.2.2.2]

theorem returned_eq (h : next.coordinator = caches.coordinator) : next.returned = caches.returned := by
  simp only [coordinator, Prod.mk.injEq] at h
  exact h.2.2.2

theorem getElem?_set_cases {α : Type} {l : List α} {i j : Nat} {x y : α} (h : (l.set i x)[j]? = some y)
    : (j = i ∧ y = x) ∨ (j ≠ i ∧ l[j]? = some y) := by
  rw [List.getElem?_set] at h
  split at h
  . next hij =>
    split at h
    . cases h
      exact .inl ⟨hij.symm, rfl⟩
    . cases h
  . next hij => exact .inr ⟨Ne.symm hij, h⟩

/--
The value was read at some time, and every invalidation that had returned by then, and that targets what
was read, had begun before its loader started.
-/
def FreshRead (codec : CacheCodec V) (caches : Caches sha256 V) (digest : String) (value : V)
    (read : Option (CacheRead sha256 V)) : Prop :=
  ∃ origin, read = some origin ∧ origin.time < caches.time ∧
    codec.fromSlice origin.entry.record.value = some value ∧
    ∀ returned ∈ caches.returned, returned.returned < origin.time →
      origin.store ∈ returned.invalidation.replicas →
      returned.invalidation.request.Targets digest origin.entry.record →
      returned.invalidation.begun ≤ origin.entry.origin.started

structure Fresh (codec : CacheCodec V) (caches : Caches sha256 V) : Prop where
  stores : ∀ r store, caches.stores[r]? = some store → ∀ kept ∈ store.entries,
    ∀ invalidation ∈ caches.visits r, invalidation.request.Targets kept.1 kept.2.record →
      invalidation.begun ≤ kept.2.origin.started
  reads : ∀ thread ∈ caches.threads, ∀ current read value, thread.pc = .looked (.ok current) read →
    current.value = some value → FreshRead codec caches thread.key.key.digest value read

theorem Fresh.initial (h : Initial caches) : Fresh codec caches where
  stores := by
    intro r store hstore kept hkept
    rw [h.stores store (List.mem_of_getElem? hstore)] at hkept
    cases hkept
  reads := by simp [h.threads]

theorem FreshRead.later {digest : String} {value : V} {read : Option (CacheRead sha256 V)}
    (h : FreshRead codec caches digest value read) (htime : next.time = caches.time + 1)
    (hreturned : ∀ returned ∈ next.returned, returned ∈ caches.returned ∨
      returned.returned = caches.time)
    : FreshRead codec next digest value read := by
  obtain ⟨origin, hread, hbefore, hvalue, hfresh⟩ := h
  refine ⟨origin, hread, by omega, hvalue, ?_⟩
  intro returned hmem hlate
  cases hreturned returned hmem with
  | inl hold => exact hfresh returned hold hlate
  | inr hnew => omega

theorem Fresh.moved (h : Fresh codec caches) (hmoves : Moves caches next) (htime : next.time = caches.time + 1)
    (hreturned : ∀ returned ∈ next.returned, returned ∈ caches.returned ∨
      returned.returned = caches.time)
    : ∀ thread ∈ next.threads, ∀ current read value, thread.pc = .looked (.ok current) read →
        current.value = some value → FreshRead codec next thread.key.key.digest value read := by
  intro thread hthread current read value hpc hvalue
  cases hmoves.threads thread hthread with
  | inl hold => exact (h.reads thread hold current read value hpc hvalue).later htime hreturned
  | inr hquiet =>
    rw [hquiet current read hpc] at hvalue
    cases hvalue

theorem storing_eq {i : Nat} {thread : Thread sha256 V} {manager : CacheManager}
    {record : CacheStoreRecord} {started : Nat} {value : V} {insertFor : InsertFor}
    {clock : Except CacheError Nat} (hthread : caches.threads[i]? = some thread)
    (hmanager : caches.managers[thread.manager]? = some manager)
    (hpc : thread.pc = .inserting started value insertFor)
    (hrecord : manager.policy.record codec thread.key.key value thread.tags clock = .ok record)
    : caches.storing codec i clock
        = some (manager.store, thread.key.key.digest, record, started) := by
  obtain ⟨m, key, tags, fills, pc⟩ := thread
  dsimp only at hmanager hpc hrecord ⊢
  subst hpc
  unfold storing
  rw [hthread]
  dsimp only
  rw [hmanager]
  dsimp only
  rw [hrecord]

variable {label : CacheStep sha256 V}

theorem Fresh.effect {acted : Caches sha256 V} (h : Fresh codec caches) (horder : InOrder codec caches label)
    (heffect : Effect codec caches label acted) (hnext : next = { acted with time := caches.time + 1 })
    : Fresh codec next := by
  have htime : next.time = caches.time + 1 := by rw [hnext]
  cases heffect with
  | quiet hstores hinserted hcoordinator hmoves =>
    have hcoordinator : next.coordinator = caches.coordinator := by rw [hnext]; exact hcoordinator
    constructor
    . intro r store hstore kept hkept invalidation
      rw [visits_eq hcoordinator]
      rw [hnext, hstores] at hstore
      exact h.stores r store hstore kept hkept invalidation
    . have hmoves : Moves caches next := by rw [hnext]; exact ⟨hmoves.threads, hmoves.keys⟩
      apply h.moved hmoves htime
      rw [returned_eq hcoordinator]
      exact fun _ => .inl
  | @served i thread manager store entry value receipt hthread hmanager hstore hentry hvalue hacted =>
    rw [hacted] at hnext
    constructor
    . rw [hnext]
      exact h.stores
    . intro other hother current read value' hpc hvalue'
      rw [hnext] at hother
      cases List.mem_or_eq_of_mem_set hother with
      | inl hold =>
        apply (h.reads other hold current read value' hpc hvalue').later htime
        rw [hnext]
        exact fun _ => .inl
      | inr hnew =>
        subst hnew
        cases hpc
        cases hvalue'
        refine ⟨_, rfl, by dsimp only; omega, hvalue, ?_⟩
        intro returned hmem _ hvisited htarget
        apply h.stores manager.store store hstore _ hentry _ _ htarget
        rw [hnext] at hmem
        exact mem_visits.mpr (.inr ⟨returned, hmem, rfl, hvisited⟩)
  | @removed r store key hstore hstores hinserted hcoordinator hmoves =>
    have hcoordinator : next.coordinator = caches.coordinator := by rw [hnext]; exact hcoordinator
    constructor
    . intro r' store' hstore' kept hkept invalidation
      rw [visits_eq hcoordinator]
      rw [hnext, hstores] at hstore'
      rcases getElem?_set_cases hstore' with ⟨rfl, rfl⟩ | ⟨-, hold⟩
      . exact h.stores r' store hstore kept (InMemoryCacheStore.mem_remove hkept) invalidation
      . exact h.stores r' store' hold kept hkept invalidation
    . have hmoves : Moves caches next := by rw [hnext]; exact ⟨hmoves.threads, hmoves.keys⟩
      apply h.moved hmoves htime
      rw [returned_eq hcoordinator]
      exact fun _ => .inl
  | @stored i thread manager store store' record started value insertFor clock hlabel hthread
      hmanager hpc hstore hrecord hput hstores hinserted hcoordinator hmoves =>
    have hcoordinator : next.coordinator = caches.coordinator := by rw [hnext]; exact hcoordinator
    constructor
    . intro r store'' hstore'' kept hkept invalidation
      rw [visits_eq hcoordinator]
      rw [hnext, hstores] at hstore''
      rcases getElem?_set_cases hstore'' with ⟨rfl, rfl⟩ | ⟨-, hold⟩
      . cases InMemoryCacheStore.put_cases hput kept hkept with
        | inl hself =>
          rw [hself]
          rw [hlabel] at horder
          dsimp only [InOrder] at horder
          rw [storing_eq hthread hmanager hpc hrecord] at horder
          exact horder invalidation
        | inr hold => exact h.stores _ store hstore kept hold invalidation
      . exact h.stores r store'' hold kept hkept invalidation
    . have hmoves : Moves caches next := by rw [hnext]; exact ⟨hmoves.threads, hmoves.keys⟩
      apply h.moved hmoves htime
      rw [returned_eq hcoordinator]
      exact fun _ => .inl
  | begun _ hactive _ _ hacted =>
    rw [hacted] at hnext
    constructor
    . intro r store hstore kept hkept invalidation hvisit
      rw [hnext] at hstore hvisit
      apply h.stores r store hstore kept hkept invalidation
      rw [mem_visits] at hvisit ⊢
      rcases hvisit with ⟨hself, hin, hout⟩ | hold
      . cases hself
        exact absurd hin hout
      . exact .inr hold
    . rw [hnext]
      exact h.moved (.rest rfl) rfl (fun _ => .inl)
  | @applied invalidation r removed pending store hactive hpending hstore hacted =>
    rw [hacted] at hnext
    constructor
    . intro r' store' hstore' kept hkept other hvisit htarget
      rw [hnext] at hstore' hvisit
      rcases getElem?_set_cases hstore' with ⟨rfl, rfl⟩ | ⟨hne, hold⟩
      . -- what is left on the visited replica is no target
        rw [InMemoryCacheStore.mem_invalidate] at hkept
        rw [mem_visits] at hvisit
        rcases hvisit with ⟨hself, hin, hout⟩ | hreturned
        . cases hself
          have := InvalidationRequest.hits_iff.mpr htarget
          unfold InvalidationRequest.hits at this
          rw [hkept.2] at this
          cases this
        . exact h.stores r' store hstore kept hkept.1 other (mem_visits.mpr (.inr hreturned)) htarget
      . rw [mem_visits] at hvisit
        rcases hvisit with ⟨hself, hin, hout⟩ | hreturned
        . cases hself
          apply h.stores r' store' hold kept hkept invalidation _ htarget
          refine mem_visits.mpr (.inl ⟨hactive, hin, ?_⟩)
          rw [hpending, List.mem_cons, not_or]
          exact ⟨hne, hout⟩
        . exact h.stores r' store' hold kept hkept other (mem_visits.mpr (.inr hreturned)) htarget
    . rw [hnext]
      exact h.moved (.rest rfl) rfl (fun _ => .inl)
  | @finished invalidation hactive hpending hacted =>
    rw [hacted] at hnext
    constructor
    . intro r store hstore kept hkept other hvisit
      rw [hnext] at hstore hvisit
      apply h.stores r store hstore kept hkept other
      rw [mem_visits] at hvisit ⊢
      rcases hvisit with ⟨hself, -⟩ | ⟨returned, hmem, rfl, hin⟩
      . cases hself
      . rw [List.mem_cons] at hmem
        rcases hmem with rfl | hmem
        . refine .inl ⟨hactive, hin, ?_⟩
          rw [hpending]
          exact List.not_mem_nil
        . exact .inr ⟨returned, hmem, rfl, hin⟩
    . have hmoves : Moves caches next := by rw [hnext]; exact .rest rfl
      apply h.moved hmoves htime
      rw [hnext]
      intro returned hmem
      rw [List.mem_cons] at hmem
      rcases hmem with rfl | hmem
      . exact .inr rfl
      . exact .inl hmem

theorem fresh_of_run (h : Reach.Under Initial (step codec) (InOrder codec) caches)
    : Fresh codec caches := by
  apply h.invariant
  . exact fun _ => Fresh.initial
  . intro s label t hs horder hstep
    obtain ⟨acted, heffect, hnext⟩ := step_effect hstep
    exact hs.effect horder heffect hnext

def delivered (sha256 : Sha256) (returned : List Returned) : List (String × InvalidationEvent) :=
  returned.map (fun returned => (returned.invalidation.request.replayId sha256, returned.event))

structure Issued (caches : Caches sha256 V) : Prop where
  window : caches.window.Holds (delivered sha256 caches.returned)
  event : ∀ returned ∈ caches.returned, returned.event = event sha256 returned.invalidation
  built : ∀ returned ∈ caches.returned, returned.invalidation.request.Built sha256 ∧
    validateStableId returned.invalidation.request.causeReceipt = true
  active : ∀ invalidation, caches.active = some invalidation →
    invalidation.request.Built sha256 ∧
      validateStableId invalidation.request.causeReceipt = true ∧
      caches.window.events.lookup (invalidation.request.replayId sha256) = none

theorem Issued.initial (h : Initial caches) : Issued caches where
  window := by
    rw [h.window, h.returned]
    exact .empty
  event := by simp [h.returned]
  built := by simp [h.returned]
  active := by simp [h.active]

theorem Issued.same (h : Issued caches) (hcoordinator : next.coordinator = caches.coordinator)
    : Issued next := by
  simp only [coordinator, Prod.mk.injEq] at hcoordinator
  obtain ⟨-, hwindow, hactive, hreturned⟩ := hcoordinator
  constructor
  . rw [hwindow, hreturned]
    exact h.window
  . rw [hreturned]
    exact h.event
  . rw [hreturned]
    exact h.built
  . rw [hactive, hwindow]
    exact h.active

theorem Issued.effect (h : Issued caches) (heffect : Effect codec caches label next)
    : Issued next := by
  cases heffect with
  | quiet _ _ hcoordinator _ => exact h.same hcoordinator
  | served _ _ _ _ _ hnext => exact h.same (by rw [hnext]; rfl)
  | removed _ _ _ hcoordinator _ => exact h.same hcoordinator
  | stored _ _ _ _ _ _ _ _ _ hcoordinator _ => exact h.same hcoordinator
  | @begun request hbuilt hlabel hactive hcause hwindow hnext =>
    rw [hnext]
    refine ⟨h.window, h.event, h.built, ?_⟩
    rintro invalidation ⟨⟩
    exact ⟨hbuilt, hcause, hwindow⟩
  | applied hactive _ _ hnext =>
    rw [hnext]
    refine ⟨h.window, h.event, h.built, ?_⟩
    have hold := h.active _ hactive
    rintro invalidation ⟨⟩
    exact hold
  | @finished invalidation hactive hpending hnext =>
    obtain ⟨hbuilt, hcause, hwindow⟩ := h.active invalidation hactive
    rw [hnext]
    refine ⟨h.window.record hwindow, ?_, ?_, by simp⟩
    . intro returned hmem
      rw [List.mem_cons] at hmem
      rcases hmem with rfl | hmem
      . rfl
      . exact h.event returned hmem
    . intro returned hmem
      rw [List.mem_cons] at hmem
      rcases hmem with rfl | hmem
      . exact ⟨hbuilt, hcause⟩
      . exact h.built returned hmem

theorem issued_of_run (h : Reach.Any Initial (step codec) caches) : Issued caches := by
  apply h.invariant
  . exact fun _ => Issued.initial
  . intro s label t hs _ hstep
    obtain ⟨acted, heffect, rfl⟩ := step_effect hstep
    have hacted := hs.effect heffect
    exact ⟨hacted.window, hacted.event, hacted.built, hacted.active⟩

structure Sequenced (caches : Caches sha256 V) : Prop where
  sorted : caches.returned.Pairwise (fun newer older => older.event.sequence < newer.event.sequence)
  bound : ∀ returned ∈ caches.returned, returned.event.sequence ≤ caches.sequence
  active : ∀ invalidation, caches.active = some invalidation →
    invalidation.sequence = caches.sequence ∧
      ∀ returned ∈ caches.returned, returned.event.sequence < caches.sequence

theorem Sequenced.initial (h : Initial caches) : Sequenced caches where
  sorted := by simp [h.returned]
  bound := by simp [h.returned]
  active := by simp [h.active]

theorem Sequenced.same (h : Sequenced caches) (hcoordinator : next.coordinator = caches.coordinator)
    : Sequenced next := by
  simp only [coordinator, Prod.mk.injEq] at hcoordinator
  obtain ⟨hsequence, -, hactive, hreturned⟩ := hcoordinator
  constructor
  . rw [hreturned]
    exact h.sorted
  . rw [hreturned, hsequence]
    exact h.bound
  . rw [hactive, hsequence, hreturned]
    exact h.active

theorem Sequenced.effect (h : Sequenced caches)
    (horder : InOrder codec caches label) (heffect : Effect codec caches label next)
    : Sequenced next := by
  cases heffect with
  | quiet _ _ hcoordinator _ => exact h.same hcoordinator
  | served _ _ _ _ _ hnext => exact h.same (by rw [hnext]; rfl)
  | removed _ _ _ hcoordinator _ => exact h.same hcoordinator
  | stored _ _ _ _ _ _ _ _ _ hcoordinator _ => exact h.same hcoordinator
  | begun hlabel hactive _ _ hnext =>
    rw [hlabel] at horder
    have hroom : caches.sequence + 1 < 2 ^ 64 := horder
    have hsequence : next.sequence = caches.sequence + 1 := by
      rw [hnext]
      exact Nat.mod_eq_of_lt hroom
    have hreturned : next.returned = caches.returned := by rw [hnext]
    have hbegun : ∀ invalidation, next.active = some invalidation →
        invalidation.sequence = next.sequence := by
      rw [hnext]
      rintro invalidation ⟨⟩
      rfl
    have hbelow : ∀ returned ∈ caches.returned, returned.event.sequence < next.sequence := by
      intro returned hmem
      have := h.bound returned hmem
      omega
    constructor
    . rw [hreturned]
      exact h.sorted
    . rw [hreturned]
      exact fun returned hmem => Nat.le_of_lt (hbelow returned hmem)
    . rw [hreturned]
      exact fun invalidation hinvalidation => ⟨hbegun invalidation hinvalidation, hbelow⟩
  | applied hactive _ _ hnext =>
    rw [hnext]
    refine ⟨h.sorted, h.bound, ?_⟩
    have hold := h.active _ hactive
    rintro invalidation ⟨⟩
    exact hold
  | @finished invalidation hactive hpending hnext =>
    obtain ⟨hsequence, hbelow⟩ := h.active invalidation hactive
    rw [hnext]
    refine ⟨?_, ?_, by simp⟩
    . rw [List.pairwise_cons]
      refine ⟨?_, h.sorted⟩
      intro returned hmem
      have := hbelow returned hmem
      rw [← hsequence] at this
      exact this
    . intro returned hmem
      rw [List.mem_cons] at hmem
      rcases hmem with rfl | hmem
      . exact le_of_eq hsequence
      . exact h.bound returned hmem

theorem sequenced_of_run (h : Reach.Under Initial (step codec) (InOrder codec) caches)
    : Sequenced caches := by
  apply h.invariant
  . exact fun _ => Sequenced.initial
  . intro s label t hs horder hstep
    obtain ⟨acted, heffect, rfl⟩ := step_effect hstep
    have hacted := hs.effect horder heffect
    exact ⟨hacted.sorted, hacted.bound, hacted.active⟩

theorem Issued.begin_again (h : Issued caches) {returned : Returned}
    (hmem : returned ∈ caches.returned.take maxInvalidationReplayEvents)
    {request : InvalidationRequest} (hsame : request.SameDelivery returned.invalidation.request)
    : caches.begin sha256 request = (caches, some (.ok returned.event)) := by
  have hcause := (h.built returned (List.mem_of_mem_take hmem)).2
  rw [← hsame.causeReceipt] at hcause
  have hlookup : caches.window.events.lookup (request.replayId sha256) = some returned.event := by
    rw [h.window.events, hsame.replayId_eq]
    apply InvalidationReplayWindow.lookup_of_mem_nodup h.window.nodup
    unfold delivered
    rw [← List.map_take]
    exact List.mem_map.mpr ⟨returned, hmem, rfl⟩
  unfold begin
  rw [hcause, hlookup]
  rfl

theorem Issued.of_begin (h : Issued caches) {request : InvalidationRequest}
    {event : InvalidationEvent} (hbuilt : request.Built sha256)
    (hbegin : caches.begin sha256 request = (caches, some (.ok event))) (hsha : ∀ returned ∈ caches.returned,
      Set.InjOn sha256 { x | x = request.replayPreimage ∨
        x = returned.invalidation.request.replayPreimage })
    : ∃ returned ∈ caches.returned, returned.event = event ∧
        request.SameDelivery returned.invalidation.request := by
  unfold begin at hbegin
  split at hbegin
  . simp at hbegin
  . next hcause =>
    rw [Bool.not_eq_true', Bool.not_eq_false] at hcause
    split at hbegin
    . next found hlookup =>
      rw [h.window.events] at hlookup
      obtain ⟨before, after, hsplit, -⟩ := List.lookup_eq_some_iff.mp hlookup
      have hentry : (request.replayId sha256, found)
          ∈ (delivered sha256 caches.returned).take maxInvalidationReplayEvents := by
        rw [hsplit]
        simp
      obtain ⟨returned, hmem, heq⟩ := List.mem_map.mp (List.mem_of_mem_take hentry)
      simp only [Prod.mk.injEq] at heq hbegin
      obtain ⟨hbuilt', hcause'⟩ := h.built returned hmem
      refine ⟨returned, hmem, by rw [heq.2]; simpa using hbegin, ?_⟩
      apply InvalidationRequest.sameDelivery_of_replayId_eq hbuilt.valid hbuilt'.valid hcause hcause'
        _ heq.1.symm
      exact hsha returned hmem (.inl rfl) (.inr rfl)
    . simp at hbegin

theorem get_invalidate {store : InMemoryCacheStore (Insertion sha256 V)} {key : CacheKey}
    {entry : CacheEntry (Insertion sha256 V)} {request : InvalidationRequest}
    (hget : store.get key = some entry) (htarget : ¬ request.Targets key.digest entry.record)
    : (store.invalidate request.policy.nameSpace request.policy.compatibilityEpoch request.tags
        request.exactKey).1.get key = some entry := by
  unfold InMemoryCacheStore.get at hget ⊢
  obtain ⟨before, after, hsplit, hbefore⟩ := List.lookup_eq_some_iff.mp hget
  rw [← InvalidationRequest.hits_iff, Bool.not_eq_true] at htarget
  unfold InvalidationRequest.hits at htarget
  unfold InMemoryCacheStore.invalidate
  dsimp only
  rw [hsplit, List.filter_append, List.filter_cons_of_pos (by rw [htarget]; rfl)]
  refine List.lookup_eq_some_iff.mpr ⟨_, _, rfl, ?_⟩
  exact fun kept hkept => hbefore kept (List.mem_filter.mp hkept).1

theorem untouched (horder : InOrder codec caches label) (hlabel : label.thread = none)
    (hevict : ∀ r key, label ≠ .evict r key) (h : caches.step codec label = some next) {r : Nat}
    {store : InMemoryCacheStore (Insertion sha256 V)} (hstore : caches.stores[r]? = some store)
    : ∃ store', next.stores[r]? = some store' ∧ ∀ key entry, store.get key = some entry →
        (∀ invalidation, caches.active = some invalidation → invalidation.request.InScope entry.record →
          ¬ invalidation.request.Targets key.digest entry.record) →
        store'.get key = some entry := by
  have hsame : ∀ {acted : Caches sha256 V}, acted.stores = caches.stores →
      ∃ store', acted.stores[r]? = some store' ∧ ∀ key entry, store.get key = some entry →
        (∀ invalidation, caches.active = some invalidation → invalidation.request.InScope entry.record →
          ¬ invalidation.request.Targets key.digest entry.record) →
        store'.get key = some entry := by
    intro acted hstores
    exact ⟨store, by rw [hstores, hstore], fun _ _ hget _ => hget⟩
  obtain ⟨acted, hacted, rfl⟩ := Option.map_eq_some_iff.mp h
  cases label with
  | call => cases hacted; exact hsame rfl
  | look | remove | enter | start | loaded | store | publish | leave | wake | abandon | unwind =>
    cases hlabel
  | evict i key => exact absurd rfl (hevict i key)
  | register i =>
    dsimp only [act] at hacted
    split at hacted
    . cases hacted
      exact hsame rfl
    . cases hacted
  | drop i => cases hacted; exact hsame rfl
  | begin request hbuilt =>
    dsimp only [act] at hacted
    split at hacted
    . cases hacted
      unfold begin
      split
      . exact hsame rfl
      . split
        . exact hsame rfl
        . exact hsame rfl
    . cases hacted
  | apply =>
    dsimp only [act] at hacted
    split at hacted
    . cases hacted
    . next invalidation hactive =>
      unfold apply at hacted
      split at hacted
      . cases hacted
      . next visited pending hpending =>
        split at hacted
        . cases hacted
        . next store' hstore' =>
          cases hacted
          by_cases hvisited : visited = r
          . subst hvisited
            rw [hstore, Option.some.injEq] at hstore'
            subst hstore'
            refine ⟨_, List.getElem?_set_self (List.getElem?_eq_some_iff.mp hstore).1, ?_⟩
            intro key entry hget htarget
            refine get_invalidate hget fun hhit => htarget invalidation hactive ?_ hhit
            rcases hhit with hexact | htags
            . have hscope := horder invalidation hactive visited (by rw [hpending]; rfl) store hstore
              simpa [hexact] using List.all_eq_true.mp hscope _ (InMemoryCacheStore.mem_of_get hget)
            . exact ⟨htags.1, htags.2.1⟩
          . refine ⟨store, (List.getElem?_set_ne hvisited).trans hstore, ?_⟩
            exact fun _ _ hget _ => hget
  | finish =>
    dsimp only [act] at hacted
    split at hacted
    . cases hacted
    . unfold finish at hacted
      split at hacted
      . cases hacted
      . cases hacted
        exact hsame rfl

end Caches

/--
In a run that stores nothing behind an invalidation and names no key of another scope, what is read after an
invalidation has returned is no target of it unless its loader started after it began, the sequence numbers
increase, and the steps of an invalidation leave everything else untouched. In every run a repeated delivery returns
the event of the first and changes nothing, and an event answers only the delivery it was issued for.
-/
theorem invalidation_not_undone (sha256 : Sha256) {V : Type} (codec : CacheCodec V)
    : (∀ caches : Caches sha256 V,
        Reach.Under Caches.Initial (Caches.step codec) (Caches.InOrder codec) caches →
        (∀ thread ∈ caches.threads, ∀ current read value, thread.pc = .looked (.ok current) read →
          current.value = some value →
          ∃ origin, read = some origin ∧ codec.fromSlice origin.entry.record.value = some value ∧
            ∀ returned ∈ caches.returned, returned.returned < origin.time →
              origin.store ∈ returned.invalidation.replicas →
              returned.invalidation.request.Targets thread.key.key.digest origin.entry.record →
              returned.invalidation.begun ≤ origin.entry.origin.started) ∧
        caches.returned.Pairwise
          (fun newer older => older.event.sequence < newer.event.sequence) ∧
        ∀ label next, Caches.InOrder codec caches label → label.thread = none → (∀ r key, label ≠ .evict r key) →
          caches.step codec label = some next → ∀ (r : Nat) store,
          caches.stores[r]? = some store →
          ∃ store', next.stores[r]? = some store' ∧ ∀ key entry, store.get key = some entry →
            (∀ invalidation, caches.active = some invalidation → invalidation.request.InScope entry.record →
              ¬ invalidation.request.Targets key.digest entry.record) →
            store'.get key = some entry) ∧
      ∀ caches : Caches sha256 V, Reach.Any Caches.Initial (Caches.step codec) caches →
        (∀ returned ∈ caches.returned.take maxInvalidationReplayEvents, ∀ request,
          request.SameDelivery returned.invalidation.request →
          caches.begin sha256 request = (caches, some (.ok returned.event))) ∧
        (∀ request event, request.Built sha256 →
          caches.begin sha256 request = (caches, some (.ok event)) →
          (∀ returned ∈ caches.returned, Set.InjOn sha256 { x | x = request.replayPreimage ∨
            x = returned.invalidation.request.replayPreimage }) →
          ∃ returned ∈ caches.returned, returned.event = event ∧
            request.SameDelivery returned.invalidation.request) := by
  refine ⟨?_, ?_⟩
  . intro caches hrun
    refine ⟨?_, (Caches.sequenced_of_run hrun).sorted, fun label next horder hlabel hevict hstep r store hstore =>
      Caches.untouched horder hlabel hevict hstep hstore⟩
    intro thread hthread current read value hpc hvalue
    obtain ⟨origin, hread, -, hfrom, hfresh⟩ :=
      (Caches.fresh_of_run hrun).reads thread hthread current read value hpc hvalue
    exact ⟨origin, hread, hfrom, hfresh⟩
  . intro caches hrun
    have hissued := Caches.issued_of_run hrun
    refine ⟨?_, ?_⟩
    . exact fun returned hmem request hsame => hissued.begin_again hmem hsame
    . exact fun request event hbuilt hbegin hsha => hissued.of_begin hbuilt hbegin hsha

def itemsRequest : InvalidationRequest :=
  { policy := catalogPolicy
    tags := ["items"]
    exactKey := none
    causeReceipt := "rename-action" }

theorem itemsRequest_built (sha256 : Sha256) : itemsRequest.Built sha256 := by
  have hrequest : InvalidationRequest.ofTags catalogPolicy ["items"] "rename-action"
      = .ok itemsRequest := by decide +kernel
  exact .ofTags catalogPolicy_built (by decide) hrequest

namespace Caches

def invalidateItems (sha256 : Sha256) : List (CacheStep sha256 Bool) :=
  [.begin itemsRequest (itemsRequest_built sha256), .apply, .finish]

def fillAfterInvalidation (sha256 : Sha256) : List (CacheStep sha256 Bool) :=
  [ .register 0,
    .call 0 (catalogKey sha256) (.insert true ["items"]),
    .store 0 (.ok 1000) ]
  ++ invalidateItems sha256 ++
  [ .call 0 (catalogKey sha256) (.getOrFill ["items"]),
    .look 1 (.ok 2000),
    .enter 1 none,
    .start 2,
    .loaded 2 (.ok false),
    .store 2 (.ok 3000),
    .publish 2,
    .wake 1,
    .look 1 (.ok 4000) ]

def fillAroundInvalidation (sha256 : Sha256) : List (CacheStep sha256 Bool) :=
  [ .register 0,
    .call 0 (catalogKey sha256) (.getOrFill ["items"]),
    .look 0 (.ok 1000),
    .enter 0 none,
    .start 1 ]
  ++ invalidateItems sha256 ++
  [ .loaded 1 (.ok true),
    .store 1 (.ok 2000),
    .call 0 (catalogKey sha256) .lookup,
    .look 2 (.ok 3000) ]

def servesOlder (caches : Caches sha256 V) (i : Nat) : Bool :=
  match caches.threads[i]? with
  | some ⟨_, key, _, _, .looked (.ok current) (some origin)⟩ =>
    current.value.isSome && caches.returned.any (fun returned =>
      returned.returned < origin.time
        && origin.store ∈ returned.invalidation.replicas
        && returned.invalidation.request.Targets key.key.digest origin.entry.record
        && origin.entry.origin.started < returned.invalidation.begun)
  | _ => false

end Caches

-- A value loaded after the invalidation is served, and the invalidation is not delivered twice.
theorem invalidation_not_undone_fillAfter
    : ∃ caches, Reach.Under Caches.Initial (Caches.step boolCodec) (Caches.InOrder boolCodec) caches ∧
        caches.answer 1 = some false ∧
        (∃ thread ∈ caches.threads, ∃ current origin,
          thread.pc = .looked (.ok current) (some origin) ∧ current.value = some false ∧
          ∀ returned ∈ caches.returned, returned.returned < origin.time →
            origin.store ∈ returned.invalidation.replicas →
            returned.invalidation.request.Targets thread.key.key.digest origin.entry.record →
            returned.invalidation.begun ≤ origin.entry.origin.started) ∧
        ∃ returned ∈ caches.returned,
          caches.begin sha256Digest itemsRequest = (caches, some (.ok returned.event)) := by
  have hran : (Reach.execWhen (Caches.step boolCodec)
      (fun caches label => decide (Caches.InOrder boolCodec caches label))
      (Caches.oneStore sha256Digest catalogPolicy)
      (Caches.fillAfterInvalidation sha256Digest)).any (fun caches =>
        caches.answer 1 = some false
          && caches.returned.any (fun returned => returned.invalidation.request = itemsRequest)
          && decide (caches.returned.length = 1)) = true := by decide +kernel
  obtain ⟨caches, hexec, htest⟩ := (Option.any_eq_true _ _).mp hran
  simp only [Bool.and_eq_true, decide_eq_true_eq, List.any_eq_true] at htest
  obtain ⟨⟨hanswer, returned, hreturned, hrequest⟩, hlength⟩ := htest
  have hrun := (Reach.execWhen_under _
    (.init (Caches.oneStore_initial sha256Digest catalogPolicy)) hexec).mono
    (fun _ _ => of_decide_eq_true)
  have hany : Reach.Any Caches.Initial (Caches.step boolCodec) caches :=
    hrun.mono (fun _ _ _ => trivial)
  have hundone := invalidation_not_undone sha256Digest boolCodec
  obtain ⟨thread, hthread, current, read, hpc, hvalue⟩ := Caches.answer_eq_some hanswer
  obtain ⟨origin, rfl, -, hfresh⟩ :=
    (hundone.1 caches hrun).1 thread hthread current read false hpc hvalue
  refine ⟨caches, hrun, hanswer, ⟨thread, hthread, current, origin, hpc, hvalue, hfresh⟩, returned,
    hreturned, ?_⟩
  apply (hundone.2 caches hany).1 returned
  . rw [List.take_of_length_le (by rw [hlength]; decide)]
    exact hreturned
  . rw [hrequest]
    exact ⟨rfl, rfl, rfl, rfl, rfl, rfl, rfl⟩

-- A coalesced fill brings an invalidated value back.
theorem stale_fill_after_invalidation
    : ∃ caches, Reach.exec (Caches.step boolCodec) (Caches.oneStore sha256Digest catalogPolicy)
          (Caches.fillAroundInvalidation sha256Digest) = some caches ∧
        Caches.Initial (Caches.oneStore sha256Digest catalogPolicy) ∧
        caches.answer 2 = some true ∧ caches.servesOlder 2 = true := by
  have hran : (Reach.exec (Caches.step boolCodec) (Caches.oneStore sha256Digest catalogPolicy)
      (Caches.fillAroundInvalidation sha256Digest)).any (fun caches =>
        caches.answer 2 = some true && caches.servesOlder 2) = true := by decide +kernel
  obtain ⟨caches, hexec, htest⟩ := (Option.any_eq_true _ _).mp hran
  simp only [Bool.and_eq_true, decide_eq_true_eq] at htest
  exact ⟨caches, hexec, Caches.oneStore_initial _ _, htest.1, htest.2⟩

namespace InMemoryCacheStore

variable {Ω : Type} {store store' : InMemoryCacheStore Ω}

def Bounded (store : InMemoryCacheStore Ω) : Prop :=
  store.entries.length ≤ store.maxEntries ∧ (store.entries.map (·.1)).Nodup

theorem Bounded.kept (h : store.Bounded) (keep : String × CacheEntry Ω → Bool)
    : Bounded { store with entries := store.entries.filter keep } :=
  ⟨(List.length_filter_le _ _).trans h.1, h.2.sublist (List.filter_sublist.map _)⟩

theorem Bounded.put (h : store.Bounded) {key : CacheKey} {entry : CacheEntry Ω} (hput : store.put key entry = .ok store')
    : store'.Bounded := by
  have hkept := h.kept (fun kept => kept.1 != key.digest)
  unfold InMemoryCacheStore.put at hput
  split at hput
  . cases hput
  . next hroom =>
    cases hput
    refine ⟨?_, List.nodup_cons.mpr ⟨by simp, hkept.2⟩⟩
    cases hget : store.get key with
    | none =>
      unfold get at hget
      rw [hget] at hroom
      exact Nat.lt_of_le_of_lt (List.length_filter_le _ _) (by simpa using hroom)
    | some old =>
      apply Nat.le_trans _ h.1
      exact List.length_filter_lt_length_iff_exists.mpr ⟨_, mem_of_get hget, by simp⟩

end InMemoryCacheStore

namespace Caches

variable {sha256 : Sha256} {V : Type} {codec : CacheCodec V} {caches : Caches sha256 V}

theorem bounded_of_run (h : Reach.Any Initial (step codec) caches)
    : (∀ store ∈ caches.stores, store.Bounded)
      ∧ caches.window.order.length ≤ maxInvalidationReplayEvents ∧ caches.window.order.Nodup
      ∧ ∀ id, (caches.window.events.lookup id).isSome ↔ id ∈ caches.window.order := by
  constructor
  . apply h.invariant
    . intro first hfirst store hstore
      unfold InMemoryCacheStore.Bounded
      rw [hfirst.stores store hstore]
      exact ⟨Nat.zero_le _, List.nodup_nil⟩
    . intro before label after hbefore _ hstep
      obtain ⟨acted, heffect, rfl⟩ := step_effect hstep
      have hset : ∀ {r : Nat} {store}, store.Bounded → ∀ kept ∈ before.stores.set r store, kept.Bounded := by
        intro r store hstore kept hkept
        cases List.mem_or_eq_of_mem_set hkept with
        | inl hold => exact hbefore kept hold
        | inr hnew => exact hnew ▸ hstore
      dsimp only
      cases heffect with
      | quiet hstores => exact hstores ▸ hbefore
      | served _ _ _ _ _ hnext => exact hnext ▸ hbefore
      | removed hstore hstores => exact hstores ▸ hset ((hbefore _ (List.mem_of_getElem? hstore)).kept _)
      | stored _ _ _ _ hstore _ hput hstores => exact hstores ▸ hset ((hbefore _ (List.mem_of_getElem? hstore)).put hput)
      | begun _ _ _ _ hnext => exact hnext ▸ hbefore
      | applied _ _ hstore hnext => exact hnext ▸ hset ((hbefore _ (List.mem_of_getElem? hstore)).kept _)
      | finished _ _ hnext => exact hnext ▸ hbefore
  . have hwindow := (issued_of_run h).window
    rw [hwindow.order, List.nodup_reverse, List.length_reverse, List.length_map]
    refine ⟨List.length_take_le _ _, hwindow.nodup, ?_⟩
    simp [-List.map_take, hwindow.events, List.lookup_isSome_iff]

end Caches

theorem bounded_of_run_fillAfter
    : ∃ caches, Reach.exec (Caches.step boolCodec) (Caches.oneStore sha256Digest catalogPolicy)
          (Caches.fillAfterInvalidation sha256Digest) = some caches
      ∧ (∃ store ∈ caches.stores, store.entries.length = 1 ∧ store.Bounded)
      ∧ ∃ id, caches.window.order = [id] ∧ (caches.window.events.lookup id).isSome := by
  have hran : (Reach.exec (Caches.step boolCodec) (Caches.oneStore sha256Digest catalogPolicy)
      (Caches.fillAfterInvalidation sha256Digest)).any (fun caches =>
        caches.stores.any (fun store => store.entries.length = 1) && caches.window.order.length = 1) = true := by
    decide +kernel
  obtain ⟨caches, hexec, htest⟩ := (Option.any_eq_true _ _).mp hran
  rw [Bool.and_eq_true, decide_eq_true_eq] at htest
  obtain ⟨store, hstore, hone⟩ := List.any_eq_true.mp htest.1
  obtain ⟨id, hid⟩ := List.length_eq_one_iff.mp htest.2
  have hrun := Reach.exec_any _ (.init (Caches.oneStore_initial sha256Digest catalogPolicy)) hexec
  obtain ⟨hstores, -, -, hevents⟩ := Caches.bounded_of_run hrun
  refine ⟨caches, hexec, ⟨store, hstore, of_decide_eq_true hone, hstores store hstore⟩, id, hid, ?_⟩
  rw [hevents, hid]
  exact List.mem_singleton_self id

end Data

end Pliego
