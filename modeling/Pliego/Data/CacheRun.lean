import Pliego.Data.CacheManager
import Pliego.Lib.Reach

/-!
Concurrent calls on cache managers, over several stores, and the invalidations of one coordinator. A thread is a call,
or the task of a coalesced fill; one step of it runs to its next access of shared state.
-/

namespace Pliego

namespace Data

variable {sha256 : Sha256} {V : Type}

structure Insertion (sha256 : Sha256) (V : Type) where
  key : MadeKey sha256
  value : V
  started : Nat

structure CacheRead (sha256 : Sha256) (V : Type) where
  entry : CacheEntry (Insertion sha256 V)
  store : Nat
  time : Nat

inductive InsertFor where
  | call
  | caller
  | fill (fill : Nat)

inductive Pc (sha256 : Sha256) (V : Type) where
  | looking (again : Bool)
  | removing (again : Bool) (mismatch : Option CacheError)
  | missed
  | waiting (fill : Nat)
  | spawned (fill : Nat)
  | loading (started : Nat) (insertFor : InsertFor)
  | inserting (started : Nat) (value : V) (insertFor : InsertFor)
  | publishing (fill : Nat) (result : Except CacheError Unit)
  | leaving (fill : Nat)
  | left
  | inserted (result : Except CacheError CacheReceipt)
  | looked (result : Except CacheError (CacheLookup V))
    (read : Option (CacheRead sha256 V))

structure Thread (sha256 : Sha256) (V : Type) where
  manager : Nat
  key : MadeKey sha256
  tags : List String
  fills : Bool
  pc : Pc sha256 V

structure CacheManager where
  policy : CachePolicy
  store : Nat
  fills : List (String × Nat)

/--
An invalidation under way, or one that has returned. It has visited the replicas that are not pending.
-/
structure Invalidation where
  request : InvalidationRequest
  sequence : Nat
  begun : Nat
  replicas : List Nat
  pending : List Nat
  removed : Nat

structure Returned where
  invalidation : Invalidation
  event : InvalidationEvent
  returned : Nat

structure Caches (sha256 : Sha256) (V : Type) where
  time : Nat
  stores : List (InMemoryCacheStore (Insertion sha256 V))
  live : List Bool
  managers : List CacheManager
  fills : List (Option (Except CacheError Unit))
  threads : List (Thread sha256 V)
  inserted : List (Insertion sha256 V)
  sequence : Nat
  registered : List Nat
  window : InvalidationReplayWindow
  active : Option Invalidation
  returned : List Returned

inductive CacheCall (V : Type) where
  | lookup
  | insert (value : V) (tags : List String)
  | getOrFill (tags : List String)

inductive CacheStep (sha256 : Sha256) (V : Type) where
  | call (manager : Nat) (key : MadeKey sha256) (call : CacheCall V)
  | look (i : Nat) (clock : Except CacheError Nat)
  | remove (i : Nat)
  | enter (i : Nat) (interrupted : Option CacheError)
  | start (i : Nat)
  | loaded (i : Nat) (result : Except CacheError V)
  | store (i : Nat) (clock : Except CacheError Nat)
  | publish (i : Nat)
  | leave (i : Nat)
  | wake (i : Nat)
  | abandon (i : Nat) (error : CacheError)
  | unwind (i : Nat)
  | evict (store : Nat) (key : CacheKey)
  | register (store : Nat)
  | drop (store : Nat)
  | begin (request : InvalidationRequest) (built : request.Built sha256)
  | apply
  | finish

def CacheStep.thread (label : CacheStep sha256 V) : Option Nat :=
  match label with
  | .look i _ | .remove i | .enter i _ | .start i | .loaded i _ | .store i _ | .publish i
  | .leave i | .wake i | .abandon i _ | .unwind i => some i
  | _ => none

namespace Caches

def setPc (caches : Caches sha256 V) (i : Nat) (thread : Thread sha256 V) (pc : Pc sha256 V)
    : Caches sha256 V :=
  { caches with threads := caches.threads.set i { thread with pc := pc } }

def setStore (caches : Caches sha256 V) (i : Nat)
    (store : InMemoryCacheStore (Insertion sha256 V)) : Caches sha256 V :=
  { caches with stores := caches.stores.set i store }

def setManager (caches : Caches sha256 V) (i : Nat) (manager : CacheManager) : Caches sha256 V :=
  { caches with managers := caches.managers.set i manager }

def liveStore (caches : Caches sha256 V) (i : Nat)
    : Option (InMemoryCacheStore (Insertion sha256 V)) :=
  if caches.live[i]? = some true then caches.stores[i]? else none

-- The first lookup of `get_or_fill` goes on to fill after a miss.
def afterLookup (thread : Thread sha256 V) (again : Bool) (result : Except CacheError (CacheLookup V))
    (read : Option (CacheRead sha256 V)) : Pc sha256 V :=
  match result with
  | .ok current =>
    if thread.fills && !again && current.value.isNone then .missed else .looked result read
  | .error _ => .looked result read

def start (caches : Caches sha256 V) (manager : Nat) (key : MadeKey sha256) (call : CacheCall V)
    : Thread sha256 V :=
  match call with
  | .lookup => ⟨manager, key, [], false, .looking false⟩
  | .insert value tags => ⟨manager, key, tags, false, .inserting caches.time value .call⟩
  | .getOrFill tags => ⟨manager, key, tags, true, .looking false⟩

def look (codec : CacheCodec V) (caches : Caches sha256 V) (i : Nat) (thread : Thread sha256 V)
    (manager : CacheManager) (again : Bool) (clock : Except CacheError Nat)
    : Option (Caches sha256 V) :=
  match caches.liveStore manager.store with
  | none => none
  | some store =>
    match manager.policy.lookup codec thread.key.key store clock with
    | .removes mismatch => some (caches.setPc i thread (.removing again mismatch))
    | .returns result entry =>
      some (caches.setPc i thread
        (afterLookup thread again result (entry.map (fun entry => ⟨entry, manager.store, caches.time⟩))))

def enter (caches : Caches sha256 V) (i : Nat) (thread : Thread sha256 V) (manager : CacheManager)
    (interrupted : Option CacheError) : Caches sha256 V :=
  match interrupted with
  | some error => caches.setPc i thread (.looked (.error error) none)
  | none =>
    if !manager.policy.coalesceFills then
      caches.setPc i thread (.loading caches.time .caller)
    else
      match manager.fills.lookup thread.key.key.digest with
      | some fill => caches.setPc i thread (.waiting fill)
      | none =>
        let fill := caches.fills.length
        let entered := caches.setPc i thread (.waiting fill)
        let entered := entered.setManager thread.manager
          { manager with fills := (thread.key.key.digest, fill) :: manager.fills }
        { entered with
          fills := entered.fills ++ [none]
          threads := entered.threads ++ [{ thread with pc := .spawned fill }] }

def failed (insertFor : InsertFor) (error : CacheError) : Pc sha256 V :=
  match insertFor with
  | .call => .inserted (.error error)
  | .caller => .looked (.error error) none
  | .fill fill => .publishing fill (.error error)

def stored (insertFor : InsertFor) (receipt : CacheReceipt) : Pc sha256 V :=
  match insertFor with
  | .call => .inserted (.ok receipt)
  | .caller => .looking true
  | .fill fill => .publishing fill (.ok ())

def store (codec : CacheCodec V) (caches : Caches sha256 V) (i : Nat) (thread : Thread sha256 V)
    (manager : CacheManager) (started : Nat) (value : V) (insertFor : InsertFor)
    (clock : Except CacheError Nat) : Option (Caches sha256 V) :=
  match caches.liveStore manager.store with
  | none => none
  | some store =>
    let insertion := ⟨thread.key, value, started⟩
    match manager.policy.insert codec thread.key.key value thread.tags insertion store clock with
    | .error error => some (caches.setPc i thread (failed insertFor error))
    | .ok (store, receipt) =>
      let caches := (caches.setStore manager.store store).setPc i thread (stored insertFor receipt)
      some { caches with inserted := insertion :: caches.inserted }

-- The replay window answers a repeated delivery; it stays locked until a new one has returned.
def begin (sha256 : Sha256) (caches : Caches sha256 V) (request : InvalidationRequest)
    : Caches sha256 V × Option (Except CacheError InvalidationEvent) :=
  if !validateStableId request.causeReceipt then
    (caches, some (.error .invalidCause))
  else
    match caches.window.events.lookup (request.replayId sha256) with
    | some event => (caches, some (.ok event))
    | none =>
      let sequence := (caches.sequence + 1) % 2 ^ 64
      let registered := caches.registered.filter (fun replica => caches.live[replica]? = some true)
      ({ caches with
          sequence := sequence
          registered := registered
          active := some ⟨request, sequence, caches.time, registered, registered, 0⟩ },
        none)

def apply (caches : Caches sha256 V) (invalidation : Invalidation) : Option (Caches sha256 V) :=
  match invalidation.pending with
  | [] => none
  | replica :: pending =>
    match caches.stores[replica]? with
    | none => none
    | some store =>
      let request := invalidation.request
      let (store, removed) := store.invalidate request.policy.nameSpace
        request.policy.compatibilityEpoch request.tags request.exactKey
      let caches := caches.setStore replica store
      some { caches with
        active := some { invalidation with
          pending := pending
          removed := invalidation.removed + removed } }

def event (sha256 : Sha256) (invalidation : Invalidation) : InvalidationEvent :=
  { contract := "dev.pliegors.cache-invalidation/v1"
    sequence := invalidation.sequence
    policyId := invalidation.request.policy.id
    nameSpace := invalidation.request.policy.nameSpace
    compatibilityEpoch := invalidation.request.policy.compatibilityEpoch
    targetKind := if invalidation.request.exactKey.isSome then .exactKey else .tags
    targetDigest := invalidation.request.targetDigest sha256
    causeReceipt := invalidation.request.causeReceipt
    expectedAcknowledgements := invalidation.replicas.length
    acknowledgedReplicas := invalidation.replicas.length
    removedEntries := invalidation.removed }

def finish (sha256 : Sha256) (caches : Caches sha256 V) (invalidation : Invalidation)
    : Option (Caches sha256 V) :=
  match invalidation.pending with
  | _ :: _ => none
  | [] =>
    let event := event sha256 invalidation
    some { caches with
      window := caches.window.record (invalidation.request.replayId sha256) event
      active := none
      returned := ⟨invalidation, event, caches.time⟩ :: caches.returned }

def threadStep (codec : CacheCodec V) (caches : Caches sha256 V) (i : Nat)
    (thread : Thread sha256 V) (manager : CacheManager) (label : CacheStep sha256 V)
    : Option (Caches sha256 V) :=
  match label, thread.pc with
  | .look _ clock, .looking again => caches.look codec i thread manager again clock
  | .remove _, .removing again mismatch =>
    match caches.liveStore manager.store with
    | none => none
    | some store =>
      let removed := caches.setStore manager.store (store.remove thread.key.key)
      let result := manager.policy.removed thread.key.key mismatch
      some (removed.setPc i thread (afterLookup thread again result none))
  | .enter _ interrupted, .missed => some (caches.enter i thread manager interrupted)
  | .start _, .spawned fill => some (caches.setPc i thread (.loading caches.time (.fill fill)))
  | .loaded _ result, .loading started insertFor =>
    match result with
    | .ok value => some (caches.setPc i thread (.inserting started value insertFor))
    | .error error => some (caches.setPc i thread (failed insertFor error))
  | .store _ clock, .inserting started value insertFor =>
    caches.store codec i thread manager started value insertFor clock
  | .publish _, .publishing fill result =>
    let published := { caches with fills := caches.fills.set fill (some result) }
    some (published.setPc i thread (.leaving fill))
  | .leave _, .leaving fill =>
    let fills :=
      if manager.fills.lookup thread.key.key.digest = some fill then
        manager.fills.filter (fun kept => kept.1 != thread.key.key.digest)
      else
        manager.fills
    some ((caches.setManager thread.manager { manager with fills := fills }).setPc i thread .left)
  | .wake _, .waiting fill =>
    match caches.fills[fill]? with
    | some (some (.ok ())) => some (caches.setPc i thread (.looking true))
    | some (some (.error error)) => some (caches.setPc i thread (.looked (.error error) none))
    | _ => none
  | .abandon _ error, .waiting _ => some (caches.setPc i thread (.looked (.error error) none))
  -- a panic that nothing catches: out of the loader's destructor, or out of `insert`
  | .unwind _, .loading _ _ => some (caches.setPc i thread .left)
  | .unwind _, .inserting _ _ _ => some (caches.setPc i thread .left)
  | _, _ => none

def onThread (codec : CacheCodec V) (caches : Caches sha256 V) (i : Nat)
    (label : CacheStep sha256 V) : Option (Caches sha256 V) :=
  match caches.threads[i]? with
  | none => none
  | some thread =>
    match caches.managers[thread.manager]? with
    | none => none
    | some manager => caches.threadStep codec i thread manager label

def act (codec : CacheCodec V) (caches : Caches sha256 V) (label : CacheStep sha256 V)
    : Option (Caches sha256 V) :=
  match label with
  | .call manager key call =>
    some { caches with threads := caches.threads ++ [caches.start manager key call] }
  | .look i _ | .remove i | .enter i _ | .start i | .loaded i _ | .store i _ | .publish i
  | .leave i | .wake i | .abandon i _ | .unwind i => caches.onThread codec i label
  | .evict i key =>
    match caches.liveStore i with
    | none => none
    | some store => some (caches.setStore i (store.remove key))
  | .register i =>
    if caches.live[i]? = some true then
      some { caches with
        registered := if i ∈ caches.registered then caches.registered else caches.registered ++ [i] }
    else
      none
  | .drop i => some { caches with live := caches.live.set i false }
  | .begin request _ =>
    match caches.active with
    | none => some (caches.begin sha256 request).1
    | some _ => none
  | .apply =>
    match caches.active with
    | none => none
    | some invalidation => caches.apply invalidation
  | .finish =>
    match caches.active with
    | none => none
    | some invalidation => caches.finish sha256 invalidation

def step (codec : CacheCodec V) (caches : Caches sha256 V) (label : CacheStep sha256 V)
    : Option (Caches sha256 V) :=
  (caches.act codec label).map (fun next => { next with time := caches.time + 1 })

def PcQuiet (pc : Pc sha256 V) : Prop :=
  ∀ current read, pc = .looked (.ok current) read → current.value = none

structure Moves (caches next : Caches sha256 V) : Prop where
  threads : ∀ thread ∈ next.threads, thread ∈ caches.threads ∨ PcQuiet thread.pc
  keys : ∀ thread ∈ caches.threads, ∃ moved ∈ next.threads, moved.key = thread.key

def coordinator (caches : Caches sha256 V)
    : Nat × InvalidationReplayWindow × Option Invalidation × List Returned :=
  (caches.sequence, caches.window, caches.active, caches.returned)

inductive Effect (codec : CacheCodec V) (caches : Caches sha256 V) (label : CacheStep sha256 V)
    (next : Caches sha256 V) : Prop where
  | quiet (hstores : next.stores = caches.stores) (hinserted : next.inserted = caches.inserted)
    (hcoordinator : next.coordinator = caches.coordinator) (hmoves : Moves caches next)
  | served {i : Nat} {thread : Thread sha256 V} {manager : CacheManager}
    {store : InMemoryCacheStore (Insertion sha256 V)} {entry : CacheEntry (Insertion sha256 V)}
    {value : V} {receipt : CacheReceipt} (hthread : caches.threads[i]? = some thread)
    (hmanager : caches.managers[thread.manager]? = some manager)
    (hstore : caches.stores[manager.store]? = some store)
    (hentry : (thread.key.key.digest, entry) ∈ store.entries)
    (hvalue : codec.fromSlice entry.record.value = some value)
    (hnext : next = caches.setPc i thread
      (.looked (.ok ⟨some value, receipt⟩) (some ⟨entry, manager.store, caches.time⟩)))
  | removed {r : Nat} {store : InMemoryCacheStore (Insertion sha256 V)} {key : CacheKey}
    (hstore : caches.stores[r]? = some store)
    (hstores : next.stores = caches.stores.set r (store.remove key))
    (hinserted : next.inserted = caches.inserted)
    (hcoordinator : next.coordinator = caches.coordinator) (hmoves : Moves caches next)
  | stored {i : Nat} {thread : Thread sha256 V} {manager : CacheManager}
    {store store' : InMemoryCacheStore (Insertion sha256 V)} {record : CacheStoreRecord}
    {started : Nat} {value : V} {insertFor : InsertFor} {clock : Except CacheError Nat}
    (hlabel : label = .store i clock) (hthread : caches.threads[i]? = some thread)
    (hmanager : caches.managers[thread.manager]? = some manager)
    (hpc : thread.pc = .inserting started value insertFor)
    (hstore : caches.stores[manager.store]? = some store)
    (hrecord : manager.policy.record codec thread.key.key value thread.tags clock = .ok record)
    (hput : store.put thread.key.key ⟨record, ⟨thread.key, value, started⟩⟩ = .ok store')
    (hstores : next.stores = caches.stores.set manager.store store')
    (hinserted : next.inserted = ⟨thread.key, value, started⟩ :: caches.inserted)
    (hcoordinator : next.coordinator = caches.coordinator) (hmoves : Moves caches next)
  | begun {request : InvalidationRequest} {hbuilt : request.Built sha256}
    (hlabel : label = .begin request hbuilt) (hactive : caches.active = none)
    (hcause : validateStableId request.causeReceipt = true)
    (hwindow : caches.window.events.lookup (request.replayId sha256) = none)
    (hnext : next = { caches with
      sequence := (caches.sequence + 1) % 2 ^ 64
      registered := next.registered
      active := some ⟨request, (caches.sequence + 1) % 2 ^ 64, caches.time, next.registered,
        next.registered, 0⟩ })
  | applied {invalidation : Invalidation} {r removed : Nat} {pending : List Nat}
    {store : InMemoryCacheStore (Insertion sha256 V)} (hactive : caches.active = some invalidation)
    (hpending : invalidation.pending = r :: pending) (hstore : caches.stores[r]? = some store)
    (hnext : next = { caches with
      stores := caches.stores.set r (store.invalidate invalidation.request.policy.nameSpace
        invalidation.request.policy.compatibilityEpoch invalidation.request.tags
        invalidation.request.exactKey).1
      active := some { invalidation with pending := pending, removed := removed } })
  | finished {invalidation : Invalidation} (hactive : caches.active = some invalidation)
    (hpending : invalidation.pending = [])
    (hnext : next = { caches with
      window := caches.window.record (invalidation.request.replayId sha256)
        (event sha256 invalidation)
      active := none
      returned := ⟨invalidation, event sha256 invalidation, caches.time⟩ :: caches.returned })

variable {codec : CacheCodec V} {caches next : Caches sha256 V} {i : Nat}
  {thread : Thread sha256 V} {manager : CacheManager} {label : CacheStep sha256 V}

theorem Moves.rest (h : next.threads = caches.threads) : Moves caches next where
  threads := by
    intro thread hthread
    rw [h] at hthread
    exact .inl hthread
  keys := by
    intro thread hthread
    rw [← h] at hthread
    exact ⟨thread, hthread, rfl⟩

theorem keys_setPc {pc : Pc sha256 V} (hthread : caches.threads[i]? = some thread)
    : ∀ other ∈ caches.threads, ∃ moved ∈ (caches.setPc i thread pc).threads,
        moved.key = other.key := by
  intro other hother
  obtain ⟨j, hj⟩ := List.mem_iff_getElem?.mp hother
  by_cases hij : i = j
  . subst hij
    rw [hthread, Option.some.injEq] at hj
    rw [← hj]
    refine ⟨{ thread with pc := pc }, List.mem_iff_getElem?.mpr ⟨i, ?_⟩, rfl⟩
    exact List.getElem?_set_self (List.getElem?_eq_some_iff.mp hthread).1
  . refine ⟨other, List.mem_iff_getElem?.mpr ⟨j, ?_⟩, rfl⟩
    exact (List.getElem?_set_ne hij).trans hj

theorem Moves.set {pc : Pc sha256 V} (hthread : caches.threads[i]? = some thread)
    (hquiet : PcQuiet pc) (hthreads : next.threads = caches.threads.set i { thread with pc := pc })
    : Moves caches next where
  threads := by
    intro other hother
    rw [hthreads] at hother
    cases List.mem_or_eq_of_mem_set hother with
    | inl h => exact .inl h
    | inr h =>
      rw [h]
      exact .inr hquiet
  keys := by
    rw [hthreads]
    exact keys_setPc hthread

theorem Moves.concat {moved : Caches sha256 V} {other : Thread sha256 V}
    (hmoves : Moves caches moved) (hquiet : PcQuiet other.pc) (hthreads : next.threads = moved.threads ++ [other])
    : Moves caches next where
  threads := by
    intro thread hthread
    rw [hthreads, List.mem_append, List.mem_singleton] at hthread
    cases hthread with
    | inl h => exact hmoves.threads thread h
    | inr h =>
      rw [h]
      exact .inr hquiet
  keys := by
    intro thread hthread
    obtain ⟨other, hmem, hkey⟩ := hmoves.keys thread hthread
    rw [hthreads]
    exact ⟨other, List.mem_append_left _ hmem, hkey⟩

theorem quiet_setPc {pc : Pc sha256 V} (hthread : caches.threads[i]? = some thread) (hquiet : PcQuiet pc)
    : Effect codec caches label (caches.setPc i thread pc) :=
  .quiet rfl rfl rfl (.set hthread hquiet rfl)

theorem stores_of_liveStore {r : Nat} {store : InMemoryCacheStore (Insertion sha256 V)}
    (h : caches.liveStore r = some store)
    : caches.stores[r]? = some store := by
  unfold liveStore at h
  split at h
  . exact h
  . cases h

theorem quiet_afterLookup {again : Bool} {result : Except CacheError (CacheLookup V)}
    {read : Option (CacheRead sha256 V)} (h : ∀ current, result = .ok current → current.value = none)
    : PcQuiet (afterLookup thread again result read) := by
  unfold afterLookup
  intro current read' hpc
  split at hpc
  . split at hpc
    . cases hpc
    . cases hpc
      exact h current rfl
  . cases hpc

theorem quiet_failed (insertFor : InsertFor) (error : CacheError)
    : PcQuiet (failed insertFor error : Pc sha256 V) := by
  cases insertFor <;> simp [PcQuiet, failed]

theorem quiet_stored (insertFor : InsertFor) (receipt : CacheReceipt)
    : PcQuiet (stored insertFor receipt : Pc sha256 V) := by
  cases insertFor <;> simp [PcQuiet, stored]

section

variable (hthread : caches.threads[i]? = some thread)

include hthread

theorem look_effect {again : Bool} {clock : Except CacheError Nat}
    (hmanager : caches.managers[thread.manager]? = some manager)
    (h : caches.look codec i thread manager again clock = some next)
    : Effect codec caches label next := by
  unfold look at h
  split at h
  . cases h
  . next store hstore =>
    have hstore := stores_of_liveStore hstore
    rcases CachePolicy.lookup_cases rfl with ⟨mismatch, hlooked⟩ | ⟨result, hlooked, hnone⟩
      | ⟨entry, value, receipt, hlooked, hentry, hvalue⟩
    . rw [hlooked] at h
      cases h
      exact quiet_setPc hthread (by simp [PcQuiet])
    . rw [hlooked] at h
      cases h
      exact quiet_setPc hthread (quiet_afterLookup hnone)
    . rw [hlooked] at h
      cases h
      have hafter : afterLookup thread again (.ok ⟨some value, receipt⟩) (some ⟨entry, manager.store, caches.time⟩)
          = .looked (.ok ⟨some value, receipt⟩) (some ⟨entry, manager.store, caches.time⟩) := by
        simp [afterLookup]
      rw [Option.map_some, hafter]
      exact .served hthread hmanager hstore hentry hvalue rfl

theorem enter_effect {interrupted : Option CacheError}
    : Effect codec caches label (caches.enter i thread manager interrupted) := by
  unfold enter
  split
  . exact quiet_setPc hthread (by simp [PcQuiet])
  . split
    . exact quiet_setPc hthread (by simp [PcQuiet])
    . split
      . exact quiet_setPc hthread (by simp [PcQuiet])
      . have hquiet : ∀ fill, PcQuiet (.waiting fill : Pc sha256 V) := by simp [PcQuiet]
        have hspawned : ∀ fill, PcQuiet (.spawned fill : Pc sha256 V) := by simp [PcQuiet]
        refine .quiet rfl rfl rfl ?_
        exact (Moves.set hthread (hquiet caches.fills.length)
          (rfl : (caches.setPc i thread _).threads = _)).concat (hspawned caches.fills.length) rfl

theorem store_effect {started : Nat} {value : V} {insertFor : InsertFor} {clock : Except CacheError Nat}
    (hmanager : caches.managers[thread.manager]? = some manager)
    (hpc : thread.pc = .inserting started value insertFor) (hlabel : label = .store i clock)
    (h : caches.store codec i thread manager started value insertFor clock = some next)
    : Effect codec caches label next := by
  unfold store at h
  split at h
  . cases h
  . next store hstore =>
    dsimp only at h
    split at h
    . cases h
      exact quiet_setPc hthread (quiet_failed insertFor _)
    . next store' receipt hinsert =>
      cases h
      obtain ⟨record, hrecord, hput⟩ := CachePolicy.insert_ok hinsert
      exact .stored hlabel hthread hmanager hpc (stores_of_liveStore hstore) hrecord hput rfl rfl rfl
        (.set hthread (quiet_stored insertFor receipt) rfl)

end

theorem threadStep_effect (hi : label.thread = some i) (hthread : caches.threads[i]? = some thread)
    (hmanager : caches.managers[thread.manager]? = some manager)
    (h : caches.threadStep codec i thread manager label = some next)
    : Effect codec caches label next := by
  unfold threadStep at h
  split at h
  . exact look_effect hthread hmanager h
  . split at h
    . cases h
    . next store hstore =>
      cases h
      refine .removed (stores_of_liveStore hstore) rfl rfl rfl (.set hthread ?_ rfl)
      apply quiet_afterLookup
      intro current hcurrent
      unfold CachePolicy.removed at hcurrent
      split at hcurrent
      . cases hcurrent
      . cases hcurrent
        rfl
  . cases h
    exact enter_effect hthread
  . cases h
    exact quiet_setPc hthread (by simp [PcQuiet])
  . split at h
    . cases h
      exact quiet_setPc hthread (by simp [PcQuiet])
    . cases h
      exact quiet_setPc hthread (quiet_failed _ _)
  . next hpc =>
    cases hi
    exact store_effect hthread hmanager hpc rfl h
  . cases h
    exact .quiet rfl rfl rfl (.set hthread (by simp [PcQuiet]) rfl)
  . cases h
    exact .quiet rfl rfl rfl (.set hthread (by simp [PcQuiet]) rfl)
  . split at h
    . cases h
      exact quiet_setPc hthread (by simp [PcQuiet])
    . cases h
      exact quiet_setPc hthread (by simp [PcQuiet])
    . cases h
  iterate 3
    . cases h
      exact quiet_setPc hthread (by simp [PcQuiet])
  . cases h

theorem onThread_effect (hi : label.thread = some i) (h : caches.onThread codec i label = some next)
    : Effect codec caches label next := by
  unfold onThread at h
  split at h
  . cases h
  . next thread hthread =>
    split at h
    . cases h
    . next manager hmanager => exact threadStep_effect hi hthread hmanager h

theorem begin_effect {request : InvalidationRequest} {hbuilt : request.Built sha256}
    (hlabel : label = .begin request hbuilt) (hactive : caches.active = none)
    : Effect codec caches label (caches.begin sha256 request).1 := by
  unfold begin
  split
  . exact .quiet rfl rfl rfl (.rest rfl)
  . next hcause =>
    rw [Bool.not_eq_true', Bool.not_eq_false] at hcause
    split
    . exact .quiet rfl rfl rfl (.rest rfl)
    . next hwindow => exact .begun hlabel hactive hcause hwindow rfl

theorem apply_effect {invalidation : Invalidation} (hactive : caches.active = some invalidation)
    (h : caches.apply invalidation = some next)
    : Effect codec caches label next := by
  unfold apply at h
  split at h
  . cases h
  . next r pending hpending =>
    split at h
    . cases h
    . next store hstore =>
      cases h
      exact .applied hactive hpending hstore rfl

theorem finish_effect {invalidation : Invalidation} (hactive : caches.active = some invalidation)
    (h : caches.finish sha256 invalidation = some next)
    : Effect codec caches label next := by
  unfold finish at h
  split at h
  . cases h
  . next hpending =>
    cases h
    exact .finished hactive hpending rfl

theorem act_effect (h : caches.act codec label = some next)
    : Effect codec caches label next := by
  unfold act at h
  split at h
  . next manager key call =>
    cases h
    have hquiet : PcQuiet (caches.start manager key call).pc := by
      cases call <;> simp [PcQuiet, start]
    exact .quiet rfl rfl rfl ((Moves.rest rfl : Moves caches caches).concat hquiet rfl)
  iterate 11
    . exact onThread_effect rfl h
  . split at h
    . cases h
    . next store hstore =>
      cases h
      exact .removed (stores_of_liveStore hstore) rfl rfl rfl (.rest rfl)
  . split at h
    . cases h
      exact .quiet rfl rfl rfl (.rest rfl)
    . cases h
  . cases h
    exact .quiet rfl rfl rfl (.rest rfl)
  . next request hbuilt =>
    split at h
    . next hactive =>
      cases h
      exact begin_effect rfl hactive
    . cases h
  . split at h
    . cases h
    . next hactive => exact apply_effect hactive h
  . split at h
    . cases h
    . next hactive => exact finish_effect hactive h

theorem step_effect (h : caches.step codec label = some next)
    : ∃ acted, Effect codec caches label acted ∧ next = { acted with time := caches.time + 1 } := by
  obtain ⟨acted, hacted, rfl⟩ := Option.map_eq_some_iff.mp h
  exact ⟨acted, act_effect hacted, rfl⟩

def answer (caches : Caches sha256 V) (i : Nat) : Option V :=
  match caches.threads[i]? with
  | some ⟨_, _, _, _, .looked (.ok current) _⟩ => current.value
  | _ => none

theorem answer_eq_some {value : V} (h : caches.answer i = some value)
    : ∃ thread ∈ caches.threads, ∃ current read, thread.pc = .looked (.ok current) read ∧
        current.value = some value := by
  unfold answer at h
  split at h
  . next hthread => exact ⟨_, List.mem_of_getElem? hthread, _, _, rfl, h⟩
  . cases h

structure Initial (caches : Caches sha256 V) : Prop where
  stores : ∀ store ∈ caches.stores, store.entries = []
  threads : caches.threads = []
  inserted : caches.inserted = []
  sequence : caches.sequence = 0
  window : caches.window = ⟨[], []⟩
  active : caches.active = none
  returned : caches.returned = []

end Caches

end Data

end Pliego
