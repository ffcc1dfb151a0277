import Pliego.Data.CacheRun

/-!
No value crosses a key: what a lookup returns was inserted under a key made from the same policy
identity, operation, input, vary values and partition.
-/

namespace Pliego

open Bytes

namespace Data

theorem lookup_filter_ne {α : Type} (entries : List (String × α)) (key other : String)
    : (entries.filter (fun kept => kept.1 != key)).lookup other
        =
      if other = key then none else entries.lookup other := by
  induction entries with
  | nil => simp
  | cons entry entries ih =>
    by_cases hkey : entry.1 = key
    . rw [List.filter_cons_of_neg (by simp [hkey]), ih]
      split
      . rfl
      . next hother =>
        rw [List.lookup_cons, beq_false_of_ne (by rw [hkey]; exact hother)]
    . rw [List.filter_cons_of_pos (by simp [hkey]), List.lookup_cons, ih]
      split
      . next hsame =>
        rw [beq_iff_eq] at hsame
        rw [if_neg (by rw [hsame]; exact hkey), List.lookup_cons, beq_iff_eq.mpr hsame]
      . next hne =>
        split
        . rfl
        . rw [List.lookup_cons, hne]

namespace Caches

variable {sha256 : Sha256} {V : Type} {codec : CacheCodec V} {caches next : Caches sha256 V}

structure Written (codec : CacheCodec V) (inserted : List (Insertion sha256 V))
    (kept : String × CacheEntry (Insertion sha256 V)) : Prop where
  inserted : kept.2.origin ∈ inserted
  digest : kept.2.origin.key.key.digest = kept.1
  value : codec.toVec kept.2.origin.value = some kept.2.record.value

def Comes (codec : CacheCodec V) (inserted : List (Insertion sha256 V)) (digest : String) (value : V)
    : Prop :=
  ∃ insertion ∈ inserted, insertion.key.key.digest = digest ∧
    ∃ bytes, codec.toVec insertion.value = some bytes ∧ codec.fromSlice bytes = some value

structure Isolated (codec : CacheCodec V) (caches : Caches sha256 V) : Prop where
  stores : ∀ store ∈ caches.stores, ∀ kept ∈ store.entries, Written codec caches.inserted kept
  inserted : ∀ insertion ∈ caches.inserted, ∃ thread ∈ caches.threads, thread.key = insertion.key
  threads : ∀ thread ∈ caches.threads, ∀ current read value,
    thread.pc = .looked (.ok current) read → current.value = some value →
      Comes codec caches.inserted thread.key.key.digest value

theorem Written.mono {inserted inserted' : List (Insertion sha256 V)}
    {kept : String × CacheEntry (Insertion sha256 V)} (h : Written codec inserted kept)
    (hsub : inserted ⊆ inserted')
    : Written codec inserted' kept :=
  ⟨hsub h.inserted, h.digest, h.value⟩

theorem Isolated.initial (h : Initial caches) : Isolated codec caches where
  stores := by
    intro store hstore kept hkept
    rw [h.stores store hstore] at hkept
    cases hkept
  inserted := by simp [h.inserted]
  threads := by simp [h.threads]

theorem Isolated.keep (h : Isolated codec caches) (hinserted : caches.inserted ⊆ next.inserted)
    (hstores : ∀ store ∈ next.stores, ∀ kept ∈ store.entries,
      Written codec next.inserted kept)
    (hnew : ∀ insertion ∈ next.inserted, insertion ∈ caches.inserted ∨
      ∃ thread ∈ caches.threads, thread.key = insertion.key)
    (hmoves : Moves caches next)
    : Isolated codec next where
  stores := hstores
  inserted := by
    intro insertion hmem
    obtain ⟨thread, hthread, hkey⟩ :=
      (hnew insertion hmem).elim (h.inserted insertion) id
    obtain ⟨moved, hmoved, hsame⟩ := hmoves.keys thread hthread
    exact ⟨moved, hmoved, hsame.trans hkey⟩
  threads := by
    intro thread hthread current read value hpc hvalue
    cases hmoves.threads thread hthread with
    | inl hold =>
      obtain ⟨insertion, hmem, hcomes⟩ := h.threads thread hold current read value hpc hvalue
      exact ⟨insertion, hinserted hmem, hcomes⟩
    | inr hquiet =>
      rw [hquiet current read hpc] at hvalue
      cases hvalue

theorem Isolated.served {i : Nat} {thread : Thread sha256 V} {manager : CacheManager}
    {store : InMemoryCacheStore (Insertion sha256 V)} {entry : CacheEntry (Insertion sha256 V)}
    {value : V} {receipt : CacheReceipt} (h : Isolated codec caches)
    (hthread : caches.threads[i]? = some thread) (hstore : store ∈ caches.stores)
    (hentry : (thread.key.key.digest, entry) ∈ store.entries)
    (hvalue : codec.fromSlice entry.record.value = some value)
    : Isolated codec (caches.setPc i thread
        (.looked (.ok ⟨some value, receipt⟩) (some ⟨entry, manager.store, caches.time⟩))) where
  stores := h.stores
  inserted := by
    intro insertion hmem
    obtain ⟨other, hother, hkey⟩ := h.inserted insertion hmem
    obtain ⟨moved, hmoved, hsame⟩ := keys_setPc hthread other hother
    exact ⟨moved, hmoved, hsame.trans hkey⟩
  threads := by
    intro other hother current read value' hpc hvalue'
    cases List.mem_or_eq_of_mem_set hother with
    | inl hold => exact h.threads other hold current read value' hpc hvalue'
    | inr hnew =>
      subst hnew
      cases hpc
      cases hvalue'
      have hwritten := h.stores store hstore _ hentry
      exact ⟨entry.origin, hwritten.inserted, hwritten.digest, entry.record.value, hwritten.value,
        hvalue⟩

theorem Isolated.effect (h : Isolated codec caches) {label : CacheStep sha256 V}
    (heffect : Effect codec caches label next)
    : Isolated codec next := by
  cases heffect with
  | quiet hstores hinserted _ hmoves =>
    apply h.keep (by rw [hinserted]; exact List.Subset.refl _) _ _ hmoves
    . rw [hstores, hinserted]
      exact h.stores
    . rw [hinserted]
      exact fun _ => .inl
  | served hthread hmanager hstore hentry hvalue hnext =>
    rw [hnext]
    exact h.served hthread (List.mem_of_getElem? hstore) hentry hvalue
  | removed hstore hstores hinserted _ hmoves =>
    apply h.keep (by rw [hinserted]; exact List.Subset.refl _) _ _ hmoves
    . rw [hstores, hinserted]
      intro store hmem kept hkept
      cases List.mem_or_eq_of_mem_set hmem with
      | inl hold => exact h.stores store hold kept hkept
      | inr hnew =>
        rw [hnew] at hkept
        exact h.stores _ (List.mem_of_getElem? hstore) kept (InMemoryCacheStore.mem_remove hkept)
    . rw [hinserted]
      exact fun _ => .inl
  | stored _ hthread hmanager hpc hstore hrecord hput hstores hinserted _ hmoves =>
    have hsub : caches.inserted ⊆ next.inserted := by
      rw [hinserted]
      exact List.subset_cons_self _ _
    apply h.keep hsub _ _ hmoves
    . rw [hstores]
      intro store hmem kept hkept
      cases List.mem_or_eq_of_mem_set hmem with
      | inl hold => exact (h.stores store hold kept hkept).mono hsub
      | inr hnew =>
        rw [hnew] at hkept
        cases InMemoryCacheStore.put_cases hput kept hkept with
        | inl hself =>
          rw [hself]
          refine ⟨?_, rfl, (CachePolicy.record_ok hrecord).2.1⟩
          rw [hinserted]
          exact List.mem_cons_self
        | inr hold => exact (h.stores _ (List.mem_of_getElem? hstore) kept hold).mono hsub
    . rw [hinserted]
      intro insertion hmem
      rw [List.mem_cons] at hmem
      cases hmem with
      | inl hself =>
        rw [hself]
        exact .inr ⟨_, List.mem_of_getElem? hthread, rfl⟩
      | inr hold => exact .inl hold
  | begun _ _ _ _ hnext =>
    rw [hnext]
    exact ⟨h.stores, h.inserted, h.threads⟩
  | applied _ _ hstore hnext =>
    rw [hnext]
    refine ⟨?_, h.inserted, h.threads⟩
    intro store hmem kept hkept
    cases List.mem_or_eq_of_mem_set hmem with
    | inl hold => exact h.stores store hold kept hkept
    | inr hnew =>
      rw [hnew, InMemoryCacheStore.mem_invalidate] at hkept
      exact h.stores _ (List.mem_of_getElem? hstore) kept hkept.1
  | finished _ _ hnext =>
    rw [hnext]
    exact ⟨h.stores, h.inserted, h.threads⟩

theorem isolated_of_run (h : Reach.Any Initial (step codec) caches) : Isolated codec caches := by
  apply h.invariant
  . exact fun _ => Isolated.initial
  . intro s label t hs _ hstep
    obtain ⟨acted, heffect, rfl⟩ := step_effect hstep
    have hacted := hs.effect heffect
    exact ⟨hacted.stores, hacted.inserted, hacted.threads⟩

def hashed (caches : Caches sha256 V) : Set (List UInt8) :=
  MadeKey.hashed (caches.threads.map (·.key))

end Caches

/--
Keys are equal only if everything they are made from is, and every value that a lookup or `get_or_fill`
has returned was inserted under a key made from the same. A codec that reads back what it wrote returns
the inserted value itself.
-/
theorem cache_isolation (sha256 : Sha256) {V : Type} (codec : CacheCodec V)
    : (∀ a b : MadeKey sha256, Set.InjOn sha256 (MadeKey.hashed [a, b]) → a.key = b.key →
        a.SameInputs b) ∧
      ∀ caches : Caches sha256 V, Reach.Any Caches.Initial (Caches.step codec) caches →
        Set.InjOn sha256 caches.hashed →
        ∀ thread ∈ caches.threads, ∀ current read value,
          thread.pc = .looked (.ok current) read → current.value = some value →
          ∃ insertion ∈ caches.inserted, insertion.key.SameInputs thread.key ∧
            (∃ bytes, codec.toVec insertion.value = some bytes ∧
              codec.fromSlice bytes = some value) ∧
            ((∀ v bytes, codec.toVec v = some bytes → codec.fromSlice bytes = some v) →
              insertion.value = value) := by
  refine ⟨?_, ?_⟩
  . intro a b hsha h
    exact MadeKey.sameInputs_of_digest_eq hsha (by simp) (by simp) (by rw [h])
  . intro caches hrun hsha thread hthread current read value hpc hvalue
    have hisolated := Caches.isolated_of_run hrun
    obtain ⟨insertion, hmem, hdigest, bytes, hto, hfrom⟩ :=
      hisolated.threads thread hthread current read value hpc hvalue
    obtain ⟨inserter, hinserter, hkey⟩ := hisolated.inserted insertion hmem
    refine ⟨insertion, hmem, ?_, ⟨bytes, hto, hfrom⟩, ?_⟩
    . apply MadeKey.sameInputs_of_digest_eq hsha _ _ hdigest
      . rw [← hkey]
        exact List.mem_map_of_mem hinserter
      . exact List.mem_map_of_mem hthread
    . intro hcodec
      have := hcodec insertion.value bytes hto
      rw [hfrom, Option.some.injEq] at this
      exact this.symm

def catalogPolicy : CachePolicy :=
  { id := "catalog"
    semanticRevision := 1
    nameSpace := "catalog"
    compatibilityEpoch := 1
    domain := .publicRuntime
    requiredVary := []
    freshFor := secs 60
    staleFor := 0
    maxKeyBytes := 8 * 1024
    maxValueBytes := 1024 * 1024
    maxTags := 32
    coalesceFills := true
    fillTimeout := secs 10 }

def catalogInput : CacheKeyInput :=
  { operationId := "catalog-loader"
    operationRevision := 1
    inputDigest := String.ofList (List.replicate 64 'c')
    vary := []
    partition := none }

theorem catalogPolicy_built : catalogPolicy.Built := by
  have hnew : CachePolicy.new "catalog" 1 "catalog" 1 .publicRuntime = .ok catalogPolicy := by
    decide
  exact .new (by decide) (by decide) hnew

theorem catalogInput_built (sha256 : Sha256) : CacheKeyInput.Built sha256 catalogInput none := by
  have hnew : CacheKeyInput.new "catalog-loader" 1 (String.ofList (List.replicate 64 'c'))
      = .ok catalogInput := by decide
  exact .new (by decide) hnew

def catalogKey (sha256 : Sha256) : MadeKey sha256 where
  policy := catalogPolicy
  input := catalogInput
  source := none
  key :=
    { digest := encodeHex (sha256 (catalogPolicy.keyPreimage catalogInput)).bytes
      policyId := "catalog"
      policyRevision := 1
      nameSpace := "catalog"
      compatibilityEpoch := 1
      domain := .publicRuntime }
  policyBuilt := catalogPolicy_built
  inputBuilt := catalogInput_built sha256
  made := by
    have hlen : ¬ (catalogPolicy.keyPreimage catalogInput).length > catalogPolicy.maxKeyBytes := by
      decide +kernel
    unfold CachePolicy.key
    rw [if_neg (by decide), if_neg (by decide), if_neg hlen]
    rfl

def boolCodec : CacheCodec Bool where
  toVec value := some (utf8 (if value then "true" else "false"))
  fromSlice bytes :=
    if bytes = utf8 "true" then some true else if bytes = utf8 "false" then some false else none

namespace Caches

def oneStore (sha256 : Sha256) (policy : CachePolicy) : Caches sha256 Bool :=
  { time := 0
    stores := [⟨[], 8⟩]
    live := [true]
    managers := [⟨policy, 0, []⟩]
    fills := []
    threads := []
    inserted := []
    sequence := 0
    registered := []
    window := ⟨[], []⟩
    active := none
    returned := [] }

theorem oneStore_initial (sha256 : Sha256) (policy : CachePolicy)
    : Initial (oneStore sha256 policy) where
  stores := by simp [oneStore]
  threads := rfl
  inserted := rfl
  sequence := rfl
  window := rfl
  active := rfl
  returned := rfl

def insertThenLookup (sha256 : Sha256) : List (CacheStep sha256 Bool) :=
  [ .call 0 (catalogKey sha256) (.insert true ["items"]),
    .store 0 (.ok 1000),
    .call 0 (catalogKey sha256) .lookup,
    .look 1 (.ok 2000) ]

end Caches

theorem cache_isolation_insertThenLookup
    : (catalogKey sha256Digest).SameInputs (catalogKey sha256Digest) ∧
      ∃ caches, Reach.exec (Caches.step boolCodec) (Caches.oneStore sha256Digest catalogPolicy)
          (Caches.insertThenLookup sha256Digest) = some caches ∧
        ∃ insertion ∈ caches.inserted, insertion.key.SameInputs (catalogKey sha256Digest) ∧
          insertion.value = true := by
  have hhashed : ∀ keys : List (MadeKey sha256Digest), (∀ key ∈ keys, key = catalogKey sha256Digest) →
      Set.InjOn sha256Digest (MadeKey.hashed keys) := by
    rintro keys hkeys _ ⟨a, ha, hx⟩ _ ⟨b, hb, hy⟩ -
    rw [hkeys a ha] at hx
    rw [hkeys b hb] at hy
    simp only [catalogKey, Option.mem_def, reduceCtorEq, false_and, exists_false, or_false] at hx hy
    rw [hx, hy]
  have hisolation := cache_isolation sha256Digest boolCodec
  refine ⟨hisolation.1 _ _ (hhashed _ (by simp)) rfl, ?_⟩
  have hran : (Reach.exec (Caches.step boolCodec) (Caches.oneStore sha256Digest catalogPolicy)
      (Caches.insertThenLookup sha256Digest)).any (fun caches =>
        caches.threads.all (fun thread => thread.key = catalogKey sha256Digest)
          && caches.answer 1 = some true) = true := by decide +kernel
  obtain ⟨caches, hexec, htest⟩ := (Option.any_eq_true _ _).mp hran
  simp only [Bool.and_eq_true, List.all_eq_true, decide_eq_true_eq] at htest
  obtain ⟨hall, hanswer⟩ := htest
  obtain ⟨thread, hthread, current, read, hpc, hvalue⟩ := Caches.answer_eq_some hanswer
  have hkey := hall thread hthread
  have hkeys : ∀ key ∈ caches.threads.map (·.key), key = catalogKey sha256Digest := by
    intro key hmem
    obtain ⟨other, hother, rfl⟩ := List.mem_map.mp hmem
    exact hall other hother
  refine ⟨caches, hexec, ?_⟩
  have hrun := Reach.exec_any _ (.init (Caches.oneStore_initial sha256Digest catalogPolicy)) hexec
  obtain ⟨insertion, hmem, hsame, -, hround⟩ := hisolation.2 caches hrun (hhashed _ hkeys) thread
    hthread current read true hpc hvalue
  refine ⟨insertion, hmem, by rw [← hkey]; exact hsame, hround ?_⟩
  intro v bytes h
  cases h
  cases v <;> decide

end Data

end Pliego
