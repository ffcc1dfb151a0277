import Pliego.Data.CacheFills
import Pliego.Data.Invalidation

/-!
What the callers of `get_or_fill` get of the fills they share, in every run in which the managers keep their stores.
-/

namespace Pliego

open SingleFlight

namespace Data

variable {sha256 : Sha256} {V : Type}

namespace Caches

variable {codec : CacheCodec V} {caches next : Caches sha256 V} {i j : Nat} {thread : Thread sha256 V}
variable {manager : CacheManager} {label : CacheStep sha256 V} {pc : Pc sha256 V}

theorem managers_before {m : Nat} {after : CacheManager} (h : Turn caches label next)
    (hafter : next.managers[m]? = some after)
    : ∃ before, caches.managers[m]? = some before ∧ before.policy = after.policy ∧ before.store = after.store := by
  have hset : ∀ {manager other : CacheManager} {place : Nat}, caches.managers[place]? = some manager →
      next.managers = caches.managers.set place other → manager.policy = other.policy → manager.store = other.store →
      ∃ before, caches.managers[m]? = some before ∧ before.policy = after.policy ∧ before.store = after.store := by
    intro manager other place hmanager hmanagers hpolicy hstore
    rw [hmanagers, List.getElem?_set] at hafter
    split at hafter
    . next hsame =>
      split at hafter
      . cases hafter
        exact ⟨manager, by rw [← hsame]; exact hmanager, hpolicy, hstore⟩
      . cases hafter
    . exact ⟨after, hafter, rfl, rfl⟩
  cases h with
  | rest _ hmanagers _ | called _ _ _ _ hmanagers _ | goes _ _ _ _ hmanagers _ | publishes _ _ _ _ hmanagers _ =>
    rw [hmanagers] at hafter
    exact ⟨after, hafter, rfl, rfl⟩
  | opens _ _ hmanager _ _ _ hmanagers _ => exact hset hmanager hmanagers rfl rfl
  | leaves _ _ hmanager _ _ hmanagers _ => exact hset hmanager hmanagers rfl rfl

theorem managers_after {m : Nat} {before : CacheManager} (h : Turn caches label next)
    (hbefore : caches.managers[m]? = some before)
    : ∃ after, next.managers[m]? = some after ∧ before.policy = after.policy := by
  have hset : ∀ {manager other : CacheManager} {place : Nat}, caches.managers[place]? = some manager →
      next.managers = caches.managers.set place other → manager.policy = other.policy →
      ∃ after, next.managers[m]? = some after ∧ before.policy = after.policy := by
    intro manager other place hmanager hmanagers hpolicy
    rw [hmanagers, List.getElem?_set]
    by_cases hsame : place = m
    . rw [if_pos hsame, if_pos (List.getElem?_eq_some_iff.mp hmanager).1]
      rw [← hsame, hmanager] at hbefore
      cases hbefore
      exact ⟨other, rfl, hpolicy⟩
    . rw [if_neg hsame]
      exact ⟨before, hbefore, rfl⟩
  cases h with
  | rest _ hmanagers _ | called _ _ _ _ hmanagers _ | goes _ _ _ _ hmanagers _ | publishes _ _ _ _ hmanagers _ =>
    rw [hmanagers]
    exact ⟨before, hbefore, rfl⟩
  | opens _ _ hmanager _ _ _ hmanagers _ => exact hset hmanager hmanagers rfl
  | leaves _ _ hmanager _ _ hmanagers _ => exact hset hmanager hmanagers rfl

theorem fills_length (h : Turn caches label next) : caches.fills.length ≤ next.fills.length := by
  cases h with
  | rest _ _ hfills | called _ _ _ _ _ hfills | goes _ _ _ _ _ hfills | leaves _ _ _ _ _ _ hfills => rw [hfills]
  | publishes _ _ _ _ _ hfills => rw [hfills, List.length_set]
  | opens _ _ _ _ _ _ _ hfills =>
    rw [hfills, List.length_append]
    exact Nat.le_add_right _ _

-- A loader runs for the fill of its key, or for a caller whose policy does not coalesce.
def LoadsFor (caches : Caches sha256 V) (thread : Thread sha256 V) : Prop :=
  ∀ started insertFor, thread.pc = .loading started insertFor →
    (∃ fill, insertFor = .fill fill)
      ∨ ∃ manager, caches.managers[thread.manager]? = some manager ∧ manager.policy.coalesceFills = false

structure Filling (caches : Caches sha256 V) : Prop where
  flights : caches.flights.Sound
  held : ∀ manager ∈ caches.managers, (caches.liveStore manager.store).isSome = true
  waited : ∀ thread ∈ caches.threads, ∀ fill, thread.pc = .waiting fill →
    fill < caches.fills.length ∧ ∃ manager, caches.managers[thread.manager]? = some manager
  loaders : ∀ thread ∈ caches.threads, caches.LoadsFor thread

theorem Filling.opened (h : Opened caches) : Filling caches where
  flights := flights_opened h
  held := h.held
  waited := by simp [h.threads]
  loaders := by simp [h.threads]

theorem Turn.threads {found : Thread sha256 V} (h : Turn caches label next) (hfound : found ∈ next.threads)
    : found ∈ caches.threads ∨ (∀ fill, found.pc ≠ .waiting fill) ∧ found.pc.loads = false
      ∨ (∃ thread pc, thread ∈ caches.threads ∧ caches.Goes thread pc ∧ found = { thread with pc := pc })
      ∨ found.pc = .waiting caches.fills.length ∧ next.fills.length = caches.fills.length + 1
        ∧ ∃ manager, caches.managers[found.manager]? = some manager := by
  have hset : ∀ {i : Nat} {thread : Thread sha256 V} {pc : Pc sha256 V},
      next.threads = caches.threads.set i { thread with pc := pc } → (∀ fill, pc ≠ .waiting fill) → pc.loads = false →
      found ∈ caches.threads ∨ (∀ fill, found.pc ≠ .waiting fill) ∧ found.pc.loads = false := by
    intro i thread pc hthreads hwaits hloads
    rw [hthreads] at hfound
    cases List.mem_or_eq_of_mem_set hfound with
    | inl hold => exact .inl hold
    | inr hnew =>
      rw [hnew]
      exact .inr ⟨hwaits, hloads⟩
  cases h with
  | rest hthreads _ _ =>
    rw [hthreads] at hfound
    exact .inl hfound
  | called _ hwaits hloads hthreads _ _ =>
    rw [hthreads, List.mem_append, List.mem_singleton] at hfound
    cases hfound with
    | inl hold => exact .inl hold
    | inr hnew =>
      rw [hnew]
      exact .inr (.inl ⟨hwaits, hloads⟩)
  | goes _ hthread hgoes hthreads _ _ =>
    rw [hthreads] at hfound
    cases List.mem_or_eq_of_mem_set hfound with
    | inl hold => exact .inl hold
    | inr hnew => exact .inr (.inr (.inl ⟨_, _, List.mem_of_getElem? hthread, hgoes, hnew⟩))
  | opens _ _ hmanager _ _ hthreads _ hfills =>
    have hlength : next.fills.length = caches.fills.length + 1 := by
      rw [hfills, List.length_append, List.length_singleton]
    rw [hthreads, List.mem_append, List.mem_singleton] at hfound
    cases hfound with
    | inl hset =>
      cases List.mem_or_eq_of_mem_set hset with
      | inl hold => exact .inl hold
      | inr hnew =>
        rw [hnew]
        exact .inr (.inr (.inr ⟨rfl, hlength, _, hmanager⟩))
    | inr hnew =>
      rw [hnew]
      exact .inr (.inl ⟨nofun, rfl⟩)
  | publishes _ _ _ hthreads _ _ =>
    exact (hset hthreads nofun rfl).imp_right .inl
  | leaves _ _ _ _ hthreads _ _ =>
    exact (hset hthreads nofun rfl).imp_right .inl

theorem waited_turn (hfilling : Filling caches) (h : Turn caches label next)
    : ∀ thread ∈ next.threads, ∀ fill, thread.pc = .waiting fill →
      fill < next.fills.length ∧ ∃ manager, next.managers[thread.manager]? = some manager := by
  have hlength := fills_length h
  have hmanagers : ∀ {m : Nat}, (∃ manager, caches.managers[m]? = some manager) →
      ∃ manager, next.managers[m]? = some manager := by
    rintro m ⟨manager, hmanager⟩
    obtain ⟨after, hafter, -⟩ := managers_after h hmanager
    exact ⟨after, hafter⟩
  intro thread hthread fill hpc
  obtain hold | ⟨hquiet, -⟩ | ⟨before, pc, -, hgoes, rfl⟩ | ⟨hnew, hmore, hmanager⟩ := h.threads hthread
  . obtain ⟨hlt, hmanager⟩ := hfilling.waited thread hold fill hpc
    exact ⟨hlt.trans_le hlength, hmanagers hmanager⟩
  . exact absurd hpc (hquiet fill)
  . obtain ⟨manager, hmanager, hlookup⟩ := hgoes.waits fill hpc
    obtain ⟨i, flight, hflying, -, hnumber⟩ :=
      hfilling.flights.flown _ _ ((table_manager hmanager _).trans hlookup)
    have hlt : flight.number < caches.fills.length := hfilling.flights.number_lt hflying
    exact ⟨by omega, hmanagers ⟨manager, hmanager⟩⟩
  . rw [hpc] at hnew
    cases hnew
    exact ⟨by omega, hmanagers hmanager⟩

theorem loaders_turn (hfilling : Filling caches) (h : Turn caches label next)
    : ∀ thread ∈ next.threads, next.LoadsFor thread := by
  have hkeep : ∀ {thread : Thread sha256 V}, caches.LoadsFor thread → next.LoadsFor thread := by
    intro thread hloads started insertFor hpc
    cases hloads started insertFor hpc with
    | inl hfill => exact .inl hfill
    | inr hplain =>
      obtain ⟨manager, hmanager, hcoalesce⟩ := hplain
      obtain ⟨after, hafter, hpolicy⟩ := managers_after h hmanager
      exact .inr ⟨after, hafter, by rw [← hpolicy]; exact hcoalesce⟩
  intro thread hthread
  obtain hold | ⟨-, hquiet⟩ | ⟨before, pc, hbefore, hgoes, rfl⟩ | ⟨hnew, -, -⟩ := h.threads hthread
  . exact hkeep (hfilling.loaders thread hold)
  . intro started insertFor hpc
    rw [hpc] at hquiet
    cases hquiet
  . exact hkeep fun started insertFor hpc => hgoes.loads started insertFor hpc
  . intro started insertFor hpc
    rw [hpc] at hnew
    cases hnew

/-
Stores
-/

theorem liveStore_isSome {r : Nat}
    : (caches.liveStore r).isSome = true ↔ caches.live[r]? = some true ∧ r < caches.stores.length := by
  unfold liveStore
  split
  . next hlive => simp [hlive]
  . next hdead => simp [hdead]

theorem threadStep_live (h : caches.threadStep codec i thread manager label = some next) : next.live = caches.live := by
  unfold threadStep at h
  split at h
  . unfold look at h
    split at h
    . cases h
    . split at h <;> cases h <;> rfl
  . split at h
    . cases h
    . cases h
      rfl
  . cases h
    unfold enter
    split
    . rfl
    . split
      . rfl
      . split <;> rfl
  . cases h
    rfl
  . split at h <;> cases h <;> rfl
  . unfold store at h
    split at h
    . cases h
    . dsimp only at h
      split at h <;> cases h <;> rfl
  . cases h
    rfl
  . cases h
    rfl
  . split at h <;> cases h <;> rfl
  iterate 3
    . cases h
      rfl
  . cases h

theorem act_live (h : caches.act codec label = some next)
    : (∃ r, label = .drop r ∧ next.live = caches.live.set r false) ∨ next.live = caches.live := by
  have hon : ∀ {i : Nat}, caches.onThread codec i label = some next → next.live = caches.live := by
    intro i h
    unfold onThread at h
    split at h
    . cases h
    . split at h
      . cases h
      . exact threadStep_live h
  unfold act at h
  split at h
  . cases h
    exact .inr rfl
  iterate 11
    . exact .inr (hon h)
  . split at h <;> cases h
    exact .inr rfl
  . split at h <;> cases h
    exact .inr rfl
  . next r =>
    cases h
    exact .inl ⟨r, rfl, rfl⟩
  . split at h <;> cases h
    unfold begin
    split
    . exact .inr rfl
    . split <;> exact .inr rfl
  . split at h
    . cases h
    . unfold apply at h
      split at h
      . cases h
      . split at h <;> cases h
        exact .inr rfl
  . split at h
    . cases h
    . unfold finish at h
      split at h <;> cases h
      exact .inr rfl

theorem step_stores (h : caches.step codec label = some next) : next.stores.length = caches.stores.length := by
  obtain ⟨acted, heffect, rfl⟩ := step_effect h
  cases heffect with
  | quiet hstores _ _ _ => rw [hstores]
  | served _ _ _ _ _ hnext =>
    rw [hnext]
    rfl
  | removed _ hstores _ _ _ => rw [hstores, List.length_set]
  | stored _ _ _ _ _ _ _ hstores _ _ _ => rw [hstores, List.length_set]
  | begun _ _ _ _ hnext =>
    rw [hnext]
  | applied _ _ _ hnext =>
    rw [hnext]
    exact List.length_set
  | finished _ _ hnext =>
    rw [hnext]

theorem held_step (hfilling : Filling caches) (hholds : Holds caches label) (h : caches.step codec label = some next)
    : ∀ manager ∈ next.managers, (next.liveStore manager.store).isSome = true := by
  intro after hafter
  obtain ⟨m, hm⟩ := List.mem_iff_getElem?.mp hafter
  obtain ⟨before, hbefore, -, hstore⟩ := managers_before (step_turn hholds h) hm
  have hmem := List.mem_of_getElem? hbefore
  obtain ⟨hlive, hlt⟩ := liveStore_isSome.mp (hfilling.held before hmem)
  rw [← hstore, liveStore_isSome, step_stores h]
  refine ⟨?_, hlt⟩
  obtain ⟨acted, hacted, rfl⟩ := Option.map_eq_some_iff.mp h
  cases act_live hacted with
  | inl hdrop =>
    obtain ⟨r, hr, hset⟩ := hdrop
    have hne : r ≠ before.store := fun hsame => hholds.drop r hr before hmem hsame.symm
    change acted.live[before.store]? = some true
    rw [hset, List.getElem?_set_ne hne]
    exact hlive
  | inr hsame =>
    change acted.live[before.store]? = some true
    rw [hsame]
    exact hlive

theorem Filling.step (hfilling : Filling caches) (hholds : Holds caches label) (h : caches.step codec label = some next)
    : Filling next where
  flights := hfilling.flights.step (flights_step hfilling.flights (step_turn hholds h))
  held := held_step hfilling hholds h
  waited := waited_turn hfilling (step_turn hholds h)
  loaders := loaders_turn hfilling (step_turn hholds h)

theorem filling_of_run (h : Reach.Under Opened (step codec) Holds caches) : Filling caches := by
  apply h.invariant
  . exact fun _ => Filling.opened
  . exact fun s label t hfilling hholds hstep => hfilling.step hholds hstep

/-
The steps of a task
-/

def taskSteps (i : Nat) (result : Except CacheError V) (clock : Except CacheError Nat) : List (CacheStep sha256 V) :=
  [.start i, .loaded i result, .store i clock, .publish i, .leave i]

def Finishes (codec : CacheCodec V) (caches : Caches sha256 V) (i fill : Nat) (key : Nat × String) : Prop :=
  ∀ (result : Except CacheError V) (clock : Except CacheError Nat), ∃ labels after,
    (∀ label ∈ labels, label ∈ taskSteps i result clock) ∧ Reach.exec (step codec) caches labels = some after
      ∧ (∃ published, after.fills[fill]? = some (some published))
      ∧ ∀ manager, after.managers[key.1]? = some manager → manager.fills.lookup key.2 = none

def Nearer (codec : CacheCodec V) (caches : Caches sha256 V) (i fill : Nat) (thread : Thread sha256 V)
    (label : CacheStep sha256 V) : Prop :=
  ∃ next, caches.step codec label = some next ∧
    ((∃ pc landed, next.threads[i]? = some { thread with pc := pc } ∧ pc.task = some (fill, landed)
        ∧ pc.rank < thread.pc.rank)
      ∨ (∃ published, next.fills[fill]? = some (some published)) ∧ ∀ manager,
          next.managers[thread.manager]? = some manager → manager.fills.lookup thread.key.key.digest = none)

theorem step_onThread (hi : label.thread = some i) (hthread : caches.threads[i]? = some thread)
    (hmanager : caches.managers[thread.manager]? = some manager)
    (h : caches.threadStep codec i thread manager label = some next)
    : caches.step codec label = some { next with time := caches.time + 1 } := by
  have hon : caches.onThread codec i label = some next := by
    unfold onThread
    rw [hthread]
    dsimp only
    rw [hmanager]
    exact h
  unfold step
  have hact : caches.act codec label = some next := by
    cases label <;> cases hi <;> exact hon
  rw [hact]
  rfl

theorem nearer_setPc {fill : Nat} {landed : Bool} (hi : label.thread = some i) (hthread : caches.threads[i]? = some thread)
    (hmanager : caches.managers[thread.manager]? = some manager)
    (h : caches.threadStep codec i thread manager label = some next)
    (hthreads : next.threads = caches.threads.set i { thread with pc := pc }) (htask : pc.task = some (fill, landed))
    (hrank : pc.rank < thread.pc.rank)
    : Nearer codec caches i fill thread label := by
  refine ⟨_, step_onThread hi hthread hmanager h, .inl ⟨pc, landed, ?_, htask, hrank⟩⟩
  change next.threads[i]? = _
  rw [hthreads]
  exact List.getElem?_set_self (List.getElem?_eq_some_iff.mp hthread).1

theorem task_nearer (hfilling : Filling caches) (hthread : caches.threads[i]? = some thread) {fill : Nat} {landed : Bool}
    (htask : thread.pc.task = some (fill, landed)) (result : Except CacheError V) (clock : Except CacheError Nat)
    : ∃ label ∈ taskSteps i result clock, Nearer codec caches i fill thread label := by
  have hflying : caches.flights.flying i = some ⟨(thread.manager, thread.key.key.digest), fill, landed⟩ :=
    (flying_thread hthread).trans (flightOf_of_task htask)
  have hlisted := hfilling.flights.listed i _ hflying
  obtain ⟨manager, hmanager, hlookup⟩ := Option.bind_eq_some_iff.mp hlisted
  dsimp only at hmanager hlookup
  cases hpc : thread.pc with
  | spawned number =>
    rw [hpc] at htask
    cases htask
    have hstep : caches.threadStep codec i thread manager (.start i)
        = some (caches.setPc i thread (.loading caches.time (.fill fill))) := by
      unfold threadStep
      rw [hpc]
    exact ⟨.start i, by simp [taskSteps],
      nearer_setPc rfl hthread hmanager hstep rfl rfl (by rw [hpc]; exact Nat.lt_succ_self 4)⟩
  | loading started insertFor =>
    rw [hpc] at htask
    cases insertFor with
    | call => cases htask
    | caller => cases htask
    | fill number =>
      cases htask
      have hmem : (.loaded i result : CacheStep sha256 V) ∈ taskSteps i result clock := by simp [taskSteps]
      cases result with
      | ok value =>
        have hstep : caches.threadStep codec i thread manager (.loaded i (.ok value))
            = some (caches.setPc i thread (.inserting started value (.fill fill))) := by
          unfold threadStep
          rw [hpc]
        exact ⟨.loaded i (.ok value), hmem,
          nearer_setPc rfl hthread hmanager hstep rfl rfl (by rw [hpc]; exact Nat.lt_succ_self 3)⟩
      | error error =>
        have hstep : caches.threadStep codec i thread manager (.loaded i (.error error))
            = some (caches.setPc i thread (.publishing fill (.error error))) := by
          unfold threadStep
          rw [hpc]
          rfl
        exact ⟨.loaded i (.error error), hmem,
          nearer_setPc rfl hthread hmanager hstep rfl rfl (by rw [hpc]; exact (by decide : 2 < 4))⟩
  | inserting started value insertFor =>
    rw [hpc] at htask
    cases insertFor with
    | call => cases htask
    | caller => cases htask
    | fill number =>
      cases htask
      have hmem : (.store i clock : CacheStep sha256 V) ∈ taskSteps i result clock := by simp [taskSteps]
      obtain ⟨store, hstore⟩ := Option.isSome_iff_exists.mp (hfilling.held manager (List.mem_of_getElem? hmanager))
      have hunfold : caches.threadStep codec i thread manager (.store i clock)
          = caches.store codec i thread manager started value (.fill fill) clock := by
        unfold threadStep
        rw [hpc]
      cases hinsert : manager.policy.insert codec thread.key.key value thread.tags ⟨thread.key, value, started⟩ store
          clock with
      | error error =>
        have hstep : caches.threadStep codec i thread manager (.store i clock)
            = some (caches.setPc i thread (.publishing fill (.error error))) := by
          rw [hunfold, Caches.store, hstore]
          dsimp only
          rw [hinsert]
          rfl
        exact ⟨.store i clock, hmem,
          nearer_setPc rfl hthread hmanager hstep rfl rfl (by rw [hpc]; exact Nat.lt_succ_self 2)⟩
      | ok stored =>
        obtain ⟨after, receipt⟩ := stored
        have hstep : caches.threadStep codec i thread manager (.store i clock)
            = some { (caches.setStore manager.store after).setPc i thread (.publishing fill (.ok ())) with
              inserted := ⟨thread.key, value, started⟩ :: caches.inserted } := by
          rw [hunfold, Caches.store, hstore]
          dsimp only
          rw [hinsert]
          rfl
        exact ⟨.store i clock, hmem,
          nearer_setPc rfl hthread hmanager hstep rfl rfl (by rw [hpc]; exact Nat.lt_succ_self 2)⟩
  | publishing number published =>
    rw [hpc] at htask
    cases htask
    have hstep : caches.threadStep codec i thread manager (.publish i)
        = some (({ caches with fills := caches.fills.set fill (some published) } : Caches sha256 V).setPc i thread
          (.leaving fill)) := by
      unfold threadStep
      rw [hpc]
    exact ⟨.publish i, by simp [taskSteps],
      nearer_setPc rfl hthread hmanager hstep rfl rfl (by rw [hpc]; exact Nat.lt_succ_self 1)⟩
  | leaving number =>
    rw [hpc] at htask
    cases htask
    have hstep : caches.threadStep codec i thread manager (.leave i)
        = some ((caches.setManager thread.manager { manager with
            fills := manager.fills.filter (fun kept => kept.1 != thread.key.key.digest) }).setPc i thread .left) := by
      unfold threadStep
      rw [hpc]
      dsimp only
      rw [if_pos hlookup]
    refine ⟨.leave i, by simp [taskSteps], _, step_onThread rfl hthread hmanager hstep, .inr ⟨?_, ?_⟩⟩
    . exact hfilling.flights.landed i _ hflying rfl
    . intro after hafter
      change (caches.managers.set thread.manager _)[thread.manager]? = some after at hafter
      rw [List.getElem?_set_self (List.getElem?_eq_some_iff.mp hmanager).1] at hafter
      cases hafter
      rw [lookup_filter_ne, if_pos rfl]
  | looking again | removing again mismatch | missed | waiting number | left | inserted done | looked found read =>
    rw [hpc] at htask
    cases htask

theorem holds_taskSteps {result : Except CacheError V} {clock : Except CacheError Nat}
    (h : label ∈ taskSteps i result clock)
    : Holds caches label := by
  constructor
  . rintro store rfl
    simp [taskSteps] at h
  . rintro i thread rfl
    simp [taskSteps] at h

theorem task_finishes (hfilling : Filling caches) (hthread : caches.threads[i]? = some thread) {fill : Nat} {landed : Bool}
    (htask : thread.pc.task = some (fill, landed))
    : Finishes codec caches i fill (thread.manager, thread.key.key.digest) := by
  intro result clock
  induction hrank : thread.pc.rank using Nat.strong_induction_on generalizing caches thread landed with
  | _ rank ih =>
    obtain ⟨label, hlabel, next, hstep, hnearer⟩ := @task_nearer _ _ codec _ _ _ hfilling hthread _ _ htask result clock
    obtain ⟨pc, landed', hnext, htask', hless⟩ | ⟨hpublished, hcleared⟩ := hnearer
    . have hfilling' := hfilling.step (holds_taskSteps hlabel) hstep
      obtain ⟨labels, after, hlabels, hexec, hend⟩ := ih pc.rank (by omega) hfilling' hnext htask' rfl
      refine ⟨label :: labels, after, ?_, ?_, hend⟩
      . exact List.forall_mem_cons.mpr ⟨hlabel, hlabels⟩
      . rw [Reach.exec, hstep]
        exact hexec
    . refine ⟨[label], next, ?_, ?_, hpublished, hcleared⟩
      . exact List.forall_mem_singleton.mpr hlabel
      . rw [Reach.exec, hstep]
        rfl

/-
Misses
-/

def ComesToNothing (pc : Pc sha256 V) : Prop :=
  (∃ current read, pc = .looked (.ok current) read ∧ current.value = none) ∨ pc = .removing true none

def mayMiss (pc : Pc sha256 V) : Bool :=
  match pc with
  | .looked (.ok _) _ | .removing _ _ => true
  | _ => false

theorem mayMiss_of_nothing (h : ComesToNothing pc) : mayMiss pc = true := by
  obtain ⟨current, read, rfl, -⟩ | rfl := h
  . rfl
  . rfl

theorem mayMiss_failed (insertFor : InsertFor) (error : CacheError)
    : mayMiss (failed insertFor error : Pc sha256 V) = false := by
  cases insertFor <;> rfl

theorem mayMiss_stored (insertFor : InsertFor) (receipt : CacheReceipt)
    : mayMiss (stored insertFor receipt : Pc sha256 V) = false := by
  cases insertFor <;> rfl

def FindsNone (caches : Caches sha256 V) (thread : Thread sha256 V) (label : CacheStep sha256 V) : Prop :=
  ∃ i clock manager store, label = .look i clock ∧ thread.pc = .looking true
    ∧ caches.managers[thread.manager]? = some manager ∧ caches.liveStore manager.store = some store
    ∧ ∀ entry, store.get thread.key.key = some entry → ∃ now, clock = .ok now ∧ entry.record.staleUntilMs ≤ now

section Lookup

variable {policy : CachePolicy} {key : CacheKey} {store : InMemoryCacheStore (Insertion sha256 V)}
variable {clock : Except CacheError Nat} {mismatch : Option CacheError}

theorem get_of_lookup_none {current : CacheLookup V} {entry : Option (CacheEntry (Insertion sha256 V))}
    (h : policy.lookup codec key store clock = .returns (.ok current) entry) (hnone : current.value = none)
    : store.get key = none := by
  unfold CachePolicy.lookup at h
  split at h
  . cases h
  . split at h
    . next hget => exact hget
    . split at h
      . cases h
      . split at h
        . cases h
        . split at h
          . cases h
          . split at h
            . cases h
            . cases h
              cases hnone

theorem get_of_lookup_removes (h : policy.lookup codec key store clock = .removes none)
    : ∃ entry now, store.get key = some entry ∧ clock = .ok now ∧ entry.record.staleUntilMs ≤ now := by
  unfold CachePolicy.lookup at h
  split at h
  . cases h
  . split at h
    . cases h
    . next entry hget =>
      split at h
      . cases h
      . split at h
        . cases h
        . next now =>
          split at h
          . next hexpired => exact ⟨entry, now, hget, rfl, hexpired⟩
          . split at h <;> cases h

end Lookup

theorem thread_kept (h : Turn caches label next) (hne : label.thread ≠ some i) (hthread : caches.threads[i]? = some thread)
    : next.threads[i]? = some thread := by
  have hset : ∀ {k : Nat} {other : Thread sha256 V}, label.thread = some k →
      (caches.threads.set k other)[i]? = some thread := by
    intro k other hk
    have hki : k ≠ i := by
      rintro rfl
      exact hne hk
    rw [List.getElem?_set_ne hki]
    exact hthread
  have hlt : i < caches.threads.length := (List.getElem?_eq_some_iff.mp hthread).1
  cases h with
  | rest hthreads _ _ =>
    rw [hthreads]
    exact hthread
  | called _ _ _ hthreads _ _ =>
    rw [hthreads, List.getElem?_append_left hlt]
    exact hthread
  | goes hk _ _ hthreads _ _ | publishes hk _ _ hthreads _ _ | leaves hk _ _ _ hthreads _ _ =>
    rw [hthreads]
    exact hset hk
  | opens hk _ _ _ _ hthreads _ _ =>
    rw [hthreads, List.getElem?_append_left (by rw [List.length_set]; exact hlt)]
    exact hset hk

theorem nothing_afterLookup {again : Bool} {result : Except CacheError (CacheLookup V)} {read : Option (CacheRead sha256 V)}
    (hfills : thread.fills = true) (h : ComesToNothing (afterLookup thread again result read))
    : again = true ∧ ∃ current, result = .ok current ∧ current.value = none := by
  unfold afterLookup at h
  cases result with
  | error error =>
    obtain ⟨current, found, hlooked, -⟩ | hremoving := h
    . cases hlooked
    . cases hremoving
  | ok current =>
    dsimp only at h
    rw [hfills, Bool.true_and] at h
    split at h
    . obtain ⟨other, found, hlooked, -⟩ | hremoving := h
      . cases hlooked
      . cases hremoving
    . next hagain =>
      obtain ⟨other, found, hlooked, hnone⟩ | hremoving := h
      . cases hlooked
        rw [hnone, Option.isNone_none, Bool.and_true, Bool.not_eq_true', Bool.not_eq_false] at hagain
        exact ⟨hagain, current, rfl, hnone⟩
      . cases hremoving

theorem threadStep_nothing {after : Thread sha256 V} (hthread : caches.threads[i]? = some thread)
    (hfills : thread.fills = true) (hmanager : caches.managers[thread.manager]? = some manager)
    (h : caches.threadStep codec i thread manager label = some next) (hafter : next.threads[i]? = some after)
    (hnothing : ComesToNothing after.pc) (hbefore : ¬ ComesToNothing thread.pc)
    : FindsNone caches thread label := by
  have hlt : i < caches.threads.length := (List.getElem?_eq_some_iff.mp hthread).1
  have hpc : ∀ {pc : Pc sha256 V}, next.threads = caches.threads.set i { thread with pc := pc } → ComesToNothing pc := by
    intro pc hthreads
    rw [hthreads, List.getElem?_set_self hlt] at hafter
    cases hafter
    exact hnothing
  have hquiet : ∀ {pc : Pc sha256 V}, next.threads = caches.threads.set i { thread with pc := pc } → mayMiss pc = false →
      FindsNone caches thread label := by
    intro pc hthreads hquiet
    rw [mayMiss_of_nothing (hpc hthreads)] at hquiet
    cases hquiet
  unfold threadStep at h
  split at h
  . next k clock again hlooking =>
    unfold look at h
    split at h
    . cases h
    . next store hstore =>
      split at h
      . next mismatch hlooked =>
        cases h
        obtain ⟨current, read, hsame, -⟩ | hsame := hpc rfl
        . cases hsame
        . cases hsame
          refine ⟨k, clock, manager, store, rfl, hlooking, hmanager, hstore, fun entry hget => ?_⟩
          obtain ⟨found, now, hfound, hclock, hexpired⟩ := get_of_lookup_removes hlooked
          rw [hget] at hfound
          cases hfound
          exact ⟨now, hclock, hexpired⟩
      . next result entry hlooked =>
        cases h
        obtain ⟨rfl, current, rfl, hnone⟩ := nothing_afterLookup hfills (hpc rfl)
        refine ⟨k, clock, manager, store, rfl, hlooking, hmanager, hstore, fun entry hget => ?_⟩
        rw [get_of_lookup_none hlooked hnone] at hget
        cases hget
  . next k again mismatch hremoving =>
    split at h
    . cases h
    . cases h
      obtain ⟨rfl, current, hresult, -⟩ := nothing_afterLookup hfills (hpc rfl)
      cases mismatch with
      | none => exact absurd (.inr hremoving) hbefore
      | some error => cases hresult
  . next k interrupted hmissed =>
    cases h
    unfold enter at hafter
    have hentered : mayMiss after.pc = false := by
      split at hafter
      . rw [show (caches.setPc i thread _).threads = caches.threads.set i _ from rfl,
            List.getElem?_set_self hlt] at hafter
        cases hafter
        rfl
      . split at hafter
        . rw [show (caches.setPc i thread _).threads = caches.threads.set i _ from rfl,
            List.getElem?_set_self hlt] at hafter
          cases hafter
          rfl
        . split at hafter
          . rw [show (caches.setPc i thread _).threads = caches.threads.set i _ from rfl,
            List.getElem?_set_self hlt] at hafter
            cases hafter
            rfl
          . dsimp only [setManager, setPc] at hafter
            rw [List.getElem?_append_left (by rw [List.length_set]; exact hlt), List.getElem?_set_self hlt] at hafter
            cases hafter
            rfl
    rw [mayMiss_of_nothing hnothing] at hentered
    cases hentered
  . cases h
    exact hquiet rfl rfl
  . split at h
    . cases h
      exact hquiet rfl rfl
    . cases h
      exact hquiet rfl (mayMiss_failed _ _)
  . unfold store at h
    split at h
    . cases h
    . dsimp only at h
      split at h
      . cases h
        exact hquiet rfl (mayMiss_failed _ _)
      . cases h
        exact hquiet rfl (mayMiss_stored _ _)
  . cases h
    exact hquiet rfl rfl
  . cases h
    exact hquiet rfl rfl
  . split at h
    . cases h
      exact hquiet rfl rfl
    . cases h
      exact hquiet rfl rfl
    . cases h
  iterate 3
    . cases h
      exact hquiet rfl rfl
  . cases h

/-
Shared fills
-/

-- One loader runs under a key, those who wait for a fill get its result or the task that brings it, what is entered is
-- cleared, and a value that is returned is one that was stored under the key.
structure Coalesced (codec : CacheCodec V) (caches : Caches sha256 V) : Prop where
  once : ∀ (i j : Nat) (thread other : Thread sha256 V) (manager : CacheManager), caches.threads[i]? = some thread →
    caches.threads[j]? = some other →
    thread.manager = other.manager → thread.key.key.digest = other.key.key.digest →
    caches.managers[thread.manager]? = some manager → manager.policy.coalesceFills = true →
    thread.pc.loads = true → other.pc.loads = true → i = j
  attended : ∀ (i : Nat) (thread : Thread sha256 V) (fill : Nat), caches.threads[i]? = some thread →
    thread.pc = .waiting fill →
    (∃ next, caches.step codec (.wake i) = some next) ∨
      ∃ j task, caches.threads[j]? = some task ∧ task.pc.task = some (fill, false)
        ∧ Finishes codec caches j fill (task.manager, task.key.key.digest)
  removed : ∀ (m : Nat) (manager : CacheManager) (digest : String) (fill : Nat), caches.managers[m]? = some manager →
    manager.fills.lookup digest = some fill →
    ∃ j task landed, caches.threads[j]? = some task ∧ task.manager = m ∧ task.key.key.digest = digest
      ∧ task.pc.task = some (fill, landed) ∧ Finishes codec caches j fill (m, digest)
  restarts : ∀ (i : Nat) (thread : Thread sha256 V) (manager : CacheManager), caches.threads[i]? = some thread →
    thread.pc = .missed →
    caches.managers[thread.manager]? = some manager → manager.policy.coalesceFills = true →
    manager.fills.lookup thread.key.key.digest = none →
    ∃ next, caches.step codec (.enter i none) = some next
      ∧ { thread with pc := .spawned caches.fills.length } ∈ next.threads
  produced : ∀ thread ∈ caches.threads, ∀ current read value, thread.pc = .looked (.ok current) read →
    current.value = some value → Comes codec caches.inserted thread.key.key.digest value

-- A waiter that gives up leaves the fills and the other threads alone, and a call comes to nothing only where it finds
-- nothing after a fill.
structure Spares (caches : Caches sha256 V) (label : CacheStep sha256 V) (next : Caches sha256 V) : Prop where
  cancelled : ∀ (i : Nat) (error : CacheError), label = .abandon i error ∨ label = .enter i (some error) →
    next.fills = caches.fills ∧ next.managers = caches.managers ∧ next.stores = caches.stores
      ∧ ∀ j, j ≠ i → next.threads[j]? = caches.threads[j]?
  misses : ∀ (i : Nat) (thread after : Thread sha256 V), caches.threads[i]? = some thread →
    thread.fills = true → next.threads[i]? = some after →
    ComesToNothing after.pc → ComesToNothing thread.pc ∨ FindsNone caches thread label

theorem once_of_filling (h : Filling caches) {other : Thread sha256 V} (hthread : caches.threads[i]? = some thread)
    (hother : caches.threads[j]? = some other) (hsame : thread.manager = other.manager)
    (hdigest : thread.key.key.digest = other.key.key.digest) (hmanager : caches.managers[thread.manager]? = some manager)
    (hcoalesce : manager.policy.coalesceFills = true) (hloads : thread.pc.loads = true) (hloads' : other.pc.loads = true)
    : i = j := by
  have hfill : ∀ {k : Nat} {found : Thread sha256 V}, caches.threads[k]? = some found → found.manager = thread.manager →
      found.pc.loads = true →
      ∃ fill, caches.flights.flying k = some ⟨(found.manager, found.key.key.digest), fill, false⟩ := by
    intro k found hfound hfoundManager hfoundLoads
    cases hpc : found.pc with
    | loading started insertFor =>
      cases h.loaders found (List.mem_of_getElem? hfound) started insertFor hpc with
      | inl hfill =>
        obtain ⟨fill, rfl⟩ := hfill
        exact ⟨fill, (flying_thread hfound).trans (flightOf_of_task (by rw [hpc]; rfl))⟩
      | inr hplain =>
        obtain ⟨plain, hplain, hnot⟩ := hplain
        rw [hfoundManager, hmanager] at hplain
        cases hplain
        rw [hcoalesce] at hnot
        cases hnot
    | _ =>
      rw [hpc] at hfoundLoads
      cases hfoundLoads
  obtain ⟨fill, hflying⟩ := hfill hthread rfl hloads
  obtain ⟨fill', hflying'⟩ := hfill hother hsame.symm hloads'
  exact h.flights.once hflying hflying' (Prod.ext hsame hdigest)

theorem flying_eq_some {flight : Flight (Nat × String)} (h : caches.flights.flying i = some flight)
    : ∃ thread, caches.threads[i]? = some thread ∧ thread.manager = flight.key.1
      ∧ thread.key.key.digest = flight.key.2 ∧ thread.pc.task = some (flight.number, flight.landed) := by
  obtain ⟨thread, hthread, hflight⟩ := Option.bind_eq_some_iff.mp h
  exact ⟨thread, hthread, flightOf_eq_some hflight⟩

theorem attended_of_filling (h : Filling caches) {fill : Nat} (hthread : caches.threads[i]? = some thread)
    (hpc : thread.pc = .waiting fill)
    : (∃ next, caches.step codec (.wake i) = some next) ∨
      ∃ j task, caches.threads[j]? = some task ∧ task.pc.task = some (fill, false)
        ∧ Finishes codec caches j fill (task.manager, task.key.key.digest) := by
  obtain ⟨hlt, manager, hmanager⟩ := h.waited thread (List.mem_of_getElem? hthread) fill hpc
  cases hresult : caches.fills[fill]? with
  | none => exact absurd hlt (not_lt.mpr (List.getElem?_eq_none_iff.mp hresult))
  | some result =>
    cases result with
    | none =>
      obtain ⟨j, flight, hflying, rfl, hlanded⟩ := h.flights.unfinished fill hresult
      obtain ⟨task, htask, -, -, hpc⟩ := flying_eq_some hflying
      rw [hlanded] at hpc
      exact .inr ⟨j, task, htask, hpc, task_finishes h htask hpc⟩
    | some published =>
      apply Or.inl
      cases published with
      | ok done =>
        have hstep : caches.threadStep codec i thread manager (.wake i) = some (caches.setPc i thread (.looking true)) := by
          unfold threadStep
          rw [hpc]
          dsimp only
          rw [hresult]
        exact ⟨_, step_onThread rfl hthread hmanager hstep⟩
      | error error =>
        have hstep : caches.threadStep codec i thread manager (.wake i)
            = some (caches.setPc i thread (.looked (.error error) none)) := by
          unfold threadStep
          rw [hpc]
          dsimp only
          rw [hresult]
        exact ⟨_, step_onThread rfl hthread hmanager hstep⟩

theorem cancelled_step {error : CacheError} (hlabel : label = .abandon i error ∨ label = .enter i (some error))
    (h : caches.step codec label = some next)
    : next.fills = caches.fills ∧ next.managers = caches.managers ∧ next.stores = caches.stores
      ∧ ∀ j, j ≠ i → next.threads[j]? = caches.threads[j]? := by
  obtain ⟨acted, hacted, rfl⟩ := Option.map_eq_some_iff.mp h
  have hon : caches.onThread codec i label = some acted := by
    cases hlabel with
    | inl h =>
      subst h
      exact hacted
    | inr h =>
      subst h
      exact hacted
  unfold onThread at hon
  split at hon
  . cases hon
  . next thread hthread =>
    split at hon
    . cases hon
    . next manager hmanager =>
      have hleft : acted = caches.setPc i thread (.looked (.error error) none) := by
        unfold threadStep at hon
        cases hlabel with
        | inl h =>
          subst h
          cases hpc : thread.pc with
          | waiting fill =>
            rw [hpc] at hon
            cases hon
            rfl
          | _ =>
            rw [hpc] at hon
            cases hon
        | inr h =>
          subst h
          cases hpc : thread.pc with
          | missed =>
            rw [hpc] at hon
            cases hon
            rfl
          | _ =>
            rw [hpc] at hon
            cases hon
      rw [hleft]
      exact ⟨rfl, rfl, rfl, fun j hne => List.getElem?_set_ne (Ne.symm hne)⟩

theorem restarted_step (hthread : caches.threads[i]? = some thread) (hpc : thread.pc = .missed)
    (hmanager : caches.managers[thread.manager]? = some manager) (hcoalesce : manager.policy.coalesceFills = true)
    (hfree : manager.fills.lookup thread.key.key.digest = none)
    : ∃ next, caches.step codec (.enter i none) = some next
      ∧ { thread with pc := .spawned caches.fills.length } ∈ next.threads := by
  have hstep : caches.threadStep codec i thread manager (.enter i none) = some (caches.enter i thread manager none) := by
    unfold threadStep
    rw [hpc]
  refine ⟨_, step_onThread rfl hthread hmanager hstep, ?_⟩
  have hthreads : (caches.enter i thread manager none).threads
      = caches.threads.set i { thread with pc := .waiting caches.fills.length }
        ++ [{ thread with pc := .spawned caches.fills.length }] := by
    unfold enter
    dsimp only
    rw [hcoalesce, hfree]
    rfl
  change _ ∈ (caches.enter i thread manager none).threads
  rw [hthreads]
  exact List.mem_append_right _ (List.mem_singleton_self _)

theorem any_of_run (h : Reach.Under Opened (step codec) Holds caches) : Reach.Any Initial (step codec) caches := by
  induction h with
  | init h => exact .init h.toInitial
  | step _ _ hstep ih => exact .step ih trivial hstep

theorem missed_step {after : Thread sha256 V} (hholds : Holds caches label) (h : caches.step codec label = some next)
    (hthread : caches.threads[i]? = some thread) (hfills : thread.fills = true) (hafter : next.threads[i]? = some after)
    (hnothing : ComesToNothing after.pc)
    : ComesToNothing thread.pc ∨ FindsNone caches thread label := by
  by_cases hbefore : ComesToNothing thread.pc
  . exact .inl hbefore
  . by_cases hi : label.thread = some i
    . apply Or.inr
      obtain ⟨acted, hacted, rfl⟩ := Option.map_eq_some_iff.mp h
      have hon : caches.onThread codec i label = some acted := by
        cases label <;> cases hi <;> exact hacted
      unfold onThread at hon
      rw [hthread] at hon
      dsimp only at hon
      split at hon
      . cases hon
      . next manager hmanager => exact threadStep_nothing hthread hfills hmanager hon hafter hnothing hbefore
    . have hkept := thread_kept (step_turn hholds h) hi hthread
      rw [hafter] at hkept
      cases hkept
      exact absurd hnothing hbefore

end Caches

/--
In every run in which the managers keep their stores, and no panic comes out of the insert behind a fill or out of the
destructor of its loader, the fills of a key are shared soundly, and a call comes to nothing only where its last lookup
finds no live entry.
-/
theorem fills_shared_soundly (codec : CacheCodec V) {caches : Caches sha256 V}
    (h : Reach.Under Caches.Opened (Caches.step codec) Caches.Holds caches)
    : Caches.Coalesced codec caches
      ∧ ∀ label next, Caches.Holds caches label → caches.step codec label = some next →
        Caches.Spares caches label next := by
  have hfilling := Caches.filling_of_run h
  refine ⟨⟨?_, ?_, ?_, ?_, ?_⟩, fun label next hholds hstep => ⟨?_, ?_⟩⟩
  . intro i j thread other manager hthread hother hsame hdigest hmanager hcoalesce hloads hloads'
    exact Caches.once_of_filling hfilling hthread hother hsame hdigest hmanager hcoalesce hloads hloads'
  . intro i thread fill hthread hpc
    exact Caches.attended_of_filling hfilling hthread hpc
  . intro m manager digest fill hmanager hlookup
    obtain ⟨j, flight, hflying, hkey, rfl⟩ :=
      hfilling.flights.flown _ _ ((Caches.table_manager hmanager digest).trans hlookup)
    obtain ⟨task, htask, hm, hdigest, hpc⟩ := Caches.flying_eq_some hflying
    rw [hkey] at hm hdigest
    have hfinishes := @Caches.task_finishes _ _ codec _ _ _ hfilling htask _ _ hpc
    rw [hm, hdigest] at hfinishes
    exact ⟨j, task, flight.landed, htask, hm, hdigest, hpc, hfinishes⟩
  . intro i thread manager hthread hpc hmanager hcoalesce hfree
    exact Caches.restarted_step hthread hpc hmanager hcoalesce hfree
  . exact (Caches.isolated_of_run (Caches.any_of_run h)).threads
  . intro i error hlabel
    exact Caches.cancelled_step hlabel hstep
  . intro i thread after hthread hfills hafter hnothing
    exact Caches.missed_step hholds hstep hthread hfills hafter hnothing

namespace Caches

theorem oneStore_opened (sha256 : Sha256) (policy : CachePolicy) : Opened (oneStore sha256 policy) where
  toInitial := oneStore_initial sha256 policy
  tables := by simp [oneStore]
  fills := rfl
  held := by simp [oneStore, liveStore]

def fillInvalidated (sha256 : Sha256) : List (CacheStep sha256 Bool) :=
  [ .register 0,
    .call 0 (catalogKey sha256) (.getOrFill ["items"]),
    .look 0 (.ok 1000),
    .enter 0 none,
    .start 1,
    .loaded 1 (.ok true),
    .store 1 (.ok 1000) ]
  ++ invalidateItems sha256 ++
  [ .publish 1,
    .leave 1,
    .wake 0,
    .look 0 (.ok 2000) ]

def unwoundFill (sha256 : Sha256) : List (CacheStep sha256 Bool) :=
  [ .call 0 (catalogKey sha256) (.getOrFill ["items"]),
    .look 0 (.ok 1000),
    .enter 0 none,
    .start 1,
    .loaded 1 (.ok true),
    .unwind 1 ]

def sharedFill (sha256 : Sha256) : List (CacheStep sha256 Bool) :=
  [ .call 0 (catalogKey sha256) (.getOrFill ["items"]),
    .look 0 (.ok 1000),
    .enter 0 none,
    .call 0 (catalogKey sha256) (.getOrFill ["items"]),
    .look 2 (.ok 1000),
    .enter 2 none,
    .start 1,
    .loaded 1 (.ok true),
    .store 1 (.ok 1000),
    .publish 1,
    .leave 1,
    .wake 2,
    .look 2 (.ok 2000) ]

def comesToNothing (caches : Caches sha256 V) (i : Nat) : Bool :=
  match caches.threads[i]? with
  | some ⟨_, _, _, true, .looked (.ok current) _⟩ => current.value.isNone
  | _ => false

theorem nothing_of_comesToNothing {caches : Caches sha256 V} {i : Nat} (h : caches.comesToNothing i = true)
    : ∃ thread ∈ caches.threads, thread.fills = true ∧ ∃ current read, thread.pc = .looked (.ok current) read
      ∧ current.value = none := by
  unfold comesToNothing at h
  split at h
  . next hthread => exact ⟨_, List.mem_of_getElem? hthread, rfl, _, _, rfl, Option.isNone_iff_eq_none.mp h⟩
  . cases h

end Caches

-- A call of `get_or_fill` returns no value, although its loader has returned one; and a fill that unwinds leaves an
-- entry that no task is going to remove.
theorem filled_call_comes_to_nothing
    : (∃ caches : Caches sha256Digest Bool, Reach.Under Caches.Opened (Caches.step boolCodec) Caches.Holds caches ∧
        caches.inserted.map (·.value) = [true] ∧
        ∃ thread ∈ caches.threads, thread.fills = true ∧ ∃ current read, thread.pc = .looked (.ok current) read
          ∧ current.value = none) ∧
      ∃ caches, Reach.exec (Caches.step boolCodec) (Caches.oneStore sha256Digest catalogPolicy)
          (Caches.unwoundFill sha256Digest) = some caches ∧
        caches.managers.any (fun manager => manager.fills.lookup (catalogKey sha256Digest).key.digest = some 0) ∧
        caches.threads.all (fun thread => thread.pc.task.isNone) := by
  have hran : (Reach.exec (Caches.step boolCodec) (Caches.oneStore sha256Digest catalogPolicy)
      (Caches.fillInvalidated sha256Digest)).any (fun caches =>
        caches.comesToNothing 0 && decide (caches.inserted.map (·.value) = [true])) = true := by decide +kernel
  obtain ⟨caches, hexec, htest⟩ := (Option.any_eq_true _ _).mp hran
  rw [Bool.and_eq_true, decide_eq_true_eq] at htest
  have hholds : ∀ s, ∀ label ∈ Caches.fillInvalidated sha256Digest, Caches.Holds s label := by
    refine fun s label hlabel => ⟨?_, ?_⟩
    . rintro store rfl
      simp [Caches.fillInvalidated, Caches.invalidateItems] at hlabel
    . rintro i thread rfl
      simp [Caches.fillInvalidated, Caches.invalidateItems] at hlabel
  have hunwound : (Reach.exec (Caches.step boolCodec) (Caches.oneStore sha256Digest catalogPolicy)
      (Caches.unwoundFill sha256Digest)).any (fun caches =>
        caches.managers.any (fun manager => manager.fills.lookup (catalogKey sha256Digest).key.digest = some 0)
          && caches.threads.all (fun thread => thread.pc.task.isNone)) = true := by decide +kernel
  obtain ⟨wedged, hwedged, hentry⟩ := (Option.any_eq_true _ _).mp hunwound
  refine ⟨⟨caches, ?_, htest.2, Caches.nothing_of_comesToNothing htest.1⟩, wedged, hwedged, ?_⟩
  . exact Reach.exec_under _ (.init (Caches.oneStore_opened sha256Digest catalogPolicy)) hholds hexec
  . exact Bool.and_eq_true_iff.mp hentry

theorem fills_shared_soundly_sharedFill
    : ∃ caches : Caches sha256Digest Bool, caches.answer 2 = some true ∧ caches.inserted.map (·.value) = [true]
        ∧ Caches.Coalesced boolCodec caches := by
  have hran : (Reach.exec (Caches.step boolCodec) (Caches.oneStore sha256Digest catalogPolicy)
      (Caches.sharedFill sha256Digest)).any (fun caches =>
        caches.answer 2 = some true && decide (caches.inserted.map (·.value) = [true])) = true := by decide +kernel
  obtain ⟨caches, hexec, htest⟩ := (Option.any_eq_true _ _).mp hran
  simp only [Bool.and_eq_true, decide_eq_true_eq] at htest
  have hholds : ∀ s, ∀ label ∈ Caches.sharedFill sha256Digest, Caches.Holds s label := by
    refine fun s label hlabel => ⟨?_, ?_⟩
    . rintro store rfl
      simp [Caches.sharedFill] at hlabel
    . rintro i thread rfl
      simp [Caches.sharedFill] at hlabel
  have hrun := Reach.exec_under _ (.init (Caches.oneStore_opened sha256Digest catalogPolicy)) hholds hexec
  exact ⟨caches, htest.1, htest.2, (fills_shared_soundly boolCodec hrun).1⟩

end Data

end Pliego
