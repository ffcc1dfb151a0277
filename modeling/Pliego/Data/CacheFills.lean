import Pliego.Data.CacheIsolation
import Pliego.Lib.SingleFlight

/-!
Coalesced fills.
-/

namespace Pliego

open SingleFlight

namespace Data

variable {sha256 : Sha256} {V : Type}

def InsertFor.task (insertFor : InsertFor) : Option (Nat × Bool) :=
  match insertFor with
  | .fill number => some (number, false)
  | _ => none

namespace Pc

def task (pc : Pc sha256 V) : Option (Nat × Bool) :=
  match pc with
  | .spawned fill | .publishing fill _ => some (fill, false)
  | .loading _ insertFor | .inserting _ _ insertFor => insertFor.task
  | .leaving fill => some (fill, true)
  | _ => none

def loads (pc : Pc sha256 V) : Bool :=
  match pc with
  | .loading _ _ => true
  | _ => false

def rank (pc : Pc sha256 V) : Nat :=
  match pc with
  | .spawned _ => 5
  | .loading _ _ => 4
  | .inserting _ _ _ => 3
  | .publishing _ _ => 2
  | .leaving _ => 1
  | _ => 0

end Pc

namespace Caches

def flightOf (thread : Thread sha256 V) : Option (Flight (Nat × String)) :=
  thread.pc.task.map fun task => ⟨(thread.manager, thread.key.key.digest), task.1, task.2⟩

def flights (caches : Caches sha256 V) : Flights (Nat × String) Nat (Except CacheError Unit) where
  table key := caches.managers[key.1]?.bind fun manager => manager.fills.lookup key.2
  flying i := caches.threads[i]?.bind flightOf
  results := caches.fills

structure Opened (caches : Caches sha256 V) : Prop extends Initial caches where
  tables : ∀ manager ∈ caches.managers, manager.fills = []
  fills : caches.fills = []
  held : ∀ manager ∈ caches.managers, (caches.liveStore manager.store).isSome = true

-- No manager loses its store, and no fill ends in a panic that nothing catches.
structure Holds (caches : Caches sha256 V) (label : CacheStep sha256 V) : Prop where
  drop : ∀ store, label = .drop store → ∀ manager ∈ caches.managers, manager.store ≠ store
  unwind : ∀ i thread, label = .unwind i → caches.threads[i]? = some thread → thread.pc.task = none

/-
One step, for threads and fills
-/

structure Goes (caches : Caches sha256 V) (thread : Thread sha256 V) (pc : Pc sha256 V) : Prop where
  task : pc.task = thread.pc.task
  waits : ∀ fill, pc = .waiting fill → ∃ manager, caches.managers[thread.manager]? = some manager
    ∧ manager.fills.lookup thread.key.key.digest = some fill
  loads : ∀ started insertFor, pc = .loading started insertFor →
    (∃ fill, insertFor = .fill fill)
      ∨ ∃ manager, caches.managers[thread.manager]? = some manager ∧ manager.policy.coalesceFills = false

inductive Turn (caches : Caches sha256 V) (label : CacheStep sha256 V) (next : Caches sha256 V) : Prop where
  | rest (hthreads : next.threads = caches.threads) (hmanagers : next.managers = caches.managers)
    (hfills : next.fills = caches.fills)
  | called {thread : Thread sha256 V} (htask : thread.pc.task = none) (hwaits : ∀ fill, thread.pc ≠ .waiting fill)
    (hloads : thread.pc.loads = false) (hthreads : next.threads = caches.threads ++ [thread])
    (hmanagers : next.managers = caches.managers) (hfills : next.fills = caches.fills)
  | goes {i : Nat} {thread : Thread sha256 V} {pc : Pc sha256 V} (hi : label.thread = some i)
    (hthread : caches.threads[i]? = some thread)
    (hgoes : caches.Goes thread pc) (hthreads : next.threads = caches.threads.set i { thread with pc := pc })
    (hmanagers : next.managers = caches.managers) (hfills : next.fills = caches.fills)
  | opens {i : Nat} {thread : Thread sha256 V} {manager : CacheManager} (hi : label.thread = some i)
    (hthread : caches.threads[i]? = some thread)
    (hmanager : caches.managers[thread.manager]? = some manager) (hpc : thread.pc = .missed)
    (hfree : manager.fills.lookup thread.key.key.digest = none)
    (hthreads : next.threads = caches.threads.set i { thread with pc := .waiting caches.fills.length }
      ++ [{ thread with pc := .spawned caches.fills.length }])
    (hmanagers : next.managers = caches.managers.set thread.manager
      { manager with fills := (thread.key.key.digest, caches.fills.length) :: manager.fills })
    (hfills : next.fills = caches.fills ++ [none])
  | publishes {i fill : Nat} {thread : Thread sha256 V} {result : Except CacheError Unit} (hi : label.thread = some i)
    (hthread : caches.threads[i]? = some thread) (hpc : thread.pc = .publishing fill result)
    (hthreads : next.threads = caches.threads.set i { thread with pc := .leaving fill })
    (hmanagers : next.managers = caches.managers) (hfills : next.fills = caches.fills.set fill (some result))
  | leaves {i fill : Nat} {thread : Thread sha256 V} {manager : CacheManager} (hi : label.thread = some i)
    (hthread : caches.threads[i]? = some thread)
    (hmanager : caches.managers[thread.manager]? = some manager) (hpc : thread.pc = .leaving fill)
    (hthreads : next.threads = caches.threads.set i { thread with pc := .left })
    (hmanagers : next.managers = caches.managers.set thread.manager { manager with
      fills :=
        if manager.fills.lookup thread.key.key.digest = some fill then
          manager.fills.filter (fun kept => kept.1 != thread.key.key.digest)
        else
          manager.fills })
    (hfills : next.fills = caches.fills)

variable {codec : CacheCodec V} {caches next : Caches sha256 V} {i : Nat} {thread : Thread sha256 V}
variable {manager : CacheManager} {label : CacheStep sha256 V} {pc : Pc sha256 V}

theorem Goes.quiet (htask : pc.task = thread.pc.task) (hwaits : ∀ fill, pc ≠ .waiting fill) (hloads : pc.loads = false)
    : caches.Goes thread pc where
  task := htask
  waits := fun fill h => absurd h (hwaits fill)
  loads := by
    rintro started insertFor rfl
    cases hloads

theorem Turn.setPc (hi : label.thread = some i) (hthread : caches.threads[i]? = some thread) (htask : pc.task = thread.pc.task)
    (hwaits : ∀ fill, pc ≠ .waiting fill) (hloads : pc.loads = false)
    : Turn caches label (caches.setPc i thread pc) :=
  .goes hi hthread (.quiet htask hwaits hloads) rfl rfl rfl

theorem afterLookup_quiet {again : Bool} {result : Except CacheError (CacheLookup V)} {read : Option (CacheRead sha256 V)}
    : (afterLookup thread again result read).task = none ∧ (∀ fill, afterLookup thread again result read ≠ .waiting fill)
      ∧ (afterLookup thread again result read).loads = false := by
  unfold afterLookup
  cases result with
  | error error => exact ⟨rfl, nofun, rfl⟩
  | ok current =>
    dsimp only
    split
    . exact ⟨rfl, nofun, rfl⟩
    . exact ⟨rfl, nofun, rfl⟩

theorem failed_quiet (insertFor : InsertFor) (error : CacheError)
    : (failed insertFor error : Pc sha256 V).task = insertFor.task
      ∧ (∀ fill, (failed insertFor error : Pc sha256 V) ≠ .waiting fill)
      ∧ (failed insertFor error : Pc sha256 V).loads = false := by
  cases insertFor <;> exact ⟨rfl, nofun, rfl⟩

theorem stored_quiet (insertFor : InsertFor) (receipt : CacheReceipt)
    : (stored insertFor receipt : Pc sha256 V).task = insertFor.task
      ∧ (∀ fill, (stored insertFor receipt : Pc sha256 V) ≠ .waiting fill)
      ∧ (stored insertFor receipt : Pc sha256 V).loads = false := by
  cases insertFor <;> exact ⟨rfl, nofun, rfl⟩

section

variable (hi : label.thread = some i)

include hi

theorem look_turn {again : Bool} {clock : Except CacheError Nat} (hthread : caches.threads[i]? = some thread)
    (hpc : thread.pc = .looking again) (h : caches.look codec i thread manager again clock = some next)
    : Turn caches label next := by
  have htask : thread.pc.task = none := by
    rw [hpc]
    rfl
  unfold look at h
  split at h
  . cases h
  . split at h
    . cases h
      exact .setPc hi hthread htask.symm nofun rfl
    . cases h
      exact .setPc hi hthread (afterLookup_quiet.1.trans htask.symm) afterLookup_quiet.2.1 afterLookup_quiet.2.2

theorem enter_turn {interrupted : Option CacheError} (hthread : caches.threads[i]? = some thread)
    (hmanager : caches.managers[thread.manager]? = some manager) (hpc : thread.pc = .missed)
    : Turn caches label (caches.enter i thread manager interrupted) := by
  have htask : thread.pc.task = none := by
    rw [hpc]
    rfl
  unfold enter
  cases interrupted with
  | some error => exact .setPc hi hthread htask.symm nofun rfl
  | none =>
    dsimp only
    cases hcoalesce : manager.policy.coalesceFills with
    | false =>
      have hgoes : caches.Goes thread (.loading caches.time .caller) :=
        ⟨htask.symm, nofun, fun _ _ _ => .inr ⟨manager, hmanager, hcoalesce⟩⟩
      exact .goes hi hthread hgoes rfl rfl rfl
    | true =>
      cases hlookup : manager.fills.lookup thread.key.key.digest with
      | some fill =>
        have hgoes : caches.Goes thread (.waiting fill) := by
          refine ⟨htask.symm, ?_, nofun⟩
          rintro other ⟨⟩
          exact ⟨manager, hmanager, hlookup⟩
        exact .goes hi hthread hgoes rfl rfl rfl
      | none => exact .opens hi hthread hmanager hpc hlookup rfl rfl rfl

theorem store_turn {started : Nat} {value : V} {insertFor : InsertFor} {clock : Except CacheError Nat}
    (hthread : caches.threads[i]? = some thread) (hpc : thread.pc = .inserting started value insertFor)
    (h : caches.store codec i thread manager started value insertFor clock = some next)
    : Turn caches label next := by
  have htask : thread.pc.task = insertFor.task := by
    rw [hpc]
    rfl
  unfold store at h
  split at h
  . cases h
  . dsimp only at h
    split at h
    . next error _ =>
      cases h
      obtain ⟨hsame, hwaits, hloads⟩ := @failed_quiet sha256 V insertFor error
      exact .goes hi hthread (.quiet (hsame.trans htask.symm) hwaits hloads) rfl rfl rfl
    . next store' receipt _ =>
      cases h
      obtain ⟨hsame, hwaits, hloads⟩ := @stored_quiet sha256 V insertFor receipt
      exact .goes hi hthread (.quiet (hsame.trans htask.symm) hwaits hloads) rfl rfl rfl

theorem threadStep_turn (hholds : Holds caches label) (hthread : caches.threads[i]? = some thread)
    (hmanager : caches.managers[thread.manager]? = some manager)
    (h : caches.threadStep codec i thread manager label = some next)
    : Turn caches label next := by
  unfold threadStep at h
  split at h
  . next hpc => exact look_turn hi hthread hpc h
  . next hpc =>
    split at h
    . cases h
    . cases h
      refine .goes hi hthread (.quiet ?_ afterLookup_quiet.2.1 afterLookup_quiet.2.2) rfl rfl rfl
      rw [afterLookup_quiet.1, hpc]
      rfl
  . next hpc =>
    cases h
    exact enter_turn hi hthread hmanager hpc
  . next fill hpc =>
    cases h
    have hgoes : caches.Goes thread (.loading caches.time (.fill fill)) := by
      refine ⟨by rw [hpc]; rfl, nofun, ?_⟩
      rintro started insertFor ⟨⟩
      exact .inl ⟨fill, rfl⟩
    exact .goes hi hthread hgoes rfl rfl rfl
  . next started insertFor hpc =>
    split at h
    . cases h
      exact .setPc hi hthread (by rw [hpc]; rfl) nofun rfl
    . next error =>
      cases h
      obtain ⟨hsame, hwaits, hloads⟩ := @failed_quiet sha256 V insertFor error
      exact .setPc hi hthread (by rw [hsame, hpc]; rfl) hwaits hloads
  . next hpc => exact store_turn hi hthread hpc h
  . next hpc =>
    cases h
    exact .publishes hi hthread hpc rfl rfl rfl
  . next hpc =>
    cases h
    exact .leaves hi hthread hmanager hpc rfl rfl rfl
  . next hpc =>
    split at h
    . cases h
      exact .setPc hi hthread (by rw [hpc]; rfl) nofun rfl
    . cases h
      exact .setPc hi hthread (by rw [hpc]; rfl) nofun rfl
    . cases h
  . next hpc =>
    cases h
    exact .setPc hi hthread (by rw [hpc]; rfl) nofun rfl
  iterate 2
    . cases h
      cases hi
      exact .setPc rfl hthread (hholds.unwind i thread rfl hthread).symm nofun rfl
  . cases h

end

theorem act_turn (hholds : Holds caches label) (h : caches.act codec label = some next) : Turn caches label next := by
  have hrest : ∀ {next : Caches sha256 V}, next.threads = caches.threads → next.managers = caches.managers →
      next.fills = caches.fills → Turn caches label next := fun hthreads hmanagers hfills => .rest hthreads hmanagers hfills
  have hon : ∀ {i : Nat}, label.thread = some i → caches.onThread codec i label = some next → Turn caches label next := by
    intro i hi h
    unfold onThread at h
    split at h
    . cases h
    . next thread hthread =>
      split at h
      . cases h
      . next manager hmanager => exact threadStep_turn hi hholds hthread hmanager h
  unfold act at h
  split at h
  . next manager key call =>
    cases h
    have hstart : (caches.start manager key call).pc.task = none
        ∧ (∀ fill, (caches.start manager key call).pc ≠ .waiting fill)
        ∧ (caches.start manager key call).pc.loads = false := by
      cases call <;> exact ⟨rfl, fun _ h => (by cases h), rfl⟩
    exact .called hstart.1 hstart.2.1 hstart.2.2 rfl rfl rfl
  iterate 11
    . exact hon rfl h
  . split at h
    . cases h
    . cases h
      exact hrest rfl rfl rfl
  . split at h
    . cases h
      exact hrest rfl rfl rfl
    . cases h
  . cases h
    exact hrest rfl rfl rfl
  . split at h
    . cases h
      unfold begin
      split
      . exact hrest rfl rfl rfl
      . split
        . exact hrest rfl rfl rfl
        . exact hrest rfl rfl rfl
    . cases h
  . split at h
    . cases h
    . unfold apply at h
      split at h
      . cases h
      . split at h
        . cases h
        . cases h
          exact hrest rfl rfl rfl
  . split at h
    . cases h
    . unfold finish at h
      split at h
      . cases h
      . cases h
        exact hrest rfl rfl rfl

theorem step_turn (hholds : Holds caches label) (h : caches.step codec label = some next) : Turn caches label next := by
  obtain ⟨acted, hacted, rfl⟩ := Option.map_eq_some_iff.mp h
  cases act_turn hholds hacted with
  | rest hthreads hmanagers hfills => exact .rest hthreads hmanagers hfills
  | called htask hwaits hloads hthreads hmanagers hfills => exact .called htask hwaits hloads hthreads hmanagers hfills
  | goes hi hthread hgoes hthreads hmanagers hfills => exact .goes hi hthread hgoes hthreads hmanagers hfills
  | opens hi hthread hmanager hpc hfree hthreads hmanagers hfills =>
    exact .opens hi hthread hmanager hpc hfree hthreads hmanagers hfills
  | publishes hi hthread hpc hthreads hmanagers hfills => exact .publishes hi hthread hpc hthreads hmanagers hfills
  | leaves hi hthread hmanager hpc hthreads hmanagers hfills => exact .leaves hi hthread hmanager hpc hthreads hmanagers hfills

/-
The flights
-/

theorem flightOf_of_task {number : Nat} {landed : Bool} (h : thread.pc.task = some (number, landed))
    : flightOf thread = some ⟨(thread.manager, thread.key.key.digest), number, landed⟩ := by
  unfold flightOf
  rw [h]
  rfl

theorem flightOf_eq_some {flight : Flight (Nat × String)} (h : flightOf thread = some flight)
    : thread.manager = flight.key.1 ∧ thread.key.key.digest = flight.key.2
      ∧ thread.pc.task = some (flight.number, flight.landed) := by
  obtain ⟨task, htask, rfl⟩ := Option.map_eq_some_iff.mp h
  exact ⟨rfl, rfl, htask⟩

theorem flying_set (hthread : caches.threads[i]? = some thread)
    (hthreads : next.threads = caches.threads.set i { thread with pc := pc })
    : next.flights.flying = Function.update caches.flights.flying i (flightOf { thread with pc := pc }) := by
  funext j
  unfold flights
  dsimp only
  rw [hthreads, Function.update_apply]
  split
  . next hsame =>
    rw [hsame, List.getElem?_set_self (List.getElem?_eq_some_iff.mp hthread).1]
    rfl
  . next hne => rw [List.getElem?_set_ne (Ne.symm hne)]

theorem flying_concat {other : Thread sha256 V} (hthreads : next.threads = caches.threads ++ [other])
    : next.flights.flying = Function.update caches.flights.flying caches.threads.length (flightOf other) := by
  funext j
  unfold flights
  dsimp only
  rw [hthreads, Function.update_apply]
  split
  . next hsame =>
    rw [hsame, List.getElem?_concat_length]
    rfl
  . next hne =>
    by_cases hlt : j < caches.threads.length
    . rw [List.getElem?_append_left hlt]
    . have hout : (caches.threads ++ [other]).length ≤ j := by
        rw [List.length_append, List.length_singleton]
        omega
      rw [List.getElem?_eq_none hout, List.getElem?_eq_none (not_lt.mp hlt)]

theorem flying_thread (hthread : caches.threads[i]? = some thread) : caches.flights.flying i = flightOf thread := by
  unfold flights
  dsimp only
  rw [hthread]
  rfl

theorem flying_length : caches.flights.flying caches.threads.length = none := by
  unfold flights
  dsimp only
  rw [List.getElem?_eq_none (Nat.le_refl _)]
  rfl

theorem table_set {other : CacheManager} (hmanager : caches.managers[i]? = some manager)
    (hmanagers : next.managers = caches.managers.set i other) (key : Nat × String)
    : next.flights.table key = if key.1 = i then other.fills.lookup key.2 else caches.flights.table key := by
  unfold flights
  dsimp only
  rw [hmanagers]
  split
  . next hsame =>
    rw [hsame, List.getElem?_set_self (List.getElem?_eq_some_iff.mp hmanager).1]
    rfl
  . next hne => rw [List.getElem?_set_ne (Ne.symm hne)]

theorem table_manager (hmanager : caches.managers[i]? = some manager) (digest : String)
    : caches.flights.table (i, digest) = manager.fills.lookup digest := by
  unfold flights
  dsimp only
  rw [hmanager]
  rfl

theorem flights_step (hsound : caches.flights.Sound) (h : Turn caches label next) : caches.flights.Step next.flights := by
  have hsame : next.flights = caches.flights → caches.flights.Step next.flights := by
    intro h
    rw [h]
    exact .rest
  have htable : next.managers = caches.managers → next.flights.table = caches.flights.table := by
    intro hmanagers
    unfold flights
    dsimp only
    rw [hmanagers]
  cases h with
  | rest hthreads hmanagers hfills =>
    apply hsame
    apply Flights.ext (htable hmanagers) _ hfills
    unfold flights
    dsimp only
    rw [hthreads]
  | @called other htask _ _ hthreads hmanagers hfills =>
    apply hsame
    apply Flights.ext (htable hmanagers) _ hfills
    have hnone : flightOf other = none := by
      unfold flightOf
      rw [htask]
      rfl
    rw [flying_concat hthreads, hnone, ← flying_length, Function.update_eq_self]
  | @goes i thread pc hi hthread hgoes hthreads hmanagers hfills =>
    apply hsame
    apply Flights.ext (htable hmanagers) _ hfills
    have hflight : flightOf { thread with pc := pc } = caches.flights.flying i := by
      rw [flying_thread hthread]
      unfold flightOf
      dsimp only
      rw [hgoes.task]
    rw [flying_set hthread hthreads, hflight, Function.update_eq_self]
  | @opens i thread manager hi hthread hmanager hpc hfree hthreads hmanagers hfills =>
    have hnext : next.flights
        = caches.flights.takeOff caches.threads.length (thread.manager, thread.key.key.digest) := by
      apply Flights.ext
      . funext key
        rw [table_set hmanager hmanagers]
        unfold Flights.takeOff
        dsimp only
        rw [Function.update_apply]
        by_cases hsame : key = (thread.manager, thread.key.key.digest)
        . rw [if_pos hsame, hsame, if_pos rfl, List.lookup_cons, beq_self_eq_true]
          rfl
        . rw [if_neg hsame]
          split
          . next hfirst =>
            have hsecond : key.2 ≠ thread.key.key.digest := fun hsecond => hsame (Prod.ext hfirst hsecond)
            have htable := table_manager hmanager key.2
            rw [← hfirst] at htable
            rw [List.lookup_cons, beq_eq_false_iff_ne.mpr hsecond]
            exact htable.symm
          . rfl
      . have hwaiting : (caches.setPc i thread (.waiting caches.fills.length)).flights.flying = caches.flights.flying := by
          have hnone : @flightOf sha256 V { thread with pc := .waiting caches.fills.length } = caches.flights.flying i := by
            rw [flying_thread hthread]
            unfold flightOf
            rw [hpc]
            rfl
          rw [flying_set hthread rfl, hnone, Function.update_eq_self]
        have hlength : (caches.setPc i thread (.waiting caches.fills.length)).threads.length = caches.threads.length :=
          List.length_set
        rw [@flying_concat _ _ (caches.setPc i thread (.waiting caches.fills.length)) _ _ hthreads, hwaiting, hlength]
        rfl
      . exact hfills
    rw [hnext]
    exact .takeOff ((table_manager hmanager _).trans hfree) flying_length
  | @publishes i fill thread result hi hthread hpc hthreads hmanagers hfills =>
    have hflying : caches.flights.flying i = some ⟨(thread.manager, thread.key.key.digest), fill, false⟩ :=
      (flying_thread hthread).trans (flightOf_of_task (by rw [hpc]; rfl))
    have hnext : next.flights
        = caches.flights.land i ⟨(thread.manager, thread.key.key.digest), fill, false⟩ result := by
      apply Flights.ext
      . exact htable hmanagers
      . rw [flying_set hthread hthreads]
        rfl
      . exact hfills
    rw [hnext]
    exact .land hflying rfl
  | @leaves i fill thread manager hi hthread hmanager hpc hthreads hmanagers hfills =>
    have hflying : caches.flights.flying i = some ⟨(thread.manager, thread.key.key.digest), fill, true⟩ :=
      (flying_thread hthread).trans (flightOf_of_task (by rw [hpc]; rfl))
    have hlisted : manager.fills.lookup thread.key.key.digest = some fill :=
      (table_manager hmanager _).symm.trans (hsound.listed i _ hflying)
    have hnext : next.flights = caches.flights.clear i ⟨(thread.manager, thread.key.key.digest), fill, true⟩ := by
      apply Flights.ext
      . funext key
        rw [table_set hmanager hmanagers, if_pos hlisted, lookup_filter_ne]
        unfold Flights.clear
        dsimp only
        rw [Function.update_apply]
        by_cases hsame : key = (thread.manager, thread.key.key.digest)
        . rw [if_pos hsame, hsame, if_pos rfl, if_pos rfl]
        . rw [if_neg hsame]
          split
          . next hfirst =>
            have hsecond : key.2 ≠ thread.key.key.digest := fun hsecond => hsame (Prod.ext hfirst hsecond)
            have htable := table_manager hmanager key.2
            rw [← hfirst] at htable
            rw [if_neg hsecond]
            exact htable.symm
          . rfl
      . rw [flying_set hthread hthreads]
        rfl
      . exact hfills
    rw [hnext]
    exact .clear hflying rfl

theorem flights_opened (h : Opened caches) : caches.flights.Sound := by
  have htable : ∀ key, caches.flights.table key = none := by
    intro key
    unfold flights
    dsimp only
    cases hmanager : caches.managers[key.1]? with
    | none => rfl
    | some manager =>
      rw [Option.bind_some, h.tables manager (List.mem_of_getElem? hmanager)]
      rfl
  have hflying : ∀ i, caches.flights.flying i = none := by
    intro i
    unfold flights
    dsimp only
    rw [h.threads]
    rfl
  have hresults : caches.flights.results = [] := h.fills
  constructor
  . intro i flight hi
    rw [hflying] at hi
    cases hi
  . intro key number hnumber
    rw [htable] at hnumber
    cases hnumber
  . intro i j flight other hi
    rw [hflying] at hi
    cases hi
  . intro i flight hi
    rw [hflying] at hi
    cases hi
  . intro i flight hi
    rw [hflying] at hi
    cases hi
  . intro number hnumber
    rw [hresults] at hnumber
    cases hnumber

end Caches

end Data

end Pliego
