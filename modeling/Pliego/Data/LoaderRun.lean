import Pliego.Data.Loader

/-!
What holds of the loader calls of a context in every run in which the calls that look under one key agree.
-/

namespace Pliego

open Bytes JsonText

namespace Data

namespace LoadPoint

def seat (point : LoadPoint) : Option Seat :=
  match point with
  | .waiting seat | .starting seat | .loading seat _ | .polling seat | .finishing seat _ => some seat
  | .returned seat _ => seat
  | _ => none

def body (point : LoadPoint) : Option Nat :=
  match point with
  | .starting seat | .loading seat _ | .polling seat => some seat.cell
  | _ => none

def polled (point : LoadPoint) : Option Nat :=
  match point with
  | .loading seat true | .polling seat => some seat.cell
  | _ => none

def held (point : LoadPoint) : Option Nat :=
  match point with
  | .finishing seat _ | .returned (some seat) _ => some seat.cell
  | _ => none

end LoadPoint

namespace LoadCall

def cellKey (sha256 : Sha256) (call : LoadCall) (routeId : String) : Option (Option String) :=
  (call.key sha256 routeId).map fun key => if call.policy.deduplicateInRequest then some key else none

def Shares (sha256 : Sha256) (routeId : String) (call other : LoadCall) : Prop :=
  ∃ key, call.cellKey sha256 routeId = some (some key) ∧ other.cellKey sha256 routeId = some (some key)

def Agrees (call other : LoadCall) : Prop :=
  call.policy = other.policy ∧ call.outputType = other.outputType

def SameInput (call other : LoadCall) : Prop :=
  ∃ json json', call.input = .value json ∧ other.input = .value json' ∧ json.value.json = json'.value.json

-- What the initializer of a call may leave in a cell.
def Fits (call : LoadCall) (result : LoaderResult) : Prop :=
  ∀ output, result = .ok output → output.type = call.outputType
    ∧ ∃ text, output.serialized = .bytes text ∧ text.length ≤ call.policy.maxOutputBytes

end LoadCall

def LoadTask.Stands (states : Nat → CellState) (index : Nat) (task : LoadTask) : Prop :=
  match task.point with
  | .starting seat | .loading seat _ | .polling seat => states seat.cell = .running index
  | .finishing seat result => states seat.cell = .ready result
  | .returned (some seat) returned => ∃ result, states seat.cell = .ready result
      ∧ returned = result.bind fun output => output.downcast task.call.outputType
  | .returned none returned => ∃ error, returned = .error error
  | _ => True

namespace DataLoads

-- The guard of a step: calls that share a key agree, and no output of a deduplicating call panics as it serializes.
def agrees (sha256 : Sha256) (loads : DataLoads) (move : LoadMove) : Prop :=
  match move with
  | .call call => ∀ task ∈ loads.tasks, task.call.Shares sha256 loads.identity.routeId call → task.call.Agrees call
  | .step index ⟨_, _, .ready (.ok .panics)⟩ =>
    ∀ task, loads.tasks[index]? = some task → task.call.policy.deduplicateInRequest = false
  | _ => True

def invocations (loads : DataLoads) : Set (List UInt8) :=
  { preimage | ∃ task ∈ loads.tasks, ∃ json, task.call.input = .value json
      ∧ invocationPreimage task.call.policy (writeCanonicalJson json.value) loads.identity.routeId = preimage }

def Runs (sha256 : Sha256) (loads : DataLoads) (cell : Nat) : Prop :=
  ∃ (index : Nat) (task : LoadTask), loads.tasks[index]? = some task ∧ task.point.body = some cell
    ∧ ∀ reading, (loads.step sha256 (.step index reading)).isSome = true

def Receipted (loads : DataLoads) : Prop :=
  ∀ (index : Nat) (receipt : DataReceipt), (some index, receipt) ∈ loads.receipts →
    ∃ task seat result, loads.tasks[index]? = some task ∧ task.point = .returned seat result
      ∧ (receipt.outcome = .success ↔ ∃ output, result = .ok output)

structure Sound (sha256 : Sha256) (loads : DataLoads) : Prop where
  shared : ∀ (index other : Nat) (task found : LoadTask) (seat seat' : Seat) (result result' : LoaderResult),
    loads.tasks[index]? = some task → loads.tasks[other]? = some found → task.point = .returned (some seat) result →
    found.point = .returned (some seat') result' → seat.cell = seat'.cell →
    task.call.policy = found.call.policy ∧ task.call.SameInput found.call
  limited : ∀ (index : Nat) (task : LoadTask) (seat : Option Seat) (output : ErasedOutput),
    loads.tasks[index]? = some task → task.point = .returned seat (.ok output) →
    ∃ text, output.serialized = .bytes text ∧ text.length ≤ task.call.policy.maxOutputBytes
  once : ∀ key : String, loads.completed.count (some key) ≤ 1
  stranded : ∀ (index : Nat) (task : LoadTask) (seat : Seat), loads.tasks[index]? = some task →
    task.point = .waiting seat →
    (∀ reading, (loads.step sha256 (.step index reading)).isSome = true) ∨ loads.Runs sha256 seat.cell
  receipts : loads.Receipted

variable {sha256 : Sha256} {loads next : DataLoads} {index : Nat} {task : LoadTask} {point : LoadPoint}

structure Seats (sha256 : Sha256) (loads : DataLoads) : Prop where
  agreed : ∀ task ∈ loads.tasks, ∀ found ∈ loads.tasks, task.call.Shares sha256 loads.identity.routeId found.call →
    task.call.Agrees found.call
  seated : ∀ (index : Nat) (task : LoadTask) (seat : Seat), loads.tasks[index]? = some task →
    task.point.seat = some seat →
    ∃ cell, loads.cells[seat.cell]? = some cell ∧ task.call.cellKey sha256 loads.identity.routeId = some cell.key
  alone : ∀ (index other : Nat) (task found : LoadTask) (seat seat' : Seat), loads.tasks[index]? = some task →
    loads.tasks[other]? = some found → task.point.seat = some seat → found.point.seat = some seat' →
    seat.cell = seat'.cell → task.call.cellKey sha256 loads.identity.routeId = some none → index = other

structure States (loads : DataLoads) : Prop where
  stands : ∀ (index : Nat) (task : LoadTask), loads.tasks[index]? = some task → task.Stands loads.states index
  running : ∀ cell index, loads.states cell = .running index →
    ∃ task, loads.tasks[index]? = some task ∧ task.point.body = some cell
  filled : ∀ cell result, loads.states cell = .ready result →
    ∃ (index : Nat) (task : LoadTask), loads.tasks[index]? = some task ∧ task.point.held = some cell
      ∧ task.call.Fits result

def CompletedOnce (loads : DataLoads) (key : String) : Prop :=
  loads.completed.count (some key) = 0 ∨ loads.completed.count (some key) = 1
    ∧ ∃ (place : Nat) (cell : LoaderCell) (result : LoaderResult), loads.cells[place]? = some cell
      ∧ cell.key = some key ∧ cell.late = false ∧ loads.states place = .ready result

structure Keys (loads : DataLoads) : Prop where
  mapped : ∀ key place, loads.loaderCells key = some place →
    ∃ cell, loads.cells[place]? = some cell ∧ cell.key = some key
  kept : loads.context.cancelled = false → ∀ (place : Nat) (cell : LoaderCell) (key : String),
    loads.cells[place]? = some cell → cell.key = some key → loads.loaderCells key = some place
  late : ∀ cell ∈ loads.cells, cell.late = true → loads.context.cancelled = true
  single : ∀ (place other : Nat) (cell found : LoaderCell) (key : String), loads.cells[place]? = some cell →
    loads.cells[other]? = some found → cell.key = some key → found.key = some key → cell.late = false →
    found.late = false → place = other
  polled : ∀ (index : Nat) (task : LoadTask) (place : Nat) (cell : LoaderCell), loads.tasks[index]? = some task →
    task.point.polled = some place → loads.cells[place]? = some cell → cell.late = false
  completed : ∀ key, loads.CompletedOnce key

def draining (point : CallPoint) : Bool :=
  match point with
  | .taking _ | .running _ _ | .clearing => true
  | _ => false

def Cancels (context : CleanupContext) : Prop :=
  ∀ task ∈ context.tasks, task.call = .close → draining task.point = true → context.cancelled = true

structure Inv (sha256 : Sha256) (loads : DataLoads) : Prop where
  seats : loads.Seats sha256
  states : loads.States
  keys : loads.Keys
  closing : Cancels loads.context
  receipts : loads.Receipted

theorem getElem?_goTo (hget : loads.tasks[index]? = some task) (other : Nat)
    : (loads.goTo index task point).tasks[other]?
      = if other = index then some { task with point := point } else loads.tasks[other]? := by
  have hindex := (List.getElem?_eq_some_iff.mp hget).1
  unfold goTo
  rw [List.getElem?_set]
  by_cases hsame : index = other
  . rw [if_pos hsame, if_pos hindex, if_pos hsame.symm]
  . rw [if_neg hsame, if_neg (Ne.symm hsame)]

section Goes

variable (hget : loads.tasks[index]? = some task)
  (htasks : next.tasks = (loads.goTo index task point).tasks)

include hget htasks

theorem at_goTo (other : Nat)
    : next.tasks[other]? = if other = index then some { task with point := point } else loads.tasks[other]? := by
  rw [htasks]
  exact getElem?_goTo hget other

theorem found_before {other : Nat} {found : LoadTask} (hfound : next.tasks[other]? = some found)
    : ∃ before, loads.tasks[other]? = some before ∧ found.call = before.call
      ∧ ((other = index ∧ before = task ∧ found.point = point) ∨ (other ≠ index ∧ found = before)) := by
  rw [at_goTo hget htasks] at hfound
  split at hfound
  . next hsame =>
    cases hfound
    exact ⟨task, hsame ▸ hget, rfl, .inl ⟨hsame, rfl, rfl⟩⟩
  . next hne => exact ⟨found, hfound, rfl, .inr ⟨hne, rfl⟩⟩

theorem Seats.goTo (h : loads.Seats sha256) (hroute : next.identity = loads.identity) (hcells : next.cells = loads.cells)
    (hseat : point.seat = none ∨ point.seat = task.point.seat)
    : next.Seats sha256 := by
  have hkeeps : ∀ (other : Nat) (found : LoadTask) (seat : Seat), next.tasks[other]? = some found →
      found.point.seat = some seat →
      ∃ before, loads.tasks[other]? = some before ∧ found.call = before.call ∧ before.point.seat = some seat := by
    intro other found seat hfound hat
    obtain ⟨before, hbefore, hcall, hwhere⟩ := found_before hget htasks hfound
    refine ⟨before, hbefore, hcall, ?_⟩
    cases hwhere with
    | inl hself =>
      obtain ⟨-, rfl, hpoint⟩ := hself
      rw [hpoint] at hat
      cases hseat with
      | inl hnone =>
        rw [hnone] at hat
        cases hat
      | inr hsame => exact hsame ▸ hat
    | inr hother =>
      rw [← hother.2]
      exact hat
  constructor
  . intro first hfirst second hsecond
    obtain ⟨i, hi⟩ := List.getElem?_of_mem hfirst
    obtain ⟨j, hj⟩ := List.getElem?_of_mem hsecond
    obtain ⟨before, hbefore, hcall, -⟩ := found_before hget htasks hi
    obtain ⟨before', hbefore', hcall', -⟩ := found_before hget htasks hj
    rw [hroute, hcall, hcall']
    exact h.agreed before (List.mem_of_getElem? hbefore) before' (List.mem_of_getElem? hbefore')
  . intro other found seat hfound hat
    obtain ⟨before, hbefore, hcall, hseated⟩ := hkeeps other found seat hfound hat
    rw [hcells, hroute, hcall]
    exact h.seated other before seat hbefore hseated
  . intro first second found found' seat seat' hfound hfound' hat hat' hcell hkey
    obtain ⟨before, hbefore, hcall, hseated⟩ := hkeeps first found seat hfound hat
    obtain ⟨before', hbefore', hcall', hseated'⟩ := hkeeps second found' seat' hfound' hat'
    rw [hroute, hcall] at hkey
    exact h.alone first second before before' seat seat' hbefore hbefore' hseated hseated' hcell hkey

theorem States.goTo (h : loads.States) (hstates : next.states = loads.states)
    (hbody : task.point.body = none ∨ point.body = task.point.body)
    (hheld : task.point.held = none ∨ point.held = task.point.held)
    (hstands : ({ task with point := point } : LoadTask).Stands loads.states index)
    : next.States := by
  constructor
  . intro other found hfound
    rw [hstates]
    rw [at_goTo hget htasks] at hfound
    split at hfound
    . next hsame =>
      cases hfound
      rw [hsame]
      exact hstands
    . exact h.stands other found hfound
  . intro cell other hrunning
    rw [hstates] at hrunning
    obtain ⟨found, hfound, hruns⟩ := h.running cell other hrunning
    rw [at_goTo hget htasks]
    split
    . next hsame =>
      rw [hsame, hget] at hfound
      cases hfound
      refine ⟨_, rfl, ?_⟩
      cases hbody with
      | inl hnone =>
        rw [hnone] at hruns
        cases hruns
      | inr hkeeps => exact hkeeps.trans hruns
    . exact ⟨found, hfound, hruns⟩
  . intro cell result hready
    rw [hstates] at hready
    obtain ⟨other, found, hfound, hholds, hfits⟩ := h.filled cell result hready
    by_cases hsame : other = index
    . rw [hsame, hget] at hfound
      cases hfound
      refine ⟨index, { task with point := point }, ?_, ?_, hfits⟩
      . rw [at_goTo hget htasks, if_pos rfl]
      . cases hheld with
        | inl hnone =>
          rw [hnone] at hholds
          cases hholds
        | inr hkeeps => exact hkeeps.trans hholds
    . refine ⟨other, found, ?_, hholds, hfits⟩
      rw [at_goTo hget htasks, if_neg hsame]
      exact hfound

theorem States.set {cell : Nat} {state : CellState} (h : loads.States)
    (hstates : next.states = Function.update loads.states cell state)
    (hbefore : loads.states cell = .empty ∨ loads.states cell = .running index)
    (hbody : task.point.body = none ∨ task.point.body = some cell) (hheld : task.point.held = none)
    (hruns : ∀ other, state = .running other → other = index ∧ point.body = some cell)
    (hfills : ∀ result, state = .ready result → point.held = some cell ∧ task.call.Fits result)
    (hstands : ({ task with point := point } : LoadTask).Stands next.states index)
    : next.States := by
  have hother : ∀ place, place ≠ cell → next.states place = loads.states place := by
    intro place hne
    rw [hstates, Function.update_of_ne hne]
  constructor
  . intro other found hfound
    rw [at_goTo hget htasks] at hfound
    split at hfound
    . next hsame =>
      cases hfound
      rw [hsame]
      exact hstands
    . next hne =>
      have hold := h.stands other found hfound
      have hapart : ∀ place, loads.states place = .running other ∨ (∃ result, loads.states place = .ready result) →
          place ≠ cell := by
        rintro place hplace rfl
        cases hbefore with
        | inl hempty =>
          rw [hempty] at hplace
          cases hplace with
          | inl hruns => cases hruns
          | inr hready =>
            obtain ⟨_, hready⟩ := hready
            cases hready
        | inr hown =>
          rw [hown] at hplace
          cases hplace with
          | inl hruns =>
            cases hruns
            exact hne rfl
          | inr hready =>
            obtain ⟨_, hready⟩ := hready
            cases hready
      unfold LoadTask.Stands at hold ⊢
      split at hold
      . rw [hother _ (hapart _ (.inl hold))]
        exact hold
      . rw [hother _ (hapart _ (.inl hold))]
        exact hold
      . rw [hother _ (hapart _ (.inl hold))]
        exact hold
      . rw [hother _ (hapart _ (.inr ⟨_, hold⟩))]
        exact hold
      . obtain ⟨result, hready, hreturned⟩ := hold
        rw [hother _ (hapart _ (.inr ⟨_, hready⟩))]
        exact ⟨result, hready, hreturned⟩
      . exact hold
      . trivial
  . intro place other hrunning
    by_cases hplace : place = cell
    . rw [hplace, hstates, Function.update_self] at hrunning
      obtain ⟨hsame, hpoint⟩ := hruns other hrunning
      refine ⟨{ task with point := point }, ?_, ?_⟩
      . rw [at_goTo hget htasks, if_pos hsame]
      . rw [hplace]
        exact hpoint
    . rw [hother place hplace] at hrunning
      obtain ⟨found, hfound, hat⟩ := h.running place other hrunning
      refine ⟨found, ?_, hat⟩
      rw [at_goTo hget htasks, if_neg]
      . exact hfound
      . rintro rfl
        rw [hget] at hfound
        cases hfound
        cases hbody with
        | inl hnone =>
          rw [hnone] at hat
          cases hat
        | inr hsome =>
          rw [hsome] at hat
          cases hat
          exact hplace rfl
  . intro place result hready
    by_cases hplace : place = cell
    . rw [hplace, hstates, Function.update_self] at hready
      obtain ⟨hpoint, hfits⟩ := hfills result hready
      refine ⟨index, { task with point := point }, ?_, ?_, hfits⟩
      . rw [at_goTo hget htasks, if_pos rfl]
      . rw [hplace]
        exact hpoint
    . rw [hother place hplace] at hready
      obtain ⟨other, found, hfound, hholds, hfits⟩ := h.filled place result hready
      refine ⟨other, found, ?_, hholds, hfits⟩
      rw [at_goTo hget htasks, if_neg]
      . exact hfound
      . rintro rfl
        rw [hget] at hfound
        cases hfound
        rw [hheld] at hholds
        cases hholds

theorem Keys.goTo (h : loads.Keys) (hcells : next.cells = loads.cells) (hmap : next.loaderCells = loads.loaderCells)
    (hcontext : next.context = loads.context) (hcompleted : ∀ key, next.CompletedOnce key)
    (hpolled : ∀ place, point.polled = some place → task.point.polled = some place
      ∨ ∀ cell, loads.cells[place]? = some cell → cell.late = false)
    : next.Keys := by
  constructor
  . rw [hmap, hcells]
    exact h.mapped
  . rw [hcontext, hcells, hmap]
    exact h.kept
  . rw [hcells, hcontext]
    exact h.late
  . rw [hcells]
    exact h.single
  . intro other found place cell hfound hat hcell
    rw [hcells] at hcell
    rw [at_goTo hget htasks] at hfound
    split at hfound
    . cases hfound
      cases hpolled place hat with
      | inl hbefore => exact h.polled index task place cell hget hbefore hcell
      | inr hearly => exact hearly cell hcell
    . exact h.polled other found place cell hfound hat hcell
  . exact hcompleted

theorem Receipted.goTo (h : loads.Receipted) (hreceipts : ∀ entry ∈ next.receipts, entry ∈ loads.receipts)
    (hrunning : ∀ seat result, task.point ≠ .returned seat result)
    : next.Receipted := by
  intro other receipt hreceipt
  obtain ⟨found, seat, result, hfound, hat, htold⟩ := h other receipt (hreceipts _ hreceipt)
  refine ⟨found, seat, result, ?_, hat, htold⟩
  rw [at_goTo hget htasks, if_neg]
  . exact hfound
  . rintro rfl
    rw [hget] at hfound
    cases hfound
    exact hrunning seat result hat

end Goes

theorem CompletedOnce.congr {key : String} (h : loads.CompletedOnce key) (hcells : next.cells = loads.cells)
    (hcompleted : next.completed.count (some key) = loads.completed.count (some key))
    (hready : ∀ place result, loads.states place = .ready result → next.states place = .ready result)
    : next.CompletedOnce key := by
  unfold CompletedOnce
  rw [hcompleted, hcells]
  cases h with
  | inl hnone => exact .inl hnone
  | inr hone =>
    obtain ⟨hcount, place, cell, result, hcell, hkey, hearly, hstate⟩ := hone
    exact .inr ⟨hcount, place, cell, result, hcell, hkey, hearly, hready place result hstate⟩

theorem CompletedOnce.complete {place runner : Nat} {cell : LoaderCell} (hkeys : loads.Keys)
    (hcell : loads.cells[place]? = some cell) (hearly : cell.late = false)
    (hstate : loads.states place = .running runner) (hcells : next.cells = loads.cells)
    (hcompleted : next.completed = loads.completed ++ [cell.key])
    (hready : ∀ place result, loads.states place = .ready result → next.states place = .ready result)
    (hfilled : cell.key = none ∨ ∃ result, next.states place = .ready result) (key : String)
    : next.CompletedOnce key := by
  have hcount : next.completed.count (some key) = loads.completed.count (some key) + [cell.key].count (some key) := by
    rw [hcompleted, List.count_append]
  by_cases hsame : cell.key = some key
  . rw [hsame, List.count_singleton_self] at hcount
    cases hkeys.completed key with
    | inl hnone =>
      rw [hnone] at hcount
      cases hfilled with
      | inl hplain =>
        rw [hplain] at hsame
        cases hsame
      | inr hresult =>
        obtain ⟨result, hresult⟩ := hresult
        refine .inr ⟨hcount, place, cell, result, ?_, hsame, hearly, hresult⟩
        rw [hcells]
        exact hcell
    | inr hone =>
      -- the cell that was filled would be this one, whose initializer still runs
      obtain ⟨_, other, found, result, hfound, hkey, hbefore, hfull⟩ := hone
      rw [hkeys.single other place found cell key hfound hcell hkey hsame hbefore hearly, hstate] at hfull
      cases hfull
  . have hother : [cell.key].count (some key) = 0 := by
      rw [List.count_eq_zero, List.mem_singleton]
      exact fun h => hsame h.symm
    rw [hother, Nat.add_zero] at hcount
    exact (hkeys.completed key).congr hcells hcount hready

theorem seat_of_held {cell : Nat} (h : point.held = some cell) : ∃ seat, point.seat = some seat ∧ seat.cell = cell := by
  cases point with
  | finishing seat result =>
    cases h
    exact ⟨seat, rfl, rfl⟩
  | returned seat result =>
    cases seat with
    | none => cases h
    | some seat =>
      cases h
      exact ⟨seat, rfl, rfl⟩
  | _ => cases h

theorem seat_of_body {cell : Nat} (h : point.body = some cell) : ∃ seat, point.seat = some seat ∧ seat.cell = cell := by
  cases point with
  | starting seat =>
    cases h
    exact ⟨seat, rfl, rfl⟩
  | loading seat registered =>
    cases h
    exact ⟨seat, rfl, rfl⟩
  | polling seat =>
    cases h
    exact ⟨seat, rfl, rfl⟩
  | _ => cases h

theorem Seats.shares {other : Nat} {found : LoadTask} {seat seat' : Seat} (h : loads.Seats sha256)
    (hget : loads.tasks[index]? = some task) (hfound : loads.tasks[other]? = some found)
    (hat : task.point.seat = some seat) (hat' : found.point.seat = some seat') (hcell : seat.cell = seat'.cell)
    : index = other ∨ task.call.Shares sha256 loads.identity.routeId found.call := by
  obtain ⟨cell, hplace, hkey⟩ := h.seated index task seat hget hat
  obtain ⟨cell', hplace', hkey'⟩ := h.seated other found seat' hfound hat'
  rw [← hcell, hplace] at hplace'
  cases hplace'
  cases hmade : cell.key with
  | none =>
    rw [hmade] at hkey
    exact .inl (h.alone index other task found seat seat' hget hfound hat hat' hcell hkey)
  | some key =>
    rw [hmade] at hkey hkey'
    exact .inr ⟨key, hkey, hkey'⟩

theorem Inv.agrees {other : Nat} {found : LoadTask} {seat seat' : Seat} (h : loads.Inv sha256)
    (hget : loads.tasks[index]? = some task) (hfound : loads.tasks[other]? = some found)
    (hat : task.point.seat = some seat) (hat' : found.point.seat = some seat') (hcell : seat.cell = seat'.cell)
    : task.call.Agrees found.call := by
  cases h.seats.shares hget hfound hat hat' hcell with
  | inl hsame =>
    rw [hsame, hfound] at hget
    cases hget
    exact ⟨rfl, rfl⟩
  | inr hshares =>
    exact h.seats.agreed task (List.mem_of_getElem? hget) found (List.mem_of_getElem? hfound) hshares

theorem Inv.fits {seat : Seat} {result : LoaderResult} (h : loads.Inv sha256) (hget : loads.tasks[index]? = some task)
    (hat : task.point.seat = some seat) (hready : loads.states seat.cell = .ready result)
    : task.call.Fits result := by
  obtain ⟨other, found, hfound, hheld, hfits⟩ := h.states.filled seat.cell result hready
  obtain ⟨seat', hat', hcell⟩ := seat_of_held hheld
  obtain ⟨hpolicy, htype⟩ := h.agrees hget hfound hat hat' hcell.symm
  unfold LoadCall.Fits
  rw [hpolicy, htype]
  exact hfits

theorem downcast_of_fits {call : LoadCall} {result : LoaderResult} (h : call.Fits result)
    : (result.bind fun output => output.downcast call.outputType) = result := by
  cases result with
  | error _ => rfl
  | ok output => exact if_pos (h output rfl).1

theorem receiptOf_success {call : LoadCall} {deduplicated : Bool} {result : LoaderResult} (h : call.Fits result)
    : (loads.receiptOf call deduplicated result).outcome = .success ↔ ∃ output, result = .ok output := by
  unfold receiptOf outcomeOf
  cases result with
  | error error => cases error <;> exact iff_of_false nofun nofun
  | ok output =>
    have hsame : output.downcast call.outputType = .ok output := if_pos (h output rfl).1
    dsimp only
    rw [hsame]
    exact iff_of_true rfl ⟨output, rfl⟩

theorem Inv.record {entry : Option Nat × DataReceipt} (h : loads.Inv sha256)
    (htold : ∀ index, entry.1 = some index → ∃ task seat result, loads.tasks[index]? = some task
      ∧ task.point = .returned seat result ∧ (entry.2.outcome = .success ↔ ∃ output, result = .ok output))
    : ({ loads with receipts := loads.receipts ++ [entry] } : DataLoads).Inv sha256 where
  seats := ⟨h.seats.agreed, h.seats.seated, h.seats.alone⟩
  states := ⟨h.states.stands, h.states.running, h.states.filled⟩
  keys := ⟨h.keys.mapped, h.keys.kept, h.keys.late, h.keys.single, h.keys.polled, h.keys.completed⟩
  closing := h.closing
  receipts := by
    intro index receipt hreceipt
    cases List.mem_append.mp hreceipt with
    | inl hold => exact h.receipts index receipt hold
    | inr hnew =>
      rw [List.mem_singleton] at hnew
      exact (hnew ▸ htold) index rfl

section Steps

variable (hinv : loads.Inv sha256) (hget : loads.tasks[index]? = some task)

include hinv hget

theorem Inv.goTo (hrunning : ∀ seat result, task.point ≠ .returned seat result)
    (hseat : point.seat = none ∨ point.seat = task.point.seat)
    (hbody : task.point.body = none ∨ point.body = task.point.body)
    (hheld : task.point.held = none ∨ point.held = task.point.held)
    (hstands : ({ task with point := point } : LoadTask).Stands loads.states index)
    (hpolled : ∀ place, point.polled = some place → task.point.polled = some place
      ∨ ∀ cell, loads.cells[place]? = some cell → cell.late = false)
    : (loads.goTo index task point).Inv sha256 where
  seats := hinv.seats.goTo hget rfl rfl rfl hseat
  states := hinv.states.goTo hget rfl rfl hbody hheld hstands
  keys := hinv.keys.goTo hget rfl rfl rfl rfl hinv.keys.completed hpolled
  closing := hinv.closing
  receipts := hinv.receipts.goTo hget rfl (fun _ h => h) hrunning

variable {cell : Nat} {seat : Seat}

theorem Inv.set {state : CellState} (htasks : next.tasks = (loads.goTo index task point).tasks)
    (hidentity : next.identity = loads.identity) (hcontext : next.context = loads.context)
    (hcells : next.cells = loads.cells) (hmap : next.loaderCells = loads.loaderCells)
    (hreceipts : next.receipts = loads.receipts) (hstates : next.states = Function.update loads.states cell state)
    (hrunning : ∀ seat result, task.point ≠ .returned seat result)
    (hseat : point.seat = none ∨ point.seat = task.point.seat)
    (hbefore : loads.states cell = .empty ∨ loads.states cell = .running index)
    (hbody : task.point.body = none ∨ task.point.body = some cell) (hheld : task.point.held = none)
    (hruns : ∀ other, state = .running other → other = index ∧ point.body = some cell)
    (hfills : ∀ result, state = .ready result → point.held = some cell ∧ task.call.Fits result)
    (hstands : ({ task with point := point } : LoadTask).Stands next.states index)
    (hpolled : point.polled = none) (hcompleted : ∀ key, next.CompletedOnce key)
    : next.Inv sha256 where
  seats := hinv.seats.goTo hget htasks hidentity hcells hseat
  states := hinv.states.set hget htasks hstates hbefore hbody hheld hruns hfills hstands
  keys := by
    apply hinv.keys.goTo hget htasks hcells hmap hcontext hcompleted
    intro place hplace
    rw [hpolled] at hplace
    cases hplace
  closing := by
    rw [hcontext]
    exact hinv.closing
  receipts := by
    apply hinv.receipts.goTo hget htasks _ hrunning
    intro entry hentry
    rw [hreceipts] at hentry
    exact hentry

omit hinv hget in
theorem ready_kept {state : CellState} (hstates : next.states = Function.update loads.states cell state)
    (hbefore : loads.states cell = .empty ∨ loads.states cell = .running index) (place : Nat) (result : LoaderResult)
    (hready : loads.states place = .ready result)
    : next.states place = .ready result := by
  rw [hstates, Function.update_of_ne]
  . exact hready
  . rintro rfl
    rw [hready] at hbefore
    cases hbefore with
    | inl hempty => cases hempty
    | inr hruns => cases hruns

theorem Inv.refuse (hrunning : ∀ seat result, task.point ≠ .returned seat result) (hbody : task.point.body = none)
    (hheld : task.point.held = none) (error : DataError)
    : (loads.refuse index task error).Inv sha256 :=
  hinv.goTo hget hrunning (.inl rfl) (.inl hbody) (.inl hheld) ⟨error, rfl⟩ nofun

omit hinv hget in
theorem not_returned_of_body (hbody : task.point.body = some cell)
    : (∀ seat result, task.point ≠ .returned seat result) ∧ task.point.held = none := by
  constructor
  . intro seat result hpoint
    rw [hpoint] at hbody
    cases hbody
  . cases hpoint : task.point <;> rw [hpoint] at hbody <;> first | rfl | cases hbody

theorem Inv.state_of_body (hbody : task.point.body = some cell)
    : loads.states cell = .running index := by
  have hstands := hinv.states.stands index task hget
  unfold LoadTask.Stands at hstands
  cases hpoint : task.point <;> rw [hpoint] at hbody hstands <;> first | (cases hbody; exact hstands) | cases hbody

theorem Inv.fill {result : LoaderResult} (completed : List (Option String))
    (hbody : task.point.body = some seat.cell) (hseat : task.point.seat = some seat) (hfits : task.call.Fits result)
    (hcompleted : ∀ key, ({ loads.fill index task seat result with completed := completed } : DataLoads).CompletedOnce key)
    : ({ loads.fill index task seat result with completed := completed } : DataLoads).Inv sha256 := by
  have hstate := hinv.state_of_body hget hbody
  obtain ⟨hrunning, hheld⟩ := not_returned_of_body hbody
  refine hinv.set hget rfl rfl rfl rfl rfl rfl rfl hrunning (.inr hseat.symm) (.inr hstate) (.inr hbody) hheld nofun ?_ ?_
    rfl hcompleted
  . intro filled hfilled
    cases hfilled
    exact ⟨rfl, hfits⟩
  . exact Function.update_self _ _ _

theorem Inv.abandon (completed : List (Option String)) (hbody : task.point.body = some seat.cell)
    (hpoint : point = .panicked ∨ point = .dropped)
    (hcompleted : ∀ key, ({ loads.abandon index task seat point with completed := completed } : DataLoads).CompletedOnce key)
    : ({ loads.abandon index task seat point with completed := completed } : DataLoads).Inv sha256 := by
  have hstate := hinv.state_of_body hget hbody
  obtain ⟨hrunning, hheld⟩ := not_returned_of_body hbody
  have hnone : point.seat = none ∧ point.polled = none := by
    cases hpoint with
    | inl hpanicked =>
      rw [hpanicked]
      exact ⟨rfl, rfl⟩
    | inr hdropped =>
      rw [hdropped]
      exact ⟨rfl, rfl⟩
  refine hinv.set hget rfl rfl rfl rfl rfl rfl rfl hrunning (.inl hnone.1) (.inr hstate) (.inr hbody) hheld nofun nofun ?_
    hnone.2 hcompleted
  cases hpoint with
  | inl hpanicked =>
    rw [hpanicked]
    trivial
  | inr hdropped =>
    rw [hdropped]
    trivial

theorem Inv.fill_same {result : LoaderResult} (hbody : task.point.body = some seat.cell)
    (hseat : task.point.seat = some seat) (hfits : task.call.Fits result)
    : (loads.fill index task seat result).Inv sha256 := by
  refine hinv.fill hget loads.completed hbody hseat hfits fun key => ?_
  refine (hinv.keys.completed key).congr rfl rfl ?_
  exact ready_kept rfl (.inr (hinv.state_of_body hget hbody))

theorem Inv.abandon_same (hbody : task.point.body = some seat.cell)
    (hpoint : point = .panicked ∨ point = .dropped)
    : (loads.abandon index task seat point).Inv sha256 := by
  refine hinv.abandon hget loads.completed hbody hpoint fun key => ?_
  refine (hinv.keys.completed key).congr rfl rfl ?_
  exact ready_kept rfl (.inr (hinv.state_of_body hget hbody))

omit hinv hget in
theorem settle_cases (seat : Seat) (result : Except DataError Serialized)
    : (result = .ok .panics ∧ loads.settle index task seat result = loads.abandon index task seat .panicked)
      ∨ ∃ filled, task.call.Fits filled ∧ loads.settle index task seat result = loads.fill index task seat filled := by
  unfold DataLoads.settle
  split
  . next error => exact .inr ⟨.error error, nofun, rfl⟩
  . exact .inl ⟨rfl, rfl⟩
  . exact .inr ⟨.error .serialization, nofun, rfl⟩
  . next text =>
    split
    . exact .inr ⟨.error _, nofun, rfl⟩
    . next hfit =>
      refine .inr ⟨_, ?_, rfl⟩
      intro output houtput
      cases houtput
      exact ⟨rfl, text, rfl, Nat.le_of_not_lt hfit⟩

theorem Inv.settle {result : Except DataError Serialized} (hpoint : task.point = .polling seat)
    (hguard : result = .ok .panics → task.call.policy.deduplicateInRequest = false)
    : ((loads.complete seat.cell).settle index task seat result).Inv sha256 := by
  have hbody : task.point.body = some seat.cell := by rw [hpoint]; rfl
  have hseat : task.point.seat = some seat := by rw [hpoint]; rfl
  have hpolled : task.point.polled = some seat.cell := by rw [hpoint]; rfl
  have hstate := hinv.state_of_body hget hbody
  obtain ⟨cell, hcell, hkey⟩ := hinv.seats.seated index task seat hget hseat
  have hearly := hinv.keys.polled index task seat.cell cell hget hpolled hcell
  have hcompleted : (loads.complete seat.cell).completed = loads.completed ++ [cell.key] := by
    unfold complete
    rw [hcell, Option.bind_some]
  cases @settle_cases (loads.complete seat.cell) index task seat result with
  | inl hpanics =>
    rw [hpanics.2]
    apply hinv.abandon hget (loads.complete seat.cell).completed hbody (.inl rfl)
    refine CompletedOnce.complete hinv.keys hcell hearly hstate rfl hcompleted (ready_kept rfl (.inr hstate)) (.inl ?_)
    have hplain := hguard hpanics.1
    unfold LoadCall.cellKey at hkey
    rw [hplain, Option.map_eq_some_iff] at hkey
    obtain ⟨_, _, hnone⟩ := hkey
    exact hnone.symm
  | inr hfills =>
    obtain ⟨filled, hfits, hsettle⟩ := hfills
    rw [hsettle]
    apply hinv.fill hget (loads.complete seat.cell).completed hbody hseat hfits
    refine CompletedOnce.complete hinv.keys hcell hearly hstate rfl hcompleted (ready_kept rfl (.inr hstate))
      (.inr ⟨filled, ?_⟩)
    exact Function.update_self _ _ _

theorem Inv.finish {result : LoaderResult} (hpoint : task.point = .finishing seat result)
    : (loads.finish index task seat result).Inv sha256 := by
  have hseat : task.point.seat = some seat := by rw [hpoint]; rfl
  have hready : loads.states seat.cell = .ready result := by
    have hstands := hinv.states.stands index task hget
    unfold LoadTask.Stands at hstands
    rw [hpoint] at hstands
    exact hstands
  have hfits := hinv.fits hget hseat hready
  have hmoved : (loads.goTo index task (.returned (some seat)
      (result.bind fun output => output.downcast task.call.outputType))).Inv sha256 := by
    apply hinv.goTo hget
    . intro seat' result' hreturned
      rw [hpoint] at hreturned
      cases hreturned
    . exact .inr hseat.symm
    . left
      rw [hpoint]
      rfl
    . right
      rw [hpoint]
      rfl
    . exact ⟨result, hready, rfl⟩
    . exact nofun
  have htold : ∀ receipt : DataReceipt, receipt = loads.receiptOf task.call seat.deduplicated result →
      (receipt.outcome = .success ↔ ∃ output, (result.bind fun output => output.downcast task.call.outputType) = .ok output) := by
    rintro receipt rfl
    rw [downcast_of_fits hfits]
    exact receiptOf_success hfits
  unfold DataLoads.finish recordReceipt
  dsimp only
  split
  . apply hmoved.record
    intro other hother
    cases hother
    refine ⟨{ task with point := _ }, some seat, _, ?_, rfl, htold _ rfl⟩
    rw [getElem?_goTo hget, if_pos rfl]
  . exact hmoved

theorem Seats.sit {cell : LoaderCell} (htasks : next.tasks = (loads.goTo index task (.waiting seat)).tasks)
    (hidentity : next.identity = loads.identity)
    (hkept : ∀ (place : Nat) (cell : LoaderCell), loads.cells[place]? = some cell → next.cells[place]? = some cell)
    (hcell : next.cells[seat.cell]? = some cell)
    (hkey : task.call.cellKey sha256 loads.identity.routeId = some cell.key)
    (hfree : cell.key = none → ∀ (other : Nat) (found : LoadTask) (seat' : Seat), loads.tasks[other]? = some found →
      found.point.seat = some seat' → seat'.cell ≠ seat.cell)
    : next.Seats sha256 := by
  have hbefore : ∀ (other : Nat) (found : LoadTask) (seat' : Seat), next.tasks[other]? = some found →
      found.point.seat = some seat' → (other = index ∧ found.call = task.call ∧ seat' = seat)
        ∨ loads.tasks[other]? = some found := by
    intro other found seat' hfound hat
    rw [at_goTo hget htasks] at hfound
    split at hfound
    . next hsame =>
      cases hfound
      cases hat
      exact .inl ⟨hsame, rfl, rfl⟩
    . exact .inr hfound
  constructor
  . intro first hfirst second hsecond
    obtain ⟨i, hi⟩ := List.getElem?_of_mem hfirst
    obtain ⟨j, hj⟩ := List.getElem?_of_mem hsecond
    obtain ⟨before, hi, hcall, -⟩ := found_before hget htasks hi
    obtain ⟨before', hj, hcall', -⟩ := found_before hget htasks hj
    rw [hidentity, hcall, hcall']
    exact hinv.seats.agreed before (List.mem_of_getElem? hi) before' (List.mem_of_getElem? hj)
  . intro other found seat' hfound hat
    rw [hidentity]
    cases hbefore other found seat' hfound hat with
    | inl hself =>
      obtain ⟨_, hcall, hsame⟩ := hself
      rw [hsame, hcall]
      exact ⟨cell, hcell, hkey⟩
    | inr hold =>
      obtain ⟨cell', hplace, hmade⟩ := hinv.seats.seated other found seat' hold hat
      exact ⟨cell', hkept _ _ hplace, hmade⟩
  . intro first second found found' seat' seat'' hfound hfound' hat hat' hsame hplain
    rw [hidentity] at hplain
    cases hbefore first found seat' hfound hat with
    | inl hself =>
      obtain ⟨hfirst, hcall, hseat⟩ := hself
      rw [hcall, hkey] at hplain
      cases hbefore second found' seat'' hfound' hat' with
      | inl hself' => exact hfirst.trans hself'.1.symm
      | inr hold =>
        rw [hseat] at hsame
        exact absurd hsame.symm (hfree (Option.some.inj hplain) second found' seat'' hold hat')
    | inr hold =>
      cases hbefore second found' seat'' hfound' hat' with
      | inl hself =>
        obtain ⟨_, _, hseat⟩ := hself
        obtain ⟨cell', hplace, hmade⟩ := hinv.seats.seated first found seat' hold hat
        have hthere := hkept _ _ hplace
        rw [hsame, hseat, hcell] at hthere
        cases hthere
        rw [hplain] at hmade
        rw [hseat] at hsame
        exact absurd hsame (hfree (Option.some.inj hmade).symm first found seat' hold hat)
      | inr hold' =>
        exact hinv.seats.alone first second found found' seat' seat'' hold hold' hat hat' hsame hplain

omit hget in
theorem Inv.vacant
    : loads.states loads.cells.length = .empty ∧ ∀ (other : Nat) (found : LoadTask) (seat : Seat),
      loads.tasks[other]? = some found → found.point.seat = some seat → seat.cell ≠ loads.cells.length := by
  have hnone : ∀ (other : Nat) (found : LoadTask) (seat : Seat), loads.tasks[other]? = some found →
      found.point.seat = some seat → seat.cell ≠ loads.cells.length := by
    intro other found seat hfound hat hlast
    obtain ⟨cell, hcell, -⟩ := hinv.seats.seated other found seat hfound hat
    rw [hlast, List.getElem?_eq_none (Nat.le_refl _)] at hcell
    cases hcell
  refine ⟨?_, hnone⟩
  cases hstate : loads.states loads.cells.length with
  | empty => rfl
  | running other =>
    obtain ⟨found, hfound, hbody⟩ := hinv.states.running _ _ hstate
    obtain ⟨seat, hat, hcell⟩ := seat_of_body hbody
    exact absurd hcell (hnone other found seat hfound hat)
  | ready result =>
    obtain ⟨other, found, hfound, hheld, -⟩ := hinv.states.filled _ _ hstate
    obtain ⟨seat, hat, hcell⟩ := seat_of_held hheld
    exact absurd hcell (hnone other found seat hfound hat)

theorem Inv.make {key : Option String} (hpoint : task.point = .locating)
    (htasks : next.tasks = (loads.goTo index task (.waiting ⟨loads.cells.length, false⟩)).tasks)
    (hidentity : next.identity = loads.identity) (hcontext : next.context = loads.context)
    (hcells : next.cells = loads.cells ++ [⟨key, loads.context.cancelled⟩])
    (hstates : next.states = Function.update loads.states loads.cells.length .empty)
    (hmap : ∀ name, next.loaderCells name = if key = some name then some loads.cells.length else loads.loaderCells name)
    (hnew : ∀ name, key = some name → loads.loaderCells name = none)
    (hreceipts : next.receipts = loads.receipts) (hcompleted : next.completed = loads.completed)
    (hkey : task.call.cellKey sha256 loads.identity.routeId = some key)
    : next.Inv sha256 := by
  obtain ⟨hempty, hvacant⟩ := hinv.vacant
  have hkept : ∀ (place : Nat) (cell : LoaderCell), loads.cells[place]? = some cell → next.cells[place]? = some cell := by
    intro place cell hcell
    rw [hcells, List.getElem?_append_left (List.getElem?_eq_some_iff.mp hcell).1]
    exact hcell
  have hlast : next.cells[loads.cells.length]? = some ⟨key, loads.context.cancelled⟩ := by
    rw [hcells, List.getElem?_concat_length]
  have hplaces : ∀ (place : Nat) (cell : LoaderCell), next.cells[place]? = some cell →
      loads.cells[place]? = some cell ∨ (place = loads.cells.length ∧ cell = ⟨key, loads.context.cancelled⟩) := by
    intro place cell hcell
    rw [hcells, List.getElem?_append] at hcell
    split at hcell
    . exact .inl hcell
    . next hbeyond =>
      rw [List.getElem?_singleton] at hcell
      split at hcell
      . cases hcell
        exact .inr ⟨by omega, rfl⟩
      . cases hcell
  constructor
  . refine Seats.sit hinv hget htasks hidentity hkept hlast hkey ?_
    intro _ other found seat hfound hat
    exact hvacant other found seat hfound hat
  . refine hinv.states.set hget htasks hstates (.inl hempty) (.inl ?_) ?_ nofun nofun ?_
    . rw [hpoint]
      rfl
    . rw [hpoint]
      rfl
    . trivial
  . constructor
    . intro name place hplace
      rw [hmap] at hplace
      split at hplace
      . next hname =>
        cases hplace
        exact ⟨_, hlast, hname⟩
      . obtain ⟨cell, hcell, hname⟩ := hinv.keys.mapped name place hplace
        exact ⟨cell, hkept _ _ hcell, hname⟩
    . intro hrunning place cell name hcell hname
      rw [hcontext] at hrunning
      rw [hmap]
      cases hplaces place cell hcell with
      | inl hold =>
        have hfound := hinv.keys.kept hrunning place cell name hold hname
        rw [if_neg]
        . exact hfound
        . intro hsame
          rw [hnew name hsame] at hfound
          cases hfound
      | inr hmade =>
        obtain ⟨hplace, hcell⟩ := hmade
        rw [hcell] at hname
        rw [if_pos hname, hplace]
    . intro cell hcell hlate
      rw [hcontext]
      rw [hcells] at hcell
      cases List.mem_append.mp hcell with
      | inl hold => exact hinv.keys.late cell hold hlate
      | inr hmade =>
        rw [List.mem_singleton] at hmade
        rw [hmade] at hlate
        exact hlate
    . have hnever : ∀ (place : Nat) (cell : LoaderCell) (name : String), loads.cells[place]? = some cell →
          cell.key = some name → key = some name → loads.context.cancelled ≠ false := by
        intro place cell name hcell hname hsame hrunning
        have hfound := hinv.keys.kept hrunning place cell name hcell hname
        rw [hnew name hsame] at hfound
        cases hfound
      intro place other cell found name hcell hfound hname hname' hearly hearly'
      cases hplaces place cell hcell with
      | inl hold =>
        cases hplaces other found hfound with
        | inl hold' => exact hinv.keys.single place other cell found name hold hold' hname hname' hearly hearly'
        | inr hmade =>
          rw [hmade.2] at hname' hearly'
          exact absurd hearly' (hnever place cell name hold hname hname')
      | inr hmade =>
        cases hplaces other found hfound with
        | inl hold =>
          rw [hmade.2] at hname hearly
          exact absurd hearly (hnever other found name hold hname' hname)
        | inr hmade' => exact hmade.1.trans hmade'.1.symm
    . intro other found place cell hfound hat hcell
      rw [at_goTo hget htasks] at hfound
      split at hfound
      . cases hfound
        cases hat
      . have hbody : found.point.body = some place := by
          cases hthere : found.point with
          | loading seat registered =>
            rw [hthere] at hat
            cases registered with
            | false => cases hat
            | true => exact hat
          | polling seat =>
            rw [hthere] at hat
            exact hat
          | _ =>
            rw [hthere] at hat
            cases hat
        obtain ⟨seat, hseat, hplace⟩ := seat_of_body hbody
        cases hplaces place cell hcell with
        | inl hold => exact hinv.keys.polled other found place cell hfound hat hold
        | inr hmade => exact absurd (hplace.trans hmade.1) (hvacant other found seat hfound hseat)
    . intro name
      unfold CompletedOnce
      rw [hcompleted]
      cases hinv.keys.completed name with
      | inl hnone => exact .inl hnone
      | inr hone =>
        obtain ⟨hcount, place, cell, result, hcell, hname, hearly, hready⟩ := hone
        exact .inr ⟨hcount, place, cell, result, hkept _ _ hcell, hname, hearly,
          @ready_kept loads next index _ _ hstates (.inl hempty) place result hready⟩
  . rw [hcontext]
    exact hinv.closing
  . refine hinv.receipts.goTo hget htasks ?_ ?_
    . intro entry hentry
      rw [hreceipts] at hentry
      exact hentry
    . intro seat result hreturned
      rw [hpoint] at hreturned
      cases hreturned

theorem Inv.locate {json : JsonInput} (hpoint : task.point = .locating) (hinput : task.call.input = .value json)
    : (loads.locate index task
        (invocationKey sha256 task.call.policy (writeCanonicalJson json.value) loads.identity.routeId)).Inv sha256 := by
  have hkey : task.call.cellKey sha256 loads.identity.routeId = some (if task.call.policy.deduplicateInRequest then
      some (invocationKey sha256 task.call.policy (writeCanonicalJson json.value) loads.identity.routeId) else none) := by
    unfold LoadCall.cellKey LoadCall.key
    rw [hinput]
    rfl
  generalize invocationKey sha256 task.call.policy (writeCanonicalJson json.value) loads.identity.routeId = key at hkey ⊢
  unfold DataLoads.locate
  split
  . next hshared =>
    rw [if_pos hshared] at hkey
    split
    . next existing hexisting =>
      obtain ⟨cell, hcell, hname⟩ := hinv.keys.mapped key existing hexisting
      have hmoved : (loads.goTo index task (.waiting ⟨existing, true⟩)).Seats sha256 := by
        refine Seats.sit hinv hget rfl rfl (fun _ _ h => h) hcell (hname ▸ hkey) ?_
        intro hnone
        rw [hname] at hnone
        cases hnone
      refine ⟨hmoved, ?_, ?_, hinv.closing, ?_⟩
      . refine hinv.states.goTo hget rfl rfl (.inl ?_) (.inl ?_) trivial
        . rw [hpoint]
          rfl
        . rw [hpoint]
          rfl
      . exact hinv.keys.goTo hget rfl rfl rfl rfl hinv.keys.completed nofun
      . refine hinv.receipts.goTo hget rfl (fun _ h => h) ?_
        intro seat result hreturned
        rw [hpoint] at hreturned
        cases hreturned
    . next hnone =>
      refine hinv.make hget hpoint rfl rfl rfl rfl rfl ?_ ?_ rfl rfl hkey
      . intro name
        by_cases hname : name = key
        . rw [if_pos (congrArg some hname.symm), hname]
          exact Function.update_self _ _ _
        . rw [if_neg (fun h => hname (Option.some.inj h).symm)]
          exact Function.update_of_ne hname _ _
      . intro name hname
        cases hname
        exact hnone
  . next halone =>
    rw [if_neg halone] at hkey
    exact hinv.make hget hpoint rfl rfl rfl rfl rfl (fun _ => rfl) nofun rfl rfl hkey

theorem step_load {reading : LoadReading} (hguard : loads.agrees sha256 (.step index reading))
    (h : loads.stepLoad sha256 index task reading = some next)
    : next.Inv sha256 := by
  obtain ⟨call, at'⟩ := task
  unfold stepLoad at h
  cases at' with
  | entered =>
    dsimp only at h
    split at h
    . cases h
      exact hinv.refuse hget nofun rfl rfl _
    . split at h
      . cases h
        exact hinv.refuse hget nofun rfl rfl _
      . cases h
        exact hinv.goTo hget nofun (.inl rfl) (.inl rfl) (.inl rfl) trivial nofun
  | opened =>
    dsimp only at h
    split at h
    . cases h
      exact hinv.refuse hget nofun rfl rfl _
    . cases h
      exact hinv.goTo hget nofun (.inl rfl) (.inl rfl) (.inl rfl) trivial nofun
  | locating =>
    dsimp only at h
    split at h
    . cases h
      exact hinv.refuse hget nofun rfl rfl _
    . cases h
      exact hinv.goTo hget nofun (.inl rfl) (.inl rfl) (.inl rfl) trivial nofun
    . next hinput =>
      cases h
      exact hinv.locate hget rfl hinput
  | waiting seat =>
    dsimp only at h
    split at h
    . next hempty =>
      cases h
      refine hinv.set hget rfl rfl rfl rfl rfl rfl rfl nofun (.inr rfl) (.inl hempty) (.inl rfl) rfl ?_ nofun ?_ rfl ?_
      . intro other hother
        cases hother
        exact ⟨rfl, rfl⟩
      . exact Function.update_self _ _ _
      . intro key
        refine (hinv.keys.completed key).congr rfl rfl ?_
        exact @ready_kept loads _ index _ _ rfl (.inl hempty)
    . cases h
    . next hready =>
      cases h
      exact hinv.goTo hget nofun (.inr rfl) (.inl rfl) (.inl rfl) hready nofun
  | starting seat =>
    have hstate := hinv.state_of_body hget rfl
    dsimp only at h
    split at h
    . cases h
      exact hinv.abandon_same hget rfl (.inl rfl)
    . cases h
      exact hinv.goTo hget nofun (.inr rfl) (.inr rfl) (.inl rfl) hstate nofun
  | loading seat registered =>
    have hstate := hinv.state_of_body hget rfl
    dsimp only at h
    split at h
    . cases h
      exact hinv.fill_same hget rfl rfl nofun
    . next hrunning =>
      split at h
      . cases h
        exact hinv.fill_same hget rfl rfl nofun
      . cases h
        refine hinv.goTo hget nofun (.inr rfl) (.inr rfl) (.inl rfl) hstate ?_
        intro place hplace
        cases registered with
        | true => exact .inl hplace
        | false =>
          rw [Bool.not_false, Bool.true_or, Bool.and_true, Bool.not_eq_true] at hrunning
          refine .inr fun cell hcell => ?_
          cases hlate : cell.late with
          | false => rfl
          | true =>
            rw [hinv.keys.late cell (List.mem_of_getElem? hcell) hlate] at hrunning
            cases hrunning
  | polling seat =>
    have hstate := hinv.state_of_body hget rfl
    dsimp only at h
    split at h
    . cases h
      exact hinv.goTo hget nofun (.inr rfl) (.inr rfl) (.inl rfl) hstate (fun place hplace => .inl hplace)
    . cases h
      exact hinv.abandon_same hget rfl (.inl rfl)
    . next result hanswer =>
      cases h
      refine hinv.settle hget rfl ?_
      intro hpanics
      obtain ⟨notified, expired, answer⟩ := reading
      dsimp only at hanswer
      rw [hanswer, hpanics] at hguard
      exact hguard _ hget
  | finishing seat result =>
    cases h
    exact hinv.finish hget rfl
  | _ => cases h

theorem step_drop (h : loads.dropLoad index task = some next) : next.Inv sha256 := by
  obtain ⟨call, at'⟩ := task
  unfold dropLoad at h
  dsimp only at h
  split at h
  . cases h
    exact hinv.goTo hget nofun (.inl rfl) (.inl rfl) (.inl rfl) trivial nofun
  . cases h
    exact hinv.goTo hget nofun (.inl rfl) (.inl rfl) (.inl rfl) trivial nofun
  . cases h
    exact hinv.abandon_same hget rfl (.inr rfl)
  . cases h

end Steps

theorem step_call {call : LoadCall} (hinv : loads.Inv sha256)
    (hguard : ∀ task ∈ loads.tasks, task.call.Shares sha256 loads.identity.routeId call → task.call.Agrees call)
    : ({ loads with tasks := loads.tasks ++ [⟨call, .entered⟩] } : DataLoads).Inv sha256 := by
  have hbefore : ∀ (index : Nat) (task : LoadTask), (loads.tasks ++ [⟨call, .entered⟩])[index]? = some task →
      loads.tasks[index]? = some task ∨ task = ⟨call, .entered⟩ := by
    intro index task hget
    rw [List.getElem?_append] at hget
    split at hget
    . exact .inl hget
    . exact .inr (List.mem_singleton.mp (List.mem_of_getElem? hget))
  have hafter : ∀ (index : Nat) (task : LoadTask), loads.tasks[index]? = some task →
      (loads.tasks ++ [⟨call, .entered⟩])[index]? = some task := by
    intro index task hget
    rw [List.getElem?_append_left (List.getElem?_eq_some_iff.mp hget).1]
    exact hget
  constructor
  . constructor
    . intro task htask found hfound hshares
      have hself : call.Agrees call := ⟨rfl, rfl⟩
      cases List.mem_append.mp htask with
      | inl hold =>
        cases List.mem_append.mp hfound with
        | inl hold' => exact hinv.seats.agreed task hold found hold' hshares
        | inr hnew =>
          rw [List.mem_singleton] at hnew
          rw [hnew] at hshares ⊢
          exact hguard task hold hshares
      | inr hnew =>
        rw [List.mem_singleton] at hnew
        rw [hnew] at hshares ⊢
        obtain ⟨key, hkey, hkey'⟩ := hshares
        cases List.mem_append.mp hfound with
        | inl hold =>
          obtain ⟨hpolicy, htype⟩ := hguard found hold ⟨key, hkey', hkey⟩
          exact ⟨hpolicy.symm, htype.symm⟩
        | inr hnew' =>
          rw [List.mem_singleton] at hnew'
          rw [hnew']
          exact hself
    . intro index task seat hget hat
      cases hbefore index task hget with
      | inl hold => exact hinv.seats.seated index task seat hold hat
      | inr hnew =>
        rw [hnew] at hat
        cases hat
    . intro index other task found seat seat' hget hfound hat hat'
      cases hbefore index task hget with
      | inl hold =>
        cases hbefore other found hfound with
        | inl hold' => exact hinv.seats.alone index other task found seat seat' hold hold' hat hat'
        | inr hnew =>
          rw [hnew] at hat'
          cases hat'
      | inr hnew =>
        rw [hnew] at hat
        cases hat
  . constructor
    . intro index task hget
      cases hbefore index task hget with
      | inl hold => exact hinv.states.stands index task hold
      | inr hnew =>
        rw [hnew]
        trivial
    . intro cell index hrunning
      obtain ⟨task, hget, hbody⟩ := hinv.states.running cell index hrunning
      exact ⟨task, hafter index task hget, hbody⟩
    . intro cell result hready
      obtain ⟨index, task, hget, hholds, hfits⟩ := hinv.states.filled cell result hready
      exact ⟨index, task, hafter index task hget, hholds, hfits⟩
  . refine ⟨hinv.keys.mapped, hinv.keys.kept, hinv.keys.late, hinv.keys.single, ?_, hinv.keys.completed⟩
    intro index task place cell hget hat
    cases hbefore index task hget with
    | inl hold => exact hinv.keys.polled index task place cell hold hat
    | inr hnew =>
      rw [hnew] at hat
      cases hat
  . exact hinv.closing
  . intro index receipt hreceipt
    obtain ⟨task, seat, result, hget, hat, htold⟩ := hinv.receipts index receipt hreceipt
    exact ⟨task, seat, result, hafter index task hget, hat, htold⟩

end DataLoads

end Data

end Pliego
