import Pliego.Data.Policy
import Pliego.Lib.Reach

/-!
The cleanups of a data context: its registrations, cancellations and closes as tasks that take one lock section or
one atomic access at a time.
-/

namespace Pliego

namespace Data

inductive DataCancelReason where
  | clientDisconnect
  | deadline
  | shutdown
  | applicationAbort
  | requestBodyLimit
  | responseBodyLimit
  | scopeClosed
  deriving DecidableEq, Repr

structure DataContextOptions where
  maxReceipts : Nat
  maxCleanups : Nat

def DataContextOptions.validate (options : DataContextOptions) : Except DataError Unit :=
  if options.maxReceipts = 0 ∨ 4096 < options.maxReceipts then
    .error (.invalidLoaderPolicy "max_receipts must be between 1 and 4096")
  else if options.maxCleanups = 0 ∨ 1024 < options.maxCleanups then
    .error (.invalidLoaderPolicy "max_cleanups must be between 1 and 1024")
  else
    .ok ()

inductive CleanupEnd where
  | done
  | failed (message : String)
  | panicked

abbrev DataCleanup := DataCancelReason → CleanupEnd

-- A cleanup in the list, with the number of the call that registered it.
structure RegisteredCleanup where
  call : Nat
  cleanup : DataCleanup

structure CleanupRun where
  call : Nat
  reason : DataCancelReason
  outcome : CleanupEnd

inductive ContextCall where
  | registerCleanup (cleanup : DataCleanup)
  | cancel (reason : DataCancelReason)
  | close

-- Where a call stands: what it has read or taken so far and does next.
inductive CallPoint where
  | start
  | locking
  | signalling
  | swapped
  | stopping (reason : DataCancelReason)
  | taking (reason : DataCancelReason)
  | running (reason : DataCancelReason) (cleanups : List RegisteredCleanup)
  | clearing
  | returned (result : Except DataError Unit)

structure ContextTask where
  call : ContextCall
  point : CallPoint
  -- whether a close had returned when the call began
  afterClose : Bool

def ContextTask.closed (task : ContextTask) : Bool :=
  match task.call, task.point with
  | .close, .returned _ => true
  | _, _ => false

def ContextTask.registered (task : ContextTask) : Bool :=
  match task.call, task.point with
  | .registerCleanup _, .returned (.ok ()) => true
  | _, _ => false

def ContextTask.active (task : ContextTask) : Bool :=
  match task.call, task.point with
  | .close, .start | .close, .returned _ => false
  | .close, _ => true
  | _, _ => false

def ContextTask.locking (task : ContextTask) : Bool :=
  match task.call, task.point with
  | .registerCleanup _, .locking => true
  | _, _ => false

def ContextTask.running (task : ContextTask) : List RegisteredCleanup :=
  match task.call, task.point with
  | .close, .running _ cleanups => cleanups
  | _, _ => []

/-!
The fields `given`, `read`, `taken`, `registered` and `ran` are the history of a run.
-/

structure CleanupContext where
  options : DataContextOptions
  closed : Bool
  cancelReason : Option DataCancelReason
  cancelled : Bool
  cleanups : List RegisteredCleanup
  tasks : List ContextTask
  given : List DataCancelReason
  read : Option Nat
  taken : Bool
  registered : List Nat
  ran : List CleanupRun

inductive ContextMove where
  | call (call : ContextCall)
  | step (index : Nat)

namespace CleanupContext

def openContext (options : DataContextOptions) : Except DataError CleanupContext := do
  options.validate
  .ok {
    options := options
    closed := false
    cancelReason := none
    cancelled := false
    cleanups := []
    tasks := []
    given := []
    read := none
    taken := false
    registered := []
    ran := []
  }

def goTo (context : CleanupContext) (index : Nat) (task : ContextTask) (point : CallPoint) : CleanupContext :=
  { context with tasks := context.tasks.set index { task with point := point } }

def stepRegister (context : CleanupContext) (index : Nat) (task : ContextTask) (cleanup : DataCleanup)
    : Option CleanupContext :=
  match task.point with
  | .start =>
    if context.closed then
      some (context.goTo index task (.returned (.error .contextClosed)))
    else
      some (context.goTo index task .locking)
  | .locking =>
    if context.options.maxCleanups ≤ context.cleanups.length then
      some (context.goTo index task (.returned (.error (.cleanupLimit context.options.maxCleanups))))
    else
      some { context.goTo index task (.returned (.ok ())) with
        cleanups := context.cleanups ++ [⟨index, cleanup⟩]
        registered := context.registered ++ [index] }
  | _ => none

def stepCancel (context : CleanupContext) (index : Nat) (task : ContextTask) (reason : DataCancelReason)
    : Option CleanupContext :=
  match task.point with
  | .start =>
    some { context.goTo index task .signalling with
      cancelReason := context.cancelReason.or (some reason)
      given := context.given ++ [reason] }
  | .signalling => some { context.goTo index task (.returned (.ok ())) with cancelled := true }
  | _ => none

def stepClose (context : CleanupContext) (index : Nat) (task : ContextTask) : Option CleanupContext :=
  match task.point with
  | .start =>
    if context.closed then
      some (context.goTo index task (.returned (.ok ())))
    else
      some { context.goTo index task .swapped with closed := true }
  | .swapped =>
    let reason := context.cancelReason.getD .scopeClosed
    some { context.goTo index task (.stopping reason) with
      cancelReason := some reason
      read := some context.given.length }
  | .stopping reason => some { context.goTo index task (.taking reason) with cancelled := true }
  | .taking reason =>
    some { context.goTo index task (.running reason context.cleanups) with cleanups := [], taken := true }
  | .running reason cleanups =>
    match cleanups.getLast? with
    | none => some (context.goTo index task .clearing)
    | some last =>
      some { context.goTo index task (.running reason cleanups.dropLast) with
        ran := context.ran ++ [⟨last.call, reason, last.cleanup reason⟩] }
  | .clearing => some (context.goTo index task (.returned (.ok ())))
  | _ => none

def step (context : CleanupContext) (move : ContextMove) : Option CleanupContext :=
  match move with
  | .call call =>
    some { context with tasks := context.tasks ++ [⟨call, .start, context.tasks.any ContextTask.closed⟩] }
  | .step index =>
    match context.tasks[index]? with
    | none => none
    | some task =>
      match task.call with
      | .registerCleanup cleanup => context.stepRegister index task cleanup
      | .cancel reason => context.stepCancel index task reason
      | .close => context.stepClose index task

def registers (context : CleanupContext) (move : ContextMove) : Bool :=
  match move with
  | .call _ => false
  | .step index => (context.tasks[index]?).any ContextTask.locking

def timely (context : CleanupContext) (move : ContextMove) : Bool :=
  !(context.taken && context.registers move)

def Bounded (context : CleanupContext) : Prop :=
  ∀ task ∈ context.tasks, context.cleanups.length + task.running.length ≤ context.options.maxCleanups

structure Finished (context : CleanupContext) : Prop where
  returned : ∀ task ∈ context.tasks, ∃ result, task.point = .returned result
  closed : context.tasks.any ContextTask.closed = true

def reason (context : CleanupContext) : DataCancelReason :=
  match context.read with
  | none => .scopeClosed
  | some count => (context.given.take count).head?.getD .scopeClosed

structure Cleaned (context : CleanupContext) : Prop where
  once : ∀ (index : Nat) (task : ContextTask), context.tasks[index]? = some task → task.registered = true →
    (context.ran.map CleanupRun.call).count index = 1
  newestFirst : context.ran.map CleanupRun.call = context.registered.reverse
  sameReason : ∀ run ∈ context.ran, run.reason = context.reason
  refused : ∀ task ∈ context.tasks, task.afterClose = true → task.registered = false

variable {context next : CleanupContext} {remaining : List RegisteredCleanup} {index : Nat} {task : ContextTask}
  {point : CallPoint}

def Stage (context : CleanupContext) (point : CallPoint) (remaining : List RegisteredCleanup) : Prop :=
  match point with
  | .swapped => context.read = none ∧ context.taken = false ∧ remaining = []
  | .stopping reason | .taking reason =>
    context.read.isSome ∧ context.reason = reason ∧ context.taken = false ∧ remaining = []
  | .running reason cleanups =>
    context.read.isSome ∧ context.reason = reason ∧ context.taken = true ∧ remaining = cleanups
  | .clearing => context.taken = true ∧ remaining = []
  | _ => False

inductive Phase (context : CleanupContext) (remaining : List RegisteredCleanup) : Prop where
  | opened (hclosed : context.closed = false) (hread : context.read = none) (htaken : context.taken = false)
    (hnil : remaining = []) (hidle : ∀ task ∈ context.tasks, task.active = false)
  | closing (index : Nat) (task : ContextTask) (hclosed : context.closed = true)
    (hget : context.tasks[index]? = some task) (hactive : task.active = true)
    (hstage : context.Stage task.point remaining)
    (hidle : ∀ (other : Nat) (task : ContextTask), context.tasks[other]? = some task → other ≠ index →
      task.active = false)
  | closed (hclosed : context.closed = true) (htaken : context.taken = true) (hnil : remaining = [])
    (hidle : ∀ task ∈ context.tasks, task.active = false)

structure Account (context : CleanupContext) (remaining : List RegisteredCleanup) : Prop where
  split : context.registered = remaining.map RegisteredCleanup.call
    ++ (context.ran.map CleanupRun.call).reverse ++ context.cleanups.map RegisteredCleanup.call
  untaken : context.taken = false → context.ran = []
  reasons : ∀ run ∈ context.ran, run.reason = context.reason
  given : context.read = none → context.cancelReason = context.given.head?
  count : ∀ count, context.read = some count → count ≤ context.given.length
  cleanups : context.cleanups.length ≤ context.options.maxCleanups
  remaining : remaining.length ≤ context.options.maxCleanups

structure Tasked (context : CleanupContext) : Prop where
  nodup : context.registered.Nodup
  registered : ∀ index, index ∈ context.registered
    ↔ ∃ task, context.tasks[index]? = some task ∧ task.registered = true
  closed : ∀ task ∈ context.tasks, task.closed = true ∨ task.afterClose = true → context.closed = true
  late : ∀ task ∈ context.tasks, task.afterClose = true → ∀ cleanup, task.call = .registerCleanup cleanup →
    task.point = .start ∨ ∃ error, task.point = .returned (.error error)

structure Inv (options : DataContextOptions) (context : CleanupContext) : Prop where
  options : context.options = options
  tasked : context.Tasked
  account : ∃ remaining, context.Phase remaining ∧ context.Account remaining

def Good (context : CleanupContext) : Prop :=
  context.taken = true → context.cleanups = []

theorem active_returned {result : Except DataError Unit} (h : task.point = .returned result) : task.active = false := by
  unfold ContextTask.active
  rw [h]
  cases task.call with
  | _ => rfl

theorem mem_goTo {other : ContextTask} (h : other ∈ (context.goTo index task point).tasks)
    : other = { task with point := point } ∨ other ∈ context.tasks :=
  (List.mem_or_eq_of_mem_set h).symm

theorem getElem?_goTo (hget : context.tasks[index]? = some task) (other : Nat)
    : (context.goTo index task point).tasks[other]?
      = if other = index then some { task with point := point } else context.tasks[other]? := by
  have hindex := (List.getElem?_eq_some_iff.mp hget).1
  unfold goTo
  rw [List.getElem?_set]
  by_cases hsame : index = other
  . rw [if_pos hsame, if_pos hindex, if_pos hsame.symm]
  . rw [if_neg hsame, if_neg (Ne.symm hsame)]

theorem Stage.congr (h : context.Stage point remaining) (hread : next.read = context.read)
    (htaken : next.taken = context.taken) (hreason : next.reason = context.reason)
    : next.Stage point remaining := by
  unfold Stage at h ⊢
  rw [hread, htaken, hreason]
  exact h

theorem Phase.goTo (h : context.Phase remaining) (hget : context.tasks[index]? = some task)
    (htasks : next.tasks = (context.goTo index task point).tasks) (hbefore : task.active = false)
    (hafter : ({ task with point := point } : ContextTask).active = false) (hclosed : next.closed = context.closed)
    (hread : next.read = context.read) (htaken : next.taken = context.taken) (hreason : next.reason = context.reason)
    : next.Phase remaining := by
  have hall : (∀ other ∈ context.tasks, other.active = false) → ∀ other ∈ next.tasks, other.active = false := by
    intro hidle other hother
    rw [htasks] at hother
    cases mem_goTo hother with
    | inl hnew =>
      rw [hnew]
      exact hafter
    | inr hold => exact hidle other hold
  cases h with
  | opened hopen hunread huntaken hnil hidle =>
    exact .opened (hclosed.trans hopen) (hread.trans hunread) (htaken.trans huntaken) hnil (hall hidle)
  | closed hdone hdrained hnil hidle => exact .closed (hclosed.trans hdone) (htaken.trans hdrained) hnil (hall hidle)
  | closing closer closing hdone hcloser hactive hstage hidle =>
    have hother : closer ≠ index := by
      intro hsame
      rw [hsame, hget] at hcloser
      cases hcloser
      rw [hbefore] at hactive
      cases hactive
    apply Phase.closing closer closing (hclosed.trans hdone) _ hactive (hstage.congr hread htaken hreason)
    . intro other task' hother' hne
      rw [htasks, getElem?_goTo hget] at hother'
      split at hother'
      . cases hother'
        exact hafter
      . exact hidle other task' hother' hne
    . rw [htasks, getElem?_goTo hget, if_neg hother]
      exact hcloser

theorem Phase.of_active (h : context.Phase remaining) (hget : context.tasks[index]? = some task)
    (hactive : task.active = true)
    : context.closed = true ∧ context.Stage task.point remaining
      ∧ ∀ (other : Nat) (task : ContextTask), context.tasks[other]? = some task → other ≠ index →
        task.active = false := by
  have hnot : ¬ ∀ other ∈ context.tasks, other.active = false := by
    intro hidle
    rw [hidle task (List.mem_of_getElem? hget)] at hactive
    cases hactive
  cases h with
  | opened _ _ _ _ hidle => exact absurd hidle hnot
  | closed _ _ _ hidle => exact absurd hidle hnot
  | closing closer closing hdone hcloser hcloses hstage hidle =>
    by_cases hsame : index = closer
    . rw [hsame] at hget
      rw [hcloser] at hget
      cases hget
      rw [hsame]
      exact ⟨hdone, hstage, hidle⟩
    . rw [hidle index task hget hsame] at hactive
      cases hactive

theorem Phase.advance (hget : context.tasks[index]? = some task)
    (htasks : next.tasks = (context.goTo index task point).tasks) (hclosed : next.closed = true)
    (hactive : ({ task with point := point } : ContextTask).active = true) (hstage : next.Stage point remaining)
    (hidle : ∀ (other : Nat) (task : ContextTask), context.tasks[other]? = some task → other ≠ index →
      task.active = false)
    : next.Phase remaining := by
  apply Phase.closing index { task with point := point } hclosed _ hactive hstage
  . intro other task' hother hne
    rw [htasks, getElem?_goTo hget, if_neg hne] at hother
    exact hidle other task' hother hne
  . rw [htasks, getElem?_goTo hget, if_pos rfl]

theorem Tasked.goTo (h : context.Tasked) (hget : context.tasks[index]? = some task)
    (htasks : next.tasks = (context.goTo index task point).tasks)
    (hregistered : next.registered = context.registered)
    (hflag : ({ task with point := point } : ContextTask).registered = task.registered)
    (hclosed : context.closed = true → next.closed = true)
    (hreturned : ({ task with point := point } : ContextTask).closed = true → next.closed = true)
    (hlate : task.afterClose = true → ∀ cleanup, task.call = .registerCleanup cleanup →
      point = .start ∨ ∃ error, point = .returned (.error error))
    : next.Tasked := by
  constructor
  . rw [hregistered]
    exact h.nodup
  . intro other
    rw [hregistered, h.registered, htasks, getElem?_goTo hget]
    split
    . next hsame =>
      rw [hsame, hget]
      constructor
      . intro ⟨found, hfound, hflagged⟩
        cases hfound
        exact ⟨_, rfl, hflag.trans hflagged⟩
      . intro ⟨found, hfound, hflagged⟩
        cases hfound
        exact ⟨_, rfl, hflag.symm.trans hflagged⟩
    . exact Iff.rfl
  . intro other hother hsome
    rw [htasks] at hother
    cases mem_goTo hother with
    | inl hnew =>
      subst hnew
      cases hsome with
      | inl hend => exact hreturned hend
      | inr hafter => exact hclosed (h.closed task (List.mem_of_getElem? hget) (.inr hafter))
    | inr hold => exact hclosed (h.closed other hold hsome)
  . intro other hother hafter cleanup hcall
    rw [htasks] at hother
    cases mem_goTo hother with
    | inl hnew =>
      subst hnew
      exact hlate hafter cleanup hcall
    | inr hold => exact h.late other hold hafter cleanup hcall

theorem Account.congr (h : context.Account remaining) (hregistered : next.registered = context.registered)
    (hran : next.ran = context.ran) (hcleanups : next.cleanups = context.cleanups)
    (htaken : next.taken = context.taken) (hread : next.read = context.read) (hgiven : next.given = context.given)
    (hcancel : next.cancelReason = context.cancelReason) (hoptions : next.options = context.options)
    : next.Account remaining := by
  have hreason : next.reason = context.reason := by
    unfold reason
    rw [hread, hgiven]
  constructor
  . rw [hregistered, hran, hcleanups]
    exact h.split
  . rw [htaken, hran]
    exact h.untaken
  . rw [hran, hreason]
    exact h.reasons
  . rw [hread, hcancel, hgiven]
    exact h.given
  . rw [hread, hgiven]
    exact h.count
  . rw [hcleanups, hoptions]
    exact h.cleanups
  . rw [hoptions]
    exact h.remaining

section Steps

variable {options : DataContextOptions} (hinv : context.Inv options) (hget : context.tasks[index]? = some task)

theorem timely_step (hget : context.tasks[index]? = some task)
    : context.timely (.step index) = !(context.taken && task.locking) := by
  unfold timely registers
  dsimp only
  rw [hget, Option.any_some]

theorem good_same (hget : context.tasks[index]? = some task) (hlocking : task.locking = false)
    (htaken : next.taken = context.taken) (hcleanups : next.cleanups = context.cleanups)
    : next.Good ↔ context.Good ∧ context.timely (.step index) = true := by
  unfold Good
  rw [timely_step hget, htaken, hcleanups, hlocking, Bool.and_false]
  exact (and_iff_left rfl).symm

theorem inv_goTo (hinv : context.Inv options) (hget : context.tasks[index]? = some task) (hbefore : task.active = false)
    (hafter : ({ task with point := point } : ContextTask).active = false)
    (hflag : ({ task with point := point } : ContextTask).registered = task.registered)
    (hreturned : ({ task with point := point } : ContextTask).closed = true → context.closed = true)
    (hlate : task.afterClose = true → ∀ cleanup, task.call = .registerCleanup cleanup →
      point = .start ∨ ∃ error, point = .returned (.error error))
    : (context.goTo index task point).Inv options := by
  obtain ⟨remaining, hphase, haccount⟩ := hinv.account
  constructor
  . exact hinv.options
  . exact hinv.tasked.goTo hget rfl rfl hflag id hreturned hlate
  . exact ⟨remaining, hphase.goTo hget rfl hbefore hafter rfl rfl rfl rfl,
      haccount.congr rfl rfl rfl rfl rfl rfl rfl rfl⟩

theorem step_register {cleanup : DataCleanup} (hmax : 0 < options.maxCleanups) (hinv : context.Inv options)
    (hget : context.tasks[index]? = some task) (hcall : task.call = .registerCleanup cleanup)
    (h : context.stepRegister index task cleanup = some next)
    : next.Inv options ∧ (next.Good ↔ context.Good ∧ context.timely (.step index) = true) := by
  obtain ⟨call, at', after⟩ := task
  cases hcall
  have hmem := List.mem_of_getElem? hget
  unfold stepRegister at h
  dsimp only at h
  split at h
  . split at h
    . cases h
      constructor
      . refine inv_goTo hinv hget rfl rfl rfl nofun ?_
        intro _ _ _
        exact .inr ⟨_, rfl⟩
      . exact good_same hget rfl rfl rfl
    . next hopen =>
      cases h
      constructor
      . refine inv_goTo hinv hget rfl rfl rfl nofun ?_
        intro hafter
        exact absurd (hinv.tasked.closed _ hmem (.inr hafter)) hopen
      . exact good_same hget rfl rfl rfl
  . have hearly : after = false := by
      cases hafter : after with
      | false => rfl
      | true =>
        cases hinv.tasked.late _ hmem hafter cleanup rfl with
        | inl hstart => cases hstart
        | inr hreturned =>
          obtain ⟨_, hreturned⟩ := hreturned
          cases hreturned
    subst hearly
    split at h
    . next hfull =>
      cases h
      constructor
      . exact inv_goTo hinv hget rfl rfl rfl nofun nofun
      . rw [timely_step hget]
        unfold Good goTo ContextTask.locking
        dsimp only
        rw [Bool.and_true]
        constructor
        . intro hgood
          refine ⟨hgood, ?_⟩
          cases htaken : context.taken with
          | false => rfl
          | true =>
            rw [hgood htaken, List.length_nil, hinv.options] at hfull
            omega
        . exact fun hgood => hgood.1
    . next hroom =>
      cases h
      obtain ⟨remaining, hphase, haccount⟩ := hinv.account
      have hnew : index ∉ context.registered := by
        intro hold
        obtain ⟨found, hfound, hflag⟩ := (hinv.tasked.registered index).mp hold
        rw [hget] at hfound
        cases hfound
        cases hflag
      constructor
      . constructor
        . exact hinv.options
        . constructor
          . rw [List.nodup_append]
            refine ⟨hinv.tasked.nodup, List.nodup_singleton _, ?_⟩
            intro a ha b hb
            rw [List.mem_singleton] at hb
            rw [hb]
            exact fun hsame => hnew (hsame ▸ ha)
          . intro other
            rw [List.mem_append, List.mem_singleton, hinv.tasked.registered]
            dsimp only
            rw [getElem?_goTo hget]
            split
            . next hsame =>
              exact iff_of_true (.inr hsame) ⟨_, rfl, rfl⟩
            . next hne =>
              exact or_iff_left hne
          . intro other hother hsome
            cases mem_goTo hother with
            | inl hfresh =>
              subst hfresh
              cases hsome with
              | inl hend => cases hend
              | inr hafter => cases hafter
            | inr hold => exact hinv.tasked.closed other hold hsome
          . intro other hother hafter
            cases mem_goTo hother with
            | inl hfresh =>
              subst hfresh
              cases hafter
            | inr hold => exact hinv.tasked.late other hold hafter
        . refine ⟨remaining, hphase.goTo hget rfl rfl rfl rfl rfl rfl rfl, ?_⟩
          constructor
          . rw [haccount.split, List.map_append, List.append_assoc]
            rfl
          . exact haccount.untaken
          . exact haccount.reasons
          . exact haccount.given
          . exact haccount.count
          . rw [List.length_append, List.length_singleton]
            dsimp only [CleanupContext.goTo]
            omega
          . exact haccount.remaining
      . rw [timely_step hget]
        unfold Good CleanupContext.goTo ContextTask.locking
        dsimp only
        rw [Bool.and_true]
        constructor
        . intro hgood
          cases htaken : context.taken with
          | false => exact ⟨nofun, rfl⟩
          | true =>
            have hnil := hgood htaken
            rw [List.append_eq_nil_iff] at hnil
            cases hnil.2
        . intro ⟨_, hnot⟩ htaken
          rw [htaken] at hnot
          cases hnot
  . cases h

theorem step_cancel {reason : DataCancelReason} (hinv : context.Inv options)
    (hget : context.tasks[index]? = some task) (hcall : task.call = .cancel reason)
    (h : context.stepCancel index task reason = some next)
    : next.Inv options ∧ (next.Good ↔ context.Good ∧ context.timely (.step index) = true) := by
  obtain ⟨call, at', after⟩ := task
  cases hcall
  obtain ⟨remaining, hphase, haccount⟩ := hinv.account
  unfold stepCancel at h
  dsimp only at h
  split at h
  . cases h
    constructor
    . constructor
      . exact hinv.options
      . exact hinv.tasked.goTo hget rfl rfl rfl id nofun nofun
      . -- what close has read stays the first reason given before
        have hreason : ∀ count, context.read = some count →
            (context.given ++ [reason]).take count = context.given.take count := by
          intro count hread
          exact List.take_append_of_le_length (haccount.count count hread)
        have hsame : ({ context.goTo index ⟨.cancel reason, .start, after⟩ .signalling with
            cancelReason := context.cancelReason.or (some reason)
            given := context.given ++ [reason] } : CleanupContext).reason = context.reason := by
          unfold CleanupContext.reason
          dsimp only [CleanupContext.goTo]
          split
          . rfl
          . next count hread => rw [hreason count hread]
        refine ⟨remaining, hphase.goTo hget rfl rfl rfl rfl rfl rfl hsame, ?_⟩
        constructor
        . exact haccount.split
        . exact haccount.untaken
        . rw [hsame]
          exact haccount.reasons
        . intro hunread
          dsimp only [CleanupContext.goTo] at hunread ⊢
          rw [haccount.given hunread]
          cases context.given with
          | nil => rfl
          | cons first rest => rfl
        . intro count hread
          have hcount := haccount.count count hread
          rw [List.length_append]
          omega
        . exact haccount.cleanups
        . exact haccount.remaining
    . exact good_same hget rfl rfl rfl
  . cases h
    constructor
    . constructor
      . exact hinv.options
      . exact hinv.tasked.goTo hget rfl rfl rfl id nofun nofun
      . exact ⟨remaining, hphase.goTo hget rfl rfl rfl rfl rfl rfl rfl,
          haccount.congr rfl rfl rfl rfl rfl rfl rfl rfl⟩
    . exact good_same hget rfl rfl rfl
  . cases h

theorem step_close (hinv : context.Inv options) (hget : context.tasks[index]? = some task)
    (hcall : task.call = .close) (h : context.stepClose index task = some next)
    : next.Inv options ∧ (next.Good ↔ context.Good ∧ context.timely (.step index) = true) := by
  obtain ⟨call, at', after⟩ := task
  cases hcall
  obtain ⟨remaining, hphase, haccount⟩ := hinv.account
  unfold stepClose at h
  dsimp only at h
  split at h
  . split at h
    . next hclosed =>
      cases h
      exact ⟨inv_goTo hinv hget rfl rfl rfl (fun _ => hclosed) nofun, good_same hget rfl rfl rfl⟩
    . next hopen =>
      cases h
      constructor
      . constructor
        . exact hinv.options
        . exact hinv.tasked.goTo hget rfl rfl rfl (fun _ => rfl) nofun nofun
        . refine ⟨remaining, ?_, haccount.congr rfl rfl rfl rfl rfl rfl rfl rfl⟩
          cases hphase with
          | opened _ hread htaken hnil hidle =>
            refine Phase.advance hget rfl rfl rfl ⟨hread, htaken, hnil⟩ ?_
            intro other task' hother _
            exact hidle task' (List.mem_of_getElem? hother)
          | closing _ _ hclosed => exact absurd hclosed hopen
          | closed hclosed => exact absurd hclosed hopen
      . exact good_same hget rfl rfl rfl
  . obtain ⟨hclosed, ⟨hread, htaken, hnil⟩, hidle⟩ := hphase.of_active hget rfl
    cases h
    subst hnil
    have hran := haccount.untaken htaken
    constructor
    . constructor
      . exact hinv.options
      . exact hinv.tasked.goTo hget rfl rfl rfl id nofun nofun
      . refine ⟨[], ?_, ?_⟩
        . refine Phase.advance hget rfl hclosed rfl ?_ hidle
          refine ⟨rfl, ?_, htaken, rfl⟩
          unfold CleanupContext.reason
          dsimp only [CleanupContext.goTo]
          rw [List.take_length, haccount.given hread]
        . constructor
          . exact haccount.split
          . exact haccount.untaken
          . intro run hrun
            dsimp only [CleanupContext.goTo] at hrun
            rw [hran] at hrun
            cases hrun
          . exact nofun
          . intro count hcount
            cases hcount
            exact Nat.le_refl _
          . exact haccount.cleanups
          . exact haccount.remaining
    . exact good_same hget rfl rfl rfl
  . obtain ⟨hclosed, ⟨hread, hreason, htaken, hnil⟩, hidle⟩ := hphase.of_active hget rfl
    cases h
    constructor
    . constructor
      . exact hinv.options
      . exact hinv.tasked.goTo hget rfl rfl rfl id nofun nofun
      . exact ⟨remaining, Phase.advance hget rfl hclosed rfl ⟨hread, hreason, htaken, hnil⟩ hidle,
          haccount.congr rfl rfl rfl rfl rfl rfl rfl rfl⟩
    . exact good_same hget rfl rfl rfl
  . obtain ⟨hclosed, ⟨hread, hreason, htaken, hnil⟩, hidle⟩ := hphase.of_active hget rfl
    cases h
    subst hnil
    have hran := haccount.untaken htaken
    constructor
    . constructor
      . exact hinv.options
      . exact hinv.tasked.goTo hget rfl rfl rfl id nofun nofun
      . refine ⟨context.cleanups, Phase.advance hget rfl hclosed rfl ⟨hread, hreason, rfl, rfl⟩ hidle, ?_⟩
        constructor
        . have hsplit := haccount.split
          rw [hran] at hsplit
          dsimp only [CleanupContext.goTo]
          rw [hsplit, hran]
          simp only [List.map_nil, List.reverse_nil, List.append_nil, List.nil_append]
        . exact nofun
        . exact haccount.reasons
        . exact haccount.given
        . exact haccount.count
        . exact Nat.zero_le _
        . exact haccount.cleanups
    . rw [timely_step hget, htaken]
      apply iff_of_true
      . exact fun _ => rfl
      . refine ⟨?_, rfl⟩
        intro hnow
        rw [htaken] at hnow
        cases hnow
  . next reason cleanups =>
    obtain ⟨hclosed, ⟨hread, hreason, htaken, hnil⟩, hidle⟩ := hphase.of_active hget rfl
    subst hnil
    split at h
    . next hlast =>
      rw [List.getLast?_eq_none_iff] at hlast
      cases h
      constructor
      . constructor
        . exact hinv.options
        . exact hinv.tasked.goTo hget rfl rfl rfl id nofun nofun
        . exact ⟨remaining, Phase.advance hget rfl hclosed rfl ⟨htaken, hlast⟩ hidle,
            haccount.congr rfl rfl rfl rfl rfl rfl rfl rfl⟩
      . exact good_same hget rfl rfl rfl
    . next last hlast =>
      cases h
      constructor
      . constructor
        . exact hinv.options
        . exact hinv.tasked.goTo hget rfl rfl rfl id nofun nofun
        . refine ⟨remaining.dropLast, Phase.advance hget rfl hclosed rfl ⟨hread, hreason, htaken, rfl⟩ hidle, ?_⟩
          constructor
          . have hdrop : remaining.map RegisteredCleanup.call
                = remaining.dropLast.map RegisteredCleanup.call ++ [last.call] := by
              rw [← List.map_singleton (f := RegisteredCleanup.call), ← List.map_append,
                List.dropLast_append_getLast? last hlast]
            have hsplit := haccount.split
            dsimp only [CleanupContext.goTo]
            rw [hsplit, hdrop, List.map_append, List.reverse_append]
            simp only [List.map_cons, List.map_nil, List.reverse_singleton, List.append_assoc]
          . intro huntaken
            dsimp only [CleanupContext.goTo] at huntaken
            rw [htaken] at huntaken
            cases huntaken
          . intro run hrun
            dsimp only [CleanupContext.goTo] at hrun
            rw [List.mem_append, List.mem_singleton] at hrun
            cases hrun with
            | inl hold => exact haccount.reasons run hold
            | inr hnew =>
              rw [hnew]
              exact hreason.symm
          . exact haccount.given
          . exact haccount.count
          . exact haccount.cleanups
          . have hlength := haccount.remaining
            rw [List.length_dropLast]
            dsimp only [CleanupContext.goTo]
            omega
      . exact good_same hget rfl rfl rfl
  . obtain ⟨hclosed, ⟨htaken, hnil⟩, hidle⟩ := hphase.of_active hget rfl
    cases h
    constructor
    . constructor
      . exact hinv.options
      . exact hinv.tasked.goTo hget rfl rfl rfl id (fun _ => hclosed) nofun
      . refine ⟨remaining, ?_, haccount.congr rfl rfl rfl rfl rfl rfl rfl rfl⟩
        refine Phase.closed hclosed htaken hnil ?_
        intro other hother
        obtain ⟨place, hplace⟩ := List.mem_iff_getElem?.mp hother
        rw [getElem?_goTo hget] at hplace
        split at hplace
        . cases hplace
          rfl
        . next hne => exact hidle place other hplace hne
    . exact good_same hget rfl rfl rfl
  . cases h

theorem step_call {call : ContextCall} (hinv : context.Inv options) (h : context.step (.call call) = some next)
    : next.Inv options ∧ (next.Good ↔ context.Good ∧ context.timely (.call call) = true) := by
  cases h
  obtain ⟨remaining, hphase, haccount⟩ := hinv.account
  have hmem : ∀ (other : ContextTask), other ∈ context.tasks ++ [⟨call, .start, context.tasks.any ContextTask.closed⟩] →
      other ∈ context.tasks ∨ other = ⟨call, .start, context.tasks.any ContextTask.closed⟩ := by
    intro other hother
    rw [List.mem_append, List.mem_singleton] at hother
    exact hother
  have hstart : ∀ (after : Bool), (⟨call, .start, after⟩ : ContextTask).active = false
      ∧ (⟨call, .start, after⟩ : ContextTask).registered = false
      ∧ (⟨call, .start, after⟩ : ContextTask).closed = false := by
    intro after
    cases call with
    | _ => exact ⟨rfl, rfl, rfl⟩
  have hget : ∀ (place : Nat) (other : ContextTask),
      (context.tasks ++ [⟨call, .start, context.tasks.any ContextTask.closed⟩])[place]? = some other →
      context.tasks[place]? = some other ∨ other = ⟨call, .start, context.tasks.any ContextTask.closed⟩ := by
    intro place other hother
    rw [List.getElem?_append] at hother
    split at hother
    . exact .inl hother
    . have hnew := List.mem_of_getElem? hother
      rw [List.mem_singleton] at hnew
      exact .inr hnew
  constructor
  . constructor
    . exact hinv.options
    . constructor
      . exact hinv.tasked.nodup
      . intro place
        rw [hinv.tasked.registered]
        constructor
        . intro ⟨found, hfound, hflag⟩
          refine ⟨found, ?_, hflag⟩
          dsimp only
          rw [List.getElem?_append_left (List.getElem?_eq_some_iff.mp hfound).1]
          exact hfound
        . intro ⟨found, hfound, hflag⟩
          cases hget place found hfound with
          | inl hold => exact ⟨found, hold, hflag⟩
          | inr hnew =>
            rw [hnew, (hstart _).2.1] at hflag
            cases hflag
      . intro other hother hsome
        cases hmem other hother with
        | inl hold => exact hinv.tasked.closed other hold hsome
        | inr hnew =>
          subst hnew
          cases hsome with
          | inl hend =>
            rw [(hstart _).2.2] at hend
            cases hend
          | inr hafter =>
            obtain ⟨found, hfound, hends⟩ := List.any_eq_true.mp hafter
            exact hinv.tasked.closed found hfound (.inl hends)
      . intro other hother hafter cleanup hcall
        cases hmem other hother with
        | inl hold => exact hinv.tasked.late other hold hafter cleanup hcall
        | inr hnew =>
          rw [hnew]
          exact .inl rfl
    . refine ⟨remaining, ?_, haccount.congr rfl rfl rfl rfl rfl rfl rfl rfl⟩
      have hidle : (∀ other ∈ context.tasks, other.active = false) → ∀ other ∈ context.tasks
          ++ [⟨call, .start, context.tasks.any ContextTask.closed⟩], other.active = false := by
        intro hidle other hother
        cases hmem other hother with
        | inl hold => exact hidle other hold
        | inr hnew =>
          rw [hnew]
          exact (hstart _).1
      cases hphase with
      | opened hopen hread htaken hnil hnone => exact .opened hopen hread htaken hnil (hidle hnone)
      | closed hclosed htaken hnil hnone => exact .closed hclosed htaken hnil (hidle hnone)
      | closing closer closing hclosed hcloser hactive hstage hothers =>
        refine Phase.closing closer closing hclosed ?_ hactive (hstage.congr rfl rfl rfl) ?_
        . dsimp only
          rw [List.getElem?_append_left (List.getElem?_eq_some_iff.mp hcloser).1]
          exact hcloser
        . intro place other hother hne
          cases hget place other hother with
          | inl hold => exact hothers place other hold hne
          | inr hnew =>
            rw [hnew]
            exact (hstart _).1
  . exact (and_iff_left (by unfold timely registers; rw [Bool.and_false]; rfl)).symm

theorem step_inv {move : ContextMove} (hmax : 0 < options.maxCleanups) (hinv : context.Inv options)
    (h : context.step move = some next)
    : next.Inv options ∧ (next.Good ↔ context.Good ∧ context.timely move = true) := by
  cases move with
  | call call => exact step_call hinv h
  | step index =>
    unfold step at h
    dsimp only at h
    split at h
    . cases h
    . next task hget =>
      split at h
      . next cleanup hcall => exact step_register hmax hinv hget hcall h
      . next reason hcall => exact step_cancel hinv hget hcall h
      . next hcall => exact step_close hinv hget hcall h

end Steps

section Runs

variable {options : DataContextOptions} {start : CleanupContext} {moves : List ContextMove}

theorem open_inv (h : openContext options = .ok start)
    : start.Inv options ∧ start.Good ∧ 0 < options.maxCleanups := by
  unfold openContext at h
  cases hvalid : options.validate with
  | error error =>
    rw [hvalid] at h
    cases h
  | ok =>
    rw [hvalid] at h
    cases h
    refine ⟨⟨rfl, ⟨List.nodup_nil, fun index => iff_of_false List.not_mem_nil ?_, nofun, nofun⟩, [], ?_, ?_⟩, nofun, ?_⟩
    . intro ⟨task, hget, _⟩
      cases hget
    . exact .opened rfl rfl rfl rfl nofun
    . exact ⟨rfl, fun _ => rfl, nofun, fun _ => rfl, nofun, Nat.zero_le _, Nat.zero_le _⟩
    . unfold DataContextOptions.validate at hvalid
      split at hvalid
      . cases hvalid
      . split at hvalid
        . cases hvalid
        . omega

theorem Inv.bounded (hinv : context.Inv options) (hgood : context.Good) : context.Bounded := by
  obtain ⟨remaining, hphase, haccount⟩ := hinv.account
  intro task hmem
  have hcleanups := haccount.cleanups
  obtain ⟨index, hget⟩ := List.mem_iff_getElem?.mp hmem
  unfold ContextTask.running
  split
  . next hcall hpoint =>
    obtain ⟨_, hstage, _⟩ := hphase.of_active hget (by unfold ContextTask.active; rw [hcall, hpoint])
    rw [hpoint] at hstage
    obtain ⟨_, _, htaken, hremaining⟩ := hstage
    have hlength := haccount.remaining
    rw [hgood htaken, ← hremaining, List.length_nil, Nat.zero_add]
    exact hlength
  . rw [List.length_nil]
    exact hcleanups

theorem Inv.finished (hinv : context.Inv options) (hfinished : context.Finished)
    : context.taken = true
      ∧ context.registered = (context.ran.map CleanupRun.call).reverse ++ context.cleanups.map RegisteredCleanup.call := by
  obtain ⟨remaining, hphase, haccount⟩ := hinv.account
  have hsplit := haccount.split
  cases hphase with
  | opened hopen =>
    obtain ⟨task, hmem, hclosed⟩ := List.any_eq_true.mp hfinished.closed
    rw [hinv.tasked.closed task hmem (.inl hclosed)] at hopen
    cases hopen
  | closing index task _ hget hactive =>
    obtain ⟨result, hreturned⟩ := hfinished.returned task (List.mem_of_getElem? hget)
    rw [active_returned hreturned] at hactive
    cases hactive
  | closed _ htaken hnil =>
    rw [hnil] at hsplit
    exact ⟨htaken, hsplit⟩

theorem Inv.cleaned (hinv : context.Inv options) (hfinished : context.Finished)
    : context.Cleaned ↔ context.Good := by
  obtain ⟨remaining, _, haccount⟩ := hinv.account
  obtain ⟨htaken, hsplit⟩ := hinv.finished hfinished
  have hnodup := hinv.tasked.nodup
  rw [hsplit, List.nodup_append] at hnodup
  constructor
  . intro hcleaned _
    apply List.eq_nil_iff_forall_not_mem.mpr
    intro cleanup hmem
    have hcall : cleanup.call ∈ context.cleanups.map RegisteredCleanup.call := List.mem_map_of_mem hmem
    have hregistered : cleanup.call ∈ context.registered := by
      rw [hsplit]
      exact List.mem_append_right _ hcall
    obtain ⟨task, hget, hflag⟩ := (hinv.tasked.registered _).mp hregistered
    have honce := hcleaned.once _ task hget hflag
    have hran : cleanup.call ∈ context.ran.map CleanupRun.call := by
      apply List.count_pos_iff.mp
      omega
    exact hnodup.2.2 _ (List.mem_reverse.mpr hran) _ hcall rfl
  . intro hgood
    rw [hgood htaken, List.map_nil, List.append_nil] at hsplit
    have horder : context.ran.map CleanupRun.call = context.registered.reverse := by
      rw [hsplit, List.reverse_reverse]
    constructor
    . intro index task hget hflag
      rw [horder]
      apply List.count_eq_one_of_mem (List.nodup_reverse.mpr hinv.tasked.nodup)
      rw [List.mem_reverse]
      exact (hinv.tasked.registered index).mpr ⟨task, hget, hflag⟩
    . exact horder
    . exact haccount.reasons
    . intro task hmem hafter
      unfold ContextTask.registered
      split
      . next cleanup hcall hpoint =>
        cases hinv.tasked.late task hmem hafter cleanup hcall with
        | inl hstart =>
          rw [hpoint] at hstart
          cases hstart
        | inr herror =>
          obtain ⟨error, herror⟩ := herror
          rw [hpoint] at herror
          cases herror
      . rfl

/--
Every accepted cleanup runs exactly once, newest first and with the one reason, and no more are held than the limit,
exactly in the runs in which no registration pushes its cleanup after close took the list.
-/
theorem cleaned_iff_timely (hopen : openContext options = .ok start)
    (hrun : Reach.exec step start moves = some context) (hfinished : context.Finished)
    : (context.Cleaned ∧ ∀ (front back : List ContextMove) (state : CleanupContext), moves = front ++ back →
        Reach.exec step start front = some state → state.Bounded)
      ↔ Reach.execWhen step timely start moves = some context := by
  obtain ⟨hinv, hgood, hmax⟩ := open_inv hopen
  have hstep : ∀ (s : CleanupContext) (a : ContextMove) (t : CleanupContext), s.Inv options → s.step a = some t →
      t.Inv options ∧ (t.Good ↔ s.Good ∧ s.timely a = true) := fun s a t => step_inv hmax
  have hlater : context.Inv options := Reach.exec_invariant (fun s a t hs ht => (hstep s a t hs ht).1) hinv hrun
  have hiff := Reach.exec_iff_execWhen hstep hinv hrun
  rw [hlater.cleaned hfinished, hiff]
  constructor
  . exact fun h => h.1.2
  . intro hwhen
    refine ⟨⟨hgood, hwhen⟩, ?_⟩
    intro front back state hmoves hfront
    rw [hmoves, Reach.execWhen_append, Option.bind_eq_some_iff] at hwhen
    obtain ⟨middle, hmiddle, _⟩ := hwhen
    have hsame := Reach.exec_of_execWhen hmiddle
    rw [hfront] at hsame
    cases hsame
    have hstate : state.Inv options := Reach.exec_invariant (fun s a t hs ht => (hstep s a t hs ht).1) hinv hfront
    exact hstate.bounded ((Reach.exec_iff_execWhen hstep hinv hfront).mpr ⟨hgood, hmiddle⟩)

-- A registration that begins before the close and pushes after it: its cleanup never runs.
theorem late_registration_lost
    : ∃ start context, openContext ⟨128, 64⟩ = .ok start
      ∧ Reach.exec step start [.call (.registerCleanup fun _ => .done), .call .close, .step 0, .step 1, .step 1, .step 1,
          .step 1, .step 1, .step 1, .step 0] = some context
      ∧ context.Finished ∧ ¬ context.Cleaned := by
  refine ⟨_, _, rfl, rfl, ⟨?_, rfl⟩, ?_⟩
  . intro task hmem
    simp only [goTo, List.nil_append, List.cons_append, List.set_cons_zero, List.set_cons_succ, List.mem_cons,
      List.not_mem_nil, or_false] at hmem
    cases hmem with
    | inl hregister => exact ⟨_, congrArg ContextTask.point hregister⟩
    | inr hclose => exact ⟨_, congrArg ContextTask.point hclose⟩
  . intro hcleaned
    have honce := hcleaned.once 0 _ rfl rfl
    exact absurd honce (by decide)

-- Two registrations, the second pushed first, a cancellation, the close, and a registration after it.
def twoCleanups : List ContextMove := [
  .call (.registerCleanup fun _ => .done), .call (.registerCleanup fun _ => .failed "socket"),
  .call (.cancel .clientDisconnect), .call .close, .step 0, .step 1, .step 1, .step 0, .step 2, .step 2, .step 3,
  .step 3, .step 3, .step 3, .step 3, .step 3, .step 3, .step 3, .call (.registerCleanup fun _ => .done), .step 4
]

theorem cleaned_iff_timely_twoCleanups
    : ∃ start context, openContext ⟨128, 64⟩ = .ok start
      ∧ Reach.exec step start twoCleanups = some context
      ∧ context.ran = [⟨0, .clientDisconnect, .done⟩, ⟨1, .clientDisconnect, .failed "socket"⟩]
      ∧ context.Cleaned := by
  obtain ⟨start, context, hopen, hrun, hwhen, hran, hfinished⟩ : ∃ start context, openContext ⟨128, 64⟩ = .ok start
      ∧ Reach.exec step start twoCleanups = some context
      ∧ Reach.execWhen step timely start twoCleanups = some context
      ∧ context.ran = [⟨0, .clientDisconnect, .done⟩, ⟨1, .clientDisconnect, .failed "socket"⟩]
      ∧ context.Finished := by
    refine ⟨_, _, rfl, rfl, rfl, rfl, ?_, rfl⟩
    intro task hmem
    simp only [goTo, List.nil_append, List.cons_append, List.set_cons_zero, List.set_cons_succ, List.mem_cons,
      List.not_mem_nil, or_false] at hmem
    obtain hfirst | hsecond | hcancel | hclose | hlate := hmem
    . exact ⟨_, congrArg ContextTask.point hfirst⟩
    . exact ⟨_, congrArg ContextTask.point hsecond⟩
    . exact ⟨_, congrArg ContextTask.point hcancel⟩
    . exact ⟨_, congrArg ContextTask.point hclose⟩
    . exact ⟨_, congrArg ContextTask.point hlate⟩
  exact ⟨start, context, hopen, hrun, hran, ((cleaned_iff_timely hopen hrun hfinished).mpr hwhen).1⟩

end Runs

end CleanupContext

end Data

end Pliego
