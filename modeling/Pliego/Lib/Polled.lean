import Mathlib.Data.List.Basic

/-!
Machines that a consumer polls while events happen around them: what the polls of a run have handed out, told from
what a state still owes.
-/

namespace Polled

inductive Poll (α : Type) where
  | pending
  | item (a : α)
  | done
  | panicked
  deriving DecidableEq

inductive Label (ε : Type) where
  | poll
  | event (e : ε)

structure Machine (σ ε α : Type) where
  poll : σ → Poll α × σ
  event : σ → ε → σ

variable {σ ε α : Type}

def Machine.run (m : Machine σ ε α) (s : σ) (labels : List (Label ε)) : List (Poll α) × σ :=
  match labels with
  | [] => ([], s)
  | .poll :: rest =>
    let polled := m.poll s
    let ran := m.run polled.2 rest
    (polled.1 :: ran.1, ran.2)
  | .event e :: rest => m.run (m.event s e) rest

def delivered (polls : List (Poll α)) : List α :=
  match polls with
  | [] => []
  | .item a :: rest => a :: delivered rest
  | _ :: rest => delivered rest

def answers (polls : List (Poll α)) : Nat :=
  match polls with
  | [] => 0
  | .pending :: rest => answers rest
  | _ :: rest => answers rest + 1

theorem answers_cons {poll : Poll α} (h : poll ≠ .pending) (rest : List (Poll α))
    : answers (poll :: rest) = answers rest + 1 := by
  cases poll with
  | pending => exact absurd rfl h
  | _ => rfl

def Answers (poll : Poll α) (before after : List α) : Prop :=
  match poll with
  | .pending => after = before
  | .item a => before = a :: after
  | .done => before = [] ∧ after = []
  | .panicked => False

-- `owed` is what a state that keeps the invariant still hands out.
structure Machine.Owes (m : Machine σ ε α) (inv : σ → Prop) (owed : σ → List α) : Prop where
  event : ∀ s e, inv s → inv (m.event s e) ∧ owed (m.event s e) = owed s
  poll : ∀ s, inv s → inv (m.poll s).2 ∧ Answers (m.poll s).1 (owed s) (owed (m.poll s).2)

namespace Machine.Owes

variable {m : Machine σ ε α} {inv : σ → Prop} {owed : σ → List α} (h : m.Owes inv owed)
include h

theorem run_inv {s : σ} (labels : List (Label ε)) (hs : inv s)
    : inv (m.run s labels).2 := by
  induction labels generalizing s with
  | nil => exact hs
  | cons label rest ih =>
    cases label with
    | poll => exact ih (h.poll s hs).1
    | event e => exact ih (h.event s e hs).1

theorem run_take {s : σ} (labels : List (Label ε)) (hs : inv s)
    : delivered (m.run s labels).1 = (owed s).take (answers (m.run s labels).1) := by
  induction labels generalizing s with
  | nil => simp [Machine.run, delivered, answers]
  | cons label rest ih =>
    cases label with
    | event e =>
      have hevent := h.event s e hs
      rw [← hevent.2]
      exact ih hevent.1
    | poll =>
      have hpoll := h.poll s hs
      have hrest := ih hpoll.1
      unfold Machine.run
      dsimp only
      cases hanswer : (m.poll s).1 with
      | pending =>
        rw [hanswer] at hpoll
        rw [← (show _ = owed s from hpoll.2)]
        exact hrest
      | item a =>
        rw [hanswer] at hpoll
        rw [show owed s = _ from hpoll.2]
        simp only [delivered, answers, List.take_succ_cons, hrest]
      | done =>
        rw [hanswer] at hpoll
        rw [hpoll.2.2, List.take_nil] at hrest
        rw [hpoll.2.1, List.take_nil]
        exact hrest
      | panicked =>
        rw [hanswer] at hpoll
        exact hpoll.2.elim

theorem run_panicked {s : σ} (labels : List (Label ε)) (hs : inv s)
    : .panicked ∉ (m.run s labels).1 := by
  induction labels generalizing s with
  | nil => exact List.not_mem_nil
  | cons label rest ih =>
    cases label with
    | event e => exact ih (h.event s e hs).1
    | poll =>
      have hpoll := h.poll s hs
      unfold Machine.run
      dsimp only
      intro hmem
      cases List.mem_cons.mp hmem with
      | inl heq =>
        rw [← heq] at hpoll
        exact hpoll.2
      | inr hrest => exact ih hpoll.1 hrest

end Machine.Owes

end Polled
