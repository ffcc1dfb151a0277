import Mathlib.Logic.Basic

/-!
Runs of a labelled transition system, restricted to the steps that meet a guard, and the rule that
carries an invariant along them.
-/

namespace Reach

variable {σ l : Type}

inductive Under (init : σ → Prop) (step : σ → l → Option σ) (guard : σ → l → Prop) : σ → Prop where
  | init {s : σ} (h : init s) : Under init step guard s
  | step {s t : σ} {a : l} (hs : Under init step guard s) (hguard : guard s a)
    (hstep : step s a = some t) : Under init step guard t

abbrev Any (init : σ → Prop) (step : σ → l → Option σ) : σ → Prop :=
  Under init step (fun _ _ => True)

variable {init : σ → Prop} {step : σ → l → Option σ} {guard : σ → l → Prop}

theorem Under.invariant {inv : σ → Prop} (hinit : ∀ s, init s → inv s)
    (hstep : ∀ s a t, inv s → guard s a → step s a = some t → inv t) {s : σ} (h : Under init step guard s)
    : inv s := by
  induction h with
  | init h => exact hinit _ h
  | step _ hguard hs ih => exact hstep _ _ _ ih hguard hs

def exec (step : σ → l → Option σ) (s : σ) (labels : List l) : Option σ :=
  match labels with
  | [] => some s
  | a :: rest =>
    match step s a with
    | none => none
    | some t => exec step t rest

theorem exec_any {s t : σ} (labels : List l) (hs : Any init step s) (h : exec step s labels = some t)
    : Any init step t := by
  induction labels generalizing s with
  | nil =>
    cases h
    exact hs
  | cons a rest ih =>
    unfold exec at h
    split at h
    . simp at h
    . next hstep => exact ih (.step hs trivial hstep) h

theorem exec_under {s t : σ} (labels : List l) (hs : Under init step guard s)
    (hguard : ∀ s, ∀ a ∈ labels, guard s a) (h : exec step s labels = some t)
    : Under init step guard t := by
  induction labels generalizing s with
  | nil =>
    cases h
    exact hs
  | cons a rest ih =>
    unfold exec at h
    split at h
    . simp at h
    . next hstep =>
      exact ih (.step hs (hguard s a List.mem_cons_self) hstep) (fun s b hb => hguard s b (List.mem_cons_of_mem _ hb)) h

def execWhen (step : σ → l → Option σ) (guard : σ → l → Bool) (s : σ) (labels : List l)
    : Option σ :=
  match labels with
  | [] => some s
  | a :: rest =>
    if guard s a then
      match step s a with
      | none => none
      | some t => execWhen step guard t rest
    else
      none

theorem execWhen_under {guard : σ → l → Bool} {s t : σ} (labels : List l)
    (hs : Under init step (fun s a => guard s a = true) s) (h : execWhen step guard s labels = some t)
    : Under init step (fun s a => guard s a = true) t := by
  induction labels generalizing s with
  | nil =>
    cases h
    exact hs
  | cons a rest ih =>
    unfold execWhen at h
    split at h
    . next hguard =>
      split at h
      . simp at h
      . next hstep => exact ih (.step hs hguard hstep) h
    . simp at h

theorem exec_of_execWhen {guard : σ → l → Bool} {s t : σ} {labels : List l}
    (h : execWhen step guard s labels = some t)
    : exec step s labels = some t := by
  induction labels generalizing s with
  | nil => exact h
  | cons a rest ih =>
    unfold execWhen at h
    unfold exec
    split at h
    . split at h
      . simp at h
      . exact ih h
    . simp at h

theorem execWhen_append {guard : σ → l → Bool} {s : σ} {front back : List l}
    : execWhen step guard s (front ++ back) = (execWhen step guard s front).bind (execWhen step guard · back) := by
  induction front generalizing s with
  | nil => rfl
  | cons a front ih =>
    rw [List.cons_append, execWhen, execWhen]
    split
    . split
      . rfl
      . exact ih
    . rfl

theorem Under.mono {guard' : σ → l → Prop} {s : σ} (h : Under init step guard s)
    (himp : ∀ s a, guard s a → guard' s a)
    : Under init step guard' s := by
  induction h with
  | init h => exact .init h
  | step _ hguard hstep ih => exact .step ih (himp _ _ hguard) hstep

def execUnder (step : σ → l → Option σ) (guard : σ → Bool) (s : σ) (labels : List l) : Option σ :=
  execWhen step (fun s _ => guard s) s labels

theorem execUnder_under {guard : σ → Bool} {s t : σ} (labels : List l)
    (hs : Under init step (fun s _ => guard s = true) s) (h : execUnder step guard s labels = some t)
    : Under init step (fun s _ => guard s = true) t :=
  execWhen_under labels hs h

theorem exec_iff_execWhen {inv good : σ → Prop} {guard : σ → l → Bool}
    (hstep : ∀ s a t, inv s → step s a = some t → inv t ∧ (good t ↔ good s ∧ guard s a = true)) {s t : σ}
    {labels : List l} (hs : inv s) (h : exec step s labels = some t)
    : good t ↔ good s ∧ execWhen step guard s labels = some t := by
  induction labels generalizing s with
  | nil =>
    cases h
    exact (and_iff_left rfl).symm
  | cons a rest ih =>
    unfold exec at h
    unfold execWhen
    split at h
    . cases h
    . next middle hmiddle =>
      obtain ⟨hinv, hgood⟩ := hstep s a middle hs hmiddle
      rw [ih hinv h, hgood, and_assoc]
      apply and_congr_right
      intro _
      split
      . next hguard => exact and_iff_right hguard
      . next hguard =>
        apply iff_of_false
        . exact fun hboth => hguard hboth.1
        . intro hnone
          cases hnone

theorem exec_invariant {inv : σ → Prop} (hstep : ∀ s a t, inv s → step s a = some t → inv t) {s t : σ}
    {labels : List l} (hs : inv s) (h : exec step s labels = some t)
    : inv t := by
  induction labels generalizing s with
  | nil =>
    cases h
    exact hs
  | cons a rest ih =>
    unfold exec at h
    split at h
    . cases h
    . next middle hmiddle => exact ih (hstep s a middle hs hmiddle) h

end Reach
