import Mathlib

/-!
A worklist that visits each key once.
-/

namespace Worklist

variable {κ σ : Type} [DecidableEq κ]

def run (visit : σ → κ → σ × List κ) (fuel : Nat) (visited : List κ) (s : σ) (pending : List κ)
    : σ × List κ :=
  match fuel, pending with
  | 0, _ => (s, visited)
  | _, [] => (s, visited)
  | fuel + 1, k :: pending =>
    if k ∈ visited then
      run visit fuel visited s pending
    else
      run visit fuel (k :: visited) (visit s k).1 ((visit s k).2 ++ pending)

theorem run_inv {visit : σ → κ → σ × List κ} (inv : σ → Prop)
    (hvisit : ∀ s k, inv s → inv (visit s k).1) {fuel : Nat} {visited : List κ} {s : σ}
    {pending : List κ} (hinv : inv s)
    : inv (run visit fuel visited s pending).1 := by
  induction fuel generalizing visited s pending with
  | zero => simpa [run] using hinv
  | succ fuel ih =>
    cases pending with
    | nil => simpa [run] using hinv
    | cons k pending =>
      unfold run
      split
      . exact ih hinv
      . exact ih (hvisit s k hinv)

end Worklist
