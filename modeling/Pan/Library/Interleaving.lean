import Mathlib.Data.List.Flatten
import Mathlib.Data.List.Perm.Basic

/-- `steps` are the steps of the processes, those of each process in its own order. -/
inductive Interleaves {α : Type*} : List (List α) → List α → Prop where
  | done {ps : List (List α)} (h : ∀ p ∈ ps, p = []) : Interleaves ps []
  | step {l r : List (List α)} {a : α} {p : List α} {steps : List α}
      (h : Interleaves (l ++ p :: r) steps) : Interleaves (l ++ (a :: p) :: r) (a :: steps)

namespace Interleaves

variable {α : Type*} {ps : List (List α)} {steps : List α}

/-- No step is lost and none is made twice. -/
theorem perm (h : Interleaves ps steps) : steps.Perm ps.flatten := by
  induction h with
  | done h => rw [List.flatten_eq_nil_iff.mpr h]
  | @step l r a p steps _ ih =>
    rw [List.flatten_append, List.flatten_cons] at ih ⊢
    exact (ih.cons a).trans List.perm_middle.symm

end Interleaves
