import Mathlib.Data.Nat.Basic
import Mathlib.Order.Basic

namespace Retry

variable {ε ρ : Type*}

inductive Verdict (ε ρ : Type*) where
  | stop (r : ρ)
  | again (e : ε)
  | stuck

def Verdict.IsAgain (v : Verdict ε ρ) : Prop := ∃ e, v = .again e

def Verdict.settle (giveUp : Option ε → ρ) : Verdict ε ρ → Option ρ
  | .stop r => some r
  | .again e => some (giveUp (some e))
  | .stuck => none

variable (verdict : ℕ → Verdict ε ρ) (giveUp : Option ε → ρ)

/-- At most so many tries from number `i` on, after the error of the one before: how many have been
made in all, and what came of it. -/
def run : ℕ → ℕ → Option ε → ℕ × Option ρ
  | 0, i, last => (i, some (giveUp last))
  | n + 1, i, _ =>
    match verdict i with
    | .stop r => (i + 1, some r)
    | .again e => run n (i + 1) (some e)
    | .stuck => (i + 1, none)

/-- The tries go as far as number `k`: those before it ask for another, and it does not or is the
last that is allowed. -/
structure StopsAt (n i k : ℕ) : Prop where
  le : i ≤ k
  lt : k < i + n
  again : ∀ j, i ≤ j → j < k → (verdict j).IsAgain
  last : ¬(verdict k).IsAgain ∨ k + 1 = i + n

variable {verdict giveUp}

theorem run_eq_of_stopsAt {n i k : ℕ} (h : StopsAt verdict n i k) (last : Option ε) :
    run verdict giveUp n i last = (k + 1, (verdict k).settle giveUp) := by
  induction n generalizing i last with
  | zero => exact absurd (h.le.trans_lt h.lt) (lt_irrefl i)
  | succ n ih =>
    rw [run]
    rcases Nat.eq_or_lt_of_le h.le with rfl | hlt
    · cases hv : verdict i with
      | stop r => rfl
      | stuck => rfl
      | again e =>
        have hn : n = 0 := by
          rcases h.last with hagain | hlast
          · exact absurd ⟨e, hv⟩ hagain
          · omega
        rw [hn]
        rfl
    · obtain ⟨e, he⟩ := h.again i (le_refl i) hlt
      rw [he]
      refine ih ⟨hlt, ?_, ?_, ?_⟩ (some e)
      · have := h.lt
        omega
      · intro j hij hjk
        exact h.again j (Nat.le_of_succ_le hij) hjk
      · rw [show i + 1 + n = i + (n + 1) by omega]
        exact h.last

theorem exists_stopsAt (verdict : ℕ → Verdict ε ρ) {n : ℕ} (hn : 0 < n) (i : ℕ) :
    ∃ k, StopsAt verdict n i k := by
  induction n generalizing i with
  | zero => exact absurd hn (lt_irrefl 0)
  | succ n ih =>
    by_cases hagain : (verdict i).IsAgain ∧ 0 < n
    · obtain ⟨k, hk⟩ := ih hagain.2 (i + 1)
      refine ⟨k, ?_, ?_, ?_, ?_⟩
      · exact Nat.le_of_succ_le hk.le
      · have := hk.lt
        omega
      · intro j hij hjk
        rcases Nat.eq_or_lt_of_le hij with rfl | hlt
        · exact hagain.1
        · exact hk.again j hlt hjk
      · rw [show i + (n + 1) = i + 1 + n by omega]
        exact hk.last
    · refine ⟨i, le_refl i, by omega, fun j hij hji => absurd hij (not_le.mpr hji), ?_⟩
      by_cases hv : (verdict i).IsAgain
      · right
        have : ¬0 < n := fun h => hagain ⟨hv, h⟩
        omega
      · exact Or.inl hv

/-- An attempt that is not for another one is not passed. -/
theorem StopsAt.le_of_not_isAgain {n i k j : ℕ} (h : StopsAt verdict n i k) (hij : i ≤ j)
    (hj : ¬(verdict j).IsAgain) : k ≤ j := by
  by_contra hlt
  exact hj (h.again j hij (not_le.mp hlt))

end Retry
