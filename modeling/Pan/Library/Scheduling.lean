import Pan.Library.Machine
import Mathlib.Data.Fintype.Basic
import Mathlib.Data.Finset.Lattice.Fold
import Mathlib.Order.WellFounded

/-- The schedule goes through `n` rounds, in each of which every party has a turn. -/
inductive FairRounds {ε : Type*} : ℕ → List ε → Prop where
  | zero (es : List ε) : FairRounds 0 es
  | succ {n : ℕ} {round es : List ε} (h : ∀ e, e ∈ round) (hes : FairRounds n es) :
      FairRounds (n + 1) (round ++ es)

namespace FairRounds

variable {ε : Type*} {n m : ℕ} {es : List ε}

/-- Turns before the first round are part of it. -/
theorem append_left (h : FairRounds n es) (pre : List ε) : FairRounds n (pre ++ es) := by
  cases h with
  | zero => exact .zero _
  | @succ n round es hround hes =>
    rw [← List.append_assoc]
    exact .succ (fun e => List.mem_append_right pre (hround e)) hes

theorem mono (h : FairRounds n es) (hm : m ≤ n) : FairRounds m es := by
  induction h generalizing m with
  | zero es =>
    obtain rfl : m = 0 := by omega
    exact .zero es
  | @succ n round es hround hes ih =>
    cases m with
    | zero => exact .zero _
    | succ m => exact .succ hround (ih (by omega))

/-- There are such schedules. -/
theorem exists_rounds [Fintype ε] (n : ℕ) : ∃ es : List ε, FairRounds n es := by
  induction n with
  | zero => exact ⟨[], .zero []⟩
  | succ n ih =>
    obtain ⟨es, hes⟩ := ih
    exact ⟨(Finset.univ : Finset ε).toList ++ es, .succ (fun e => by simp) hes⟩

end FairRounds

namespace Machine

variable {σ ε : Type*} {step : σ → ε → σ}

/-- In a round from a state in which some party can move there is a first move. -/
theorem exists_first_move {can : σ → ε → Prop} (hstay : ∀ s e, ¬can s e → step s e = s) {s : σ}
    {round : List ε} (hmove : ∃ e ∈ round, can s e) :
    ∃ pre e post, round = pre ++ e :: post ∧ can s e ∧ pre.foldl step s = s := by
  induction round with
  | nil =>
    obtain ⟨e, he, -⟩ := hmove
    cases he
  | cons e round ih =>
    by_cases he : can s e
    · exact ⟨[], e, round, rfl, he, rfl⟩
    · obtain ⟨e', he', hcan⟩ := hmove
      have hmem : e' ∈ round := by
        rcases List.mem_cons.mp he' with rfl | h
        · exact absurd hcan he
        · exact h
      obtain ⟨pre, e'', post, rfl, hcan', hpre⟩ := ih ⟨e', hmem, hcan⟩
      refine ⟨e :: pre, e'', post, rfl, hcan', ?_⟩
      rw [List.foldl_cons, hstay s e he, hpre]

/-- The rule of liveness. Moves cannot go on forever, some party can move from every state that is
not done, and what is done stays so: then every schedule of enough rounds gets there. -/
theorem exists_rounds_done [Fintype ε] {can : σ → ε → Prop} {I done : σ → Prop}
    (hstay : ∀ s e, ¬can s e → step s e = s)
    (hwf : WellFounded fun s' s => ∃ e, can s e ∧ s' = step s e)
    (hI : ∀ s e, I s → I (step s e)) (hdone : ∀ s e, done s → done (step s e))
    (hmove : ∀ s, I s → ¬done s → ∃ e, can s e) (s : σ) (hs : I s) :
    ∃ n, ∀ es, FairRounds n es → done (es.foldl step s) := by
  classical
  have hdones : ∀ (es : List ε) s, done s → done (es.foldl step s) := by
    intro es
    induction es with
    | nil => exact fun _ h => h
    | cons e es ih => exact fun s h => ih _ (hdone s e h)
  induction s using hwf.induction with
  | _ s ih =>
    by_cases hend : done s
    · exact ⟨0, fun es _ => hdones es s hend⟩
    -- after any first move some number of rounds is enough, so the most of these is
    have hrounds : ∀ e, ∃ n, can s e → ∀ es, FairRounds n es → done (es.foldl step (step s e)) := by
      intro e
      by_cases he : can s e
      · obtain ⟨n, hn⟩ := ih _ ⟨e, he, rfl⟩ (hI s e hs)
        exact ⟨n, fun _ => hn⟩
      · exact ⟨0, fun h => absurd h he⟩
    choose n hn using hrounds
    refine ⟨Finset.univ.sup n + 1, fun es hes => ?_⟩
    obtain ⟨e, he⟩ := hmove s hs hend
    cases hes with
    | @succ _ round es hround hes =>
      obtain ⟨pre, e', post, rfl, hcan, hpre⟩ := exists_first_move hstay ⟨e, hround e, he⟩
      rw [List.append_assoc, List.foldl_append, hpre, List.cons_append, List.foldl_cons]
      exact hn e' hcan _ ((hes.mono (Finset.le_sup (Finset.mem_univ e'))).append_left post)

end Machine
