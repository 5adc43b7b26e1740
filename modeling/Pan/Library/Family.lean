import Pan.Library.Machine

/-- Machines with one initial state and one step for each value. A step that does not consult the
value is the same for all. -/
structure Family (δ σ ε : Type*) where
  init : σ
  step : δ → σ → ε → σ
  consults : σ → ε → Bool
  agree : ∀ d d' s e, consults s e = false → step d s e = step d' s e

namespace Family

variable {δ σ ε : Type*}

def machine (F : Family δ σ ε) (d : δ) : Machine σ ε := ⟨F.init, F.step d⟩

/-- A machine is started, or one of them takes an event. If it is the first to consult the value,
that is `probe`. -/
inductive Event (δ ε : Type*) where
  | start
  | turn (i : ℕ) (e : ε) (probe : δ)

/-- The value, once it is decided, and the machines in the order in which they were started. -/
structure System (δ σ : Type*) where
  cell : Option δ
  parts : List σ

def System.turn (F : Family δ σ ε) (s : System δ σ) (i : ℕ) (e : ε) (probe : δ) : System δ σ :=
  match s.parts[i]? with
  | none => s
  | some part =>
    let d := s.cell.getD probe
    ⟨if F.consults part e then some d else s.cell, s.parts.set i (F.step d part e)⟩

def System.step (F : Family δ σ ε) (s : System δ σ) : Event δ ε → System δ σ
  | .start => ⟨s.cell, s.parts ++ [F.init]⟩
  | .turn i e probe => s.turn F i e probe

def system (F : Family δ σ ε) : Machine (System δ σ) (Event δ ε) := ⟨⟨none, []⟩, System.step F⟩

/-- The events of one machine, with the number of machines started so far. Those that come before
its start are lost. -/
def own (i : ℕ) (r : ℕ × List ε) : Event δ ε → ℕ × List ε
  | .start => (r.1 + 1, r.2)
  | .turn j e _ => if j = i ∧ i < r.1 then (r.1, r.2 ++ [e]) else r

def owns (i : ℕ) : Machine (ℕ × List ε) (Event δ ε) := ⟨(0, []), own i⟩

def turnsOf (i : ℕ) (es : List (Event δ ε)) : List ε := ((owns i).reached es).2

variable {F : Family δ σ ε}

/-- The value may still be decided to be `d`. -/
def Undecided (d : δ) (s : System δ σ) : Prop := ∀ d', s.cell = some d' → d' = d

theorem started_eq (i : ℕ) (es : List (Event δ ε)) :
    ((owns i).reached es).1 = (F.system.reached es).parts.length := by
  induction es using List.reverseRecOn with
  | nil => rfl
  | append_singleton es e ih =>
    rw [Machine.reached_concat, Machine.reached_concat]
    cases e with
    | start =>
      show ((owns i).reached es).1 + 1 = ((F.system.reached es).parts ++ [F.init]).length
      rw [ih, List.length_append, List.length_singleton]
    | turn j e probe =>
      have hfst : ((owns i).step ((owns i).reached es) (.turn j e probe)).1 =
          ((owns i).reached es).1 := by
        show (if j = i ∧ i < _ then _ else _ : ℕ × List ε).1 = _
        split_ifs <;> rfl
      rw [hfst, ih]
      show _ = (System.turn F (F.system.reached es) j e probe).parts.length
      unfold System.turn
      split <;> simp

/-- Before its start a machine has taken no event. -/
theorem turns_eq_nil {i : ℕ} {es : List (Event δ ε)} (h : ((owns i).reached es).1 ≤ i) :
    ((owns i).reached es).2 = [] := by
  induction es using List.reverseRecOn with
  | nil => rfl
  | append_singleton es e ih =>
    rw [Machine.reached_concat] at h ⊢
    cases e with
    | start =>
      have hle : ((owns i).reached es).1 + 1 ≤ i := h
      exact ih (by omega)
    | turn j e probe =>
      change (if j = i ∧ i < _ then _ else _ : ℕ × List ε).1 ≤ i at h
      show (if j = i ∧ i < _ then _ else _ : ℕ × List ε).2 = []
      split_ifs at h ⊢ with hown
      · exact absurd hown.2 (Nat.not_lt.mpr h)
      · exact ih h

/-- Once the value is decided it stays. -/
theorem cell_step {s : System δ σ} {e : Event δ ε} {d : δ} (h : s.cell = some d) :
    (System.step F s e).cell = some d := by
  cases e with
  | start => exact h
  | turn i e probe =>
    show (System.turn F s i e probe).cell = some d
    unfold System.turn
    split
    · exact h
    · dsimp only
      rw [h, Option.getD_some, ite_self]

/-- A value that may be decided after a step may be decided before it. -/
theorem Undecided.of_step {d : δ} {s : System δ σ} {e : Event δ ε}
    (h : Undecided d (System.step F s e)) : Undecided d s :=
  fun d' hcell => h d' (cell_step hcell)

/-- Each machine has the state that it would have alone, for every value that the value may still
be. -/
theorem part_reached {d : δ} (es : List (Event δ ε)) (hd : Undecided d (F.system.reached es))
    {i : ℕ} {part : σ} (hpart : (F.system.reached es).parts[i]? = some part) :
    part = (F.machine d).reached (turnsOf i es) := by
  induction es using List.reverseRecOn generalizing part with
  | nil => simp [system] at hpart
  | append_singleton es e ih =>
    have hstarted : ((owns i).reached es).1 = _ := started_eq (F := F) i es
    rw [Machine.reached_concat] at hd hpart
    have hd' : Undecided d (F.system.reached es) := Undecided.of_step hd
    unfold turnsOf
    rw [Machine.reached_concat]
    generalize hs : F.system.reached es = s at hd hpart hstarted ih hd'
    change (System.step F s e).parts[i]? = some part at hpart
    change Undecided d (System.step F s e) at hd
    change part = (F.machine d).reached (own i ((owns i).reached es) e).2
    cases e with
    | start =>
      change (s.parts ++ [F.init])[i]? = some part at hpart
      show part = (F.machine d).reached ((owns i).reached es).2
      by_cases hi : i < s.parts.length
      · rw [List.getElem?_append_left hi] at hpart
        exact ih hd' hpart
      · rw [List.getElem?_append_right (Nat.le_of_not_lt hi)] at hpart
        have hnil : ((owns i).reached es).2 = [] := turns_eq_nil (hstarted ▸ Nat.le_of_not_lt hi)
        rw [hnil]
        exact (List.mem_singleton.mp (List.mem_of_getElem? hpart))
    | turn j e probe =>
      show part = (F.machine d).reached
        (if j = i ∧ i < ((owns i).reached es).1 then _ else _ : ℕ × List ε).2
      change (System.turn F s j e probe).parts[i]? = some part at hpart
      change Undecided d (System.turn F s j e probe) at hd
      unfold System.turn at hpart hd
      rw [hstarted]
      rcases hj : s.parts[j]? with _ | taken
      · -- an event for a machine that is not there
        rw [hj] at hpart
        have hnot : ¬(j = i ∧ i < s.parts.length) := by
          rintro ⟨rfl, hlt⟩
          rw [List.getElem?_eq_getElem hlt] at hj
          cases hj
        rw [if_neg hnot]
        exact ih hd' hpart
      · simp only [hj] at hpart hd
        by_cases hij : j = i
        · subst hij
          have hlt : j < s.parts.length := (List.getElem?_eq_some_iff.mp hj).1
          rw [List.getElem?_set_self hlt] at hpart
          rw [if_pos ⟨rfl, hlt⟩]
          dsimp only
          rw [Machine.reached_concat]
          have hbefore : taken = (F.machine d).reached ((owns j).reached es).2 := ih hd' hj
          rw [← hbefore, ← Option.some.inj hpart]
          -- a step that consults the value decides it, and the others do not depend on it
          cases hconsults : F.consults taken e with
          | false => exact F.agree _ _ _ _ hconsults
          | true =>
            have heq : s.cell.getD probe = d := hd _ (by simp only [hconsults, if_true])
            rw [heq]
            rfl
        · rw [List.getElem?_set_ne hij] at hpart
          rw [if_neg fun h => hij h.1]
          exact ih hd' hpart

/-- In every run there is a value for which each machine is where it would be alone. -/
theorem exists_value [Nonempty δ] (es : List (Event δ ε)) : ∃ d,
    (∀ d', (F.system.reached es).cell = some d' → d' = d) ∧
    ∀ i part, (F.system.reached es).parts[i]? = some part →
      part = (F.machine d).reached (turnsOf i es) := by
  rcases hcell : (F.system.reached es).cell with _ | d
  · obtain ⟨d⟩ := ‹Nonempty δ›
    have hd : Undecided d (F.system.reached es) := fun d' h => by rw [hcell] at h; cases h
    exact ⟨d, fun d' h => by (cases h), fun i part hpart => part_reached es hd hpart⟩
  · have hd : Undecided d (F.system.reached es) := fun d' h => by rw [hcell] at h; cases h; rfl
    exact ⟨d, fun d' h => by cases h; rfl, fun i part hpart => part_reached es hd hpart⟩

end Family
