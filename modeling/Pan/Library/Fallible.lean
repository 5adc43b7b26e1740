import Mathlib.Logic.Basic

/-- A computation on a world that may fail. -/
abbrev Fallible (W ε α : Type) : Type := ExceptT ε (StateT W Option) α

namespace Fallible

variable {W ε ε' α β : Type}

def result (r : Except ε α) : Fallible W ε α := ExceptT.mk (pure r)

/-- Call out to the world, with its error under another name. -/
def attempt (f : ε' → ε) (x : StateT W Option (Except ε' α)) : Fallible W ε α :=
  ExceptT.mk (Except.mapError f <$> x)

def mapErrors (f : ε' → ε) (x : Fallible W ε' α) : Fallible W ε α := attempt f x.run

/-- The computation fails with no errors but those of `E`. -/
def FailsOnly (E : ε → Prop) (x : Fallible W ε α) : Prop :=
  ∀ w e w', x.run.run w = some (.error e, w') → E e

/-- A result that comes after another one comes after a success. -/
theorem exists_of_bind_eq_ok {x : Except ε α} {f : α → Except ε β} {b : β}
    (h : (x >>= f) = .ok b) : ∃ a, x = .ok a ∧ f a = .ok b := by
  cases x with
  | error e => cases h
  | ok a => exact ⟨a, rfl, h⟩

theorem run_bind (x : Fallible W ε α) (f : α → Fallible W ε β) (w : W) :
    (x >>= f).run.run w = (x.run.run w).bind fun r => match r with
      | (.ok a, w') => (f a).run.run w'
      | (.error e, w') => some (.error e, w') := by
  rw [ExceptT.run_bind, StateT.run_bind]
  cases x.run.run w with
  | none => rfl
  | some r =>
    obtain ⟨e | a, w'⟩ := r <;> rfl

theorem run_attempt (f : ε' → ε) (x : StateT W Option (Except ε' α)) (w : W) :
    (attempt f x).run.run w = (x.run w).map fun r => (r.1.mapError f, r.2) := by
  change (Except.mapError f <$> x).run w = _
  rw [StateT.run_map]
  rfl

/-! ## What a run has come to -/

section Outcomes

variable {w w' : W}

theorem bind_eq_ok {x : Fallible W ε α} {f : α → Fallible W ε β} {b : β} :
    (x >>= f).run.run w = some (.ok b, w') ↔
      ∃ a w₁, x.run.run w = some (.ok a, w₁) ∧ (f a).run.run w₁ = some (.ok b, w') := by
  rw [run_bind]
  cases hx : x.run.run w with
  | none => simp
  | some r =>
    obtain ⟨e | a, w₁⟩ := r
    · simp
    · constructor
      · exact fun h => ⟨a, w₁, rfl, h⟩
      · rintro ⟨a', w₂, heq, h⟩
        cases heq
        exact h

/-- A computation fails in its first part, or in the second after a success of the first. -/
theorem bind_eq_error {x : Fallible W ε α} {f : α → Fallible W ε β} {e : ε} :
    (x >>= f).run.run w = some (.error e, w') ↔ x.run.run w = some (.error e, w') ∨
      ∃ a w₁, x.run.run w = some (.ok a, w₁) ∧ (f a).run.run w₁ = some (.error e, w') := by
  rw [run_bind]
  cases hx : x.run.run w with
  | none => simp
  | some r =>
    obtain ⟨e' | a, w₁⟩ := r
    · simp
    · constructor
      · exact fun h => Or.inr ⟨a, w₁, rfl, h⟩
      · rintro (h | ⟨a', w₂, heq, h⟩)
        · cases h
        · cases heq
          exact h

/-- A computation that begins with a result ends with its error, or goes on. -/
theorem result_bind_cases {r : Except ε α} {f : α → Fallible W ε β} {answer : Except ε β}
    (h : (result r >>= f).run.run w = some (answer, w')) :
    (∃ e, r = .error e ∧ answer = .error e ∧ w' = w) ∨
      ∃ a, r = .ok a ∧ (f a).run.run w = some (answer, w') := by
  cases r with
  | error e =>
    cases h
    exact Or.inl ⟨e, rfl, rfl, rfl⟩
  | ok a => exact Or.inr ⟨a, rfl, h⟩

/-- A computation that begins with a look at the world goes on. -/
theorem lift_bind_cases {x : StateT W Option α} {f : α → Fallible W ε β} {answer : Except ε β}
    (h : ((ExceptT.lift x : Fallible W ε α) >>= f).run.run w = some (answer, w')) :
    ∃ a w₁, x.run w = some (a, w₁) ∧ (f a).run.run w₁ = some (answer, w') := by
  rw [run_bind] at h
  change (((Except.ok <$> x).run w).bind _) = _ at h
  rw [StateT.run_map] at h
  cases hx : x.run w with
  | none => rw [hx] at h; cases h
  | some r =>
    rw [hx] at h
    exact ⟨r.1, r.2, rfl, h⟩

theorem attempt_eq_error {f : ε' → ε} {x : StateT W Option (Except ε' α)} {e : ε} :
    (attempt f x : Fallible W ε α).run.run w = some (.error e, w') ↔
      ∃ e', x.run w = some (.error e', w') ∧ f e' = e := by
  rw [run_attempt, Option.map_eq_some_iff]
  constructor
  · rintro ⟨⟨e' | a, w₁⟩, hx, h⟩
    · cases h
      exact ⟨e', hx, rfl⟩
    · cases h
  · rintro ⟨e', hx, rfl⟩
    exact ⟨_, hx, rfl⟩

theorem attempt_eq_ok {f : ε' → ε} {x : StateT W Option (Except ε' α)} {a : α} :
    (attempt f x : Fallible W ε α).run.run w = some (.ok a, w') ↔ x.run w = some (.ok a, w') := by
  rw [run_attempt, Option.map_eq_some_iff]
  constructor
  · rintro ⟨⟨e | a', w₁⟩, hx, h⟩
    · cases h
    · cases h
      exact hx
  · exact fun h => ⟨_, h, rfl⟩

theorem mapErrors_eq_ok {f : ε' → ε} {x : Fallible W ε' α} {a : α} :
    (mapErrors f x).run.run w = some (.ok a, w') ↔ x.run.run w = some (.ok a, w') := attempt_eq_ok

theorem lift_eq_ok {x : StateT W Option α} {a : α} :
    (ExceptT.lift x : Fallible W ε α).run.run w = some (.ok a, w') ↔ x.run w = some (a, w') := by
  change (Except.ok <$> x).run w = _ ↔ _
  rw [StateT.run_map]
  cases x.run w with
  | none => simp
  | some r => simp [Prod.ext_iff]

theorem pure_eq_ok {a b : α} :
    (pure a : Fallible W ε α).run.run w = some (.ok b, w') ↔ a = b ∧ w = w' := by
  simp

theorem result_eq_ok {r : Except ε α} {a : α} :
    (result r : Fallible W ε α).run.run w = some (.ok a, w') ↔ r = .ok a ∧ w = w' := by
  simp [result]

theorem result_mapError_eq_ok {r : Except ε' α} {f : ε' → ε} {a : α} :
    (result (r.mapError f) : Fallible W ε α).run.run w = some (.ok a, w') ↔
      r = .ok a ∧ w = w' := by
  rw [result_eq_ok]
  cases r with
  | error e => exact iff_of_false (fun h => nomatch h.1) fun h => nomatch h.1
  | ok b =>
    change Except.ok b = .ok a ∧ w = w' ↔ _
    rw [Except.ok.injEq, Except.ok.injEq]

end Outcomes

/-! ## What is kept -/

/-- Whatever comes of the computation, what `view` sees of the world stays the same. -/
def Keeps {τ : Type*} (view : W → τ) (x : Fallible W ε α) : Prop :=
  ∀ w r w', x.run.run w = some (r, w') → view w' = view w

namespace Keeps

variable {τ : Type*} {view : W → τ}

theorem pure (a : α) : Keeps view (pure a : Fallible W ε α) := by
  intro w r w' h
  cases h
  rfl

theorem throw (e : ε) : Keeps view (throw e : Fallible W ε α) := by
  intro w r w' h
  cases h
  rfl

theorem result (r : Except ε α) : Keeps view (result r : Fallible W ε α) := by
  intro w r' w' h
  cases h
  rfl

theorem attempt {f : ε' → ε} {x : StateT W Option (Except ε' α)}
    (hx : ∀ w r w', x.run w = some (r, w') → view w' = view w) :
    Keeps view (Fallible.attempt f x : Fallible W ε α) := by
  intro w r w' h
  rw [run_attempt, Option.map_eq_some_iff] at h
  obtain ⟨⟨r', w₁⟩, hrun, heq⟩ := h
  cases heq
  exact hx w r' w₁ hrun

theorem lift {x : StateT W Option α} (hx : ∀ w a w', x.run w = some (a, w') → view w' = view w) :
    Keeps view (ExceptT.lift x : Fallible W ε α) := by
  intro w r w' h
  change (Except.ok <$> x).run w = _ at h
  rw [StateT.run_map] at h
  cases hrun : x.run w with
  | none => simp [hrun] at h
  | some r' =>
    obtain ⟨a, w₁⟩ := r'
    rw [hrun] at h
    cases h
    exact hx w a w₁ hrun

theorem bind {x : Fallible W ε α} {f : α → Fallible W ε β} (hx : Keeps view x)
    (hf : ∀ a, Keeps view (f a)) : Keeps view (x >>= f) := by
  intro w r w' h
  rw [run_bind] at h
  cases hrun : x.run.run w with
  | none => simp [hrun] at h
  | some r' =>
    rw [hrun] at h
    obtain ⟨e | a, w₁⟩ := r'
    · cases h
      exact hx w _ w' hrun
    · exact (hf a w₁ r w' h).trans (hx w _ w₁ hrun)

end Keeps

/-! ## The errors -/

namespace FailsOnly

variable {E : ε → Prop} {E' : ε' → Prop}

theorem pure (a : α) : FailsOnly E (pure a : Fallible W ε α) := by
  intro w e w' h
  cases h

theorem throw {e : ε} (h : E e) : FailsOnly E (throw e : Fallible W ε α) := by
  intro w e' w' he
  cases he
  exact h

theorem lift (x : StateT W Option α) : FailsOnly E (ExceptT.lift x : Fallible W ε α) := by
  intro w e w' h
  cases hx : x.run w with
  | none => simp [hx] at h
  | some r => simp [hx] at h

theorem result {r : Except ε α} (h : ∀ e, r = .error e → E e) :
    FailsOnly E (result r : Fallible W ε α) := by
  intro w e w' he
  cases he
  exact h e rfl

theorem result_mapError (r : Except ε' α) {f : ε' → ε} (h : ∀ e, E (f e)) :
    FailsOnly E (Fallible.result (r.mapError f) : Fallible W ε α) := by
  refine result fun e he => ?_
  cases r with
  | error e' =>
    cases he
    exact h e'
  | ok a => cases he

theorem attempt_of_run {f : ε' → ε} (x : StateT W Option (Except ε' α))
    (h : ∀ w e w', x.run w = some (.error e, w') → E (f e)) :
    FailsOnly E (attempt f x : Fallible W ε α) := by
  intro w e w' he
  obtain ⟨e', hx, rfl⟩ := attempt_eq_error.mp he
  exact h w e' w' hx

theorem attempt {f : ε' → ε} (x : StateT W Option (Except ε' α)) (h : ∀ e, E (f e)) :
    FailsOnly E (Fallible.attempt f x : Fallible W ε α) :=
  attempt_of_run x fun _ e _ _ => h e

theorem mapErrors {f : ε' → ε} {x : Fallible W ε' α} (hx : FailsOnly E' x)
    (h : ∀ e, E' e → E (f e)) : FailsOnly E (mapErrors f x) :=
  attempt_of_run x.run fun w e w' he => h e (hx w e w' he)

theorem bind {x : Fallible W ε α} {f : α → Fallible W ε β} (hx : FailsOnly E x)
    (hf : ∀ a, FailsOnly E (f a)) : FailsOnly E (x >>= f) := by
  intro w e w' h
  rcases bind_eq_error.mp h with hfirst | ⟨a, w₁, -, hsecond⟩
  · exact hx w e w' hfirst
  · exact hf a w₁ e w' hsecond

end FailsOnly

end Fallible
