import Pan.Library.Effects
import Mathlib.Data.Option.Basic

universe u

namespace Eff

variable {Λ W O α α' β β' γ : Type u} {G : Λ → Prop} {V : Λ → Option γ}

/-- As long as every action of `x` is good, `y` looks the same. -/
def Simulates (G : Λ → Prop) (V : Λ → Option γ) (R : α → β → Prop) (x : Eff Λ W α)
    (y : Eff Λ W β) : Prop :=
  ∀ w, (∀ a ∈ (x w).1, G a) → (x w).1.filterMap V = (y w).1.filterMap V ∧
    Option.Rel (fun r q => R r.1 q.1 ∧ r.2 = q.2) (x w).2 (y w).2

namespace Simulates

variable {R : α → β → Prop} {S : α' → β' → Prop}

theorem refl {R : α → α → Prop} (hR : ∀ a, R a a) (x : Eff Λ W α) : Simulates G V R x x := by
  intro w _
  refine ⟨rfl, ?_⟩
  cases (x w).2 with
  | none => exact .none
  | some r => exact .some ⟨hR r.1, rfl⟩

theorem pure {a : α} {b : β} (hR : R a b) :
    Simulates G V R (pure a : Eff Λ W α) (pure b) :=
  fun _ _ => ⟨rfl, .some ⟨hR, rfl⟩⟩

theorem never : Simulates G V R (never : Eff Λ W α) never := fun _ _ => ⟨rfl, .none⟩

/-- Actions that look the same; the first is good. -/
theorem emit {a b : Λ} (hV : V a = V b) :
    Simulates G V (fun _ _ => G a) (emit a : Eff Λ W PUnit) (emit b) := by
  intro w hG
  have ha : G a := hG a (List.mem_singleton.mpr rfl)
  refine ⟨?_, .some ⟨ha, rfl⟩⟩
  simp [List.filterMap_cons, hV]

theorem ask {f : W → α × W} {g : W → β × W} (h : ∀ w, R (f w).1 (g w).1 ∧ (f w).2 = (g w).2) :
    Simulates G V R (ask f) (ask g) :=
  fun w _ => ⟨rfl, .some (h w)⟩

theorem bind {x : Eff Λ W α} {y : Eff Λ W β} {f : α → Eff Λ W α'} {g : β → Eff Λ W β'}
    (hx : Simulates G V R x y) (hf : ∀ a b, R a b → Simulates G V S (f a) (g b)) :
    Simulates G V S (x >>= f) (y >>= g) := by
  intro w hG
  rw [bind_eq] at hG ⊢
  rw [bind_eq]
  have hGx : ∀ a ∈ (x w).1, G a := by
    intro a ha
    apply hG a
    split
    · exact ha
    · exact List.mem_append_left _ ha
  obtain ⟨ht, hr⟩ := hx w hGx
  rcases hxw : (x w).2 with _ | ⟨a, w'⟩ <;> rcases hyw : (y w).2 with _ | ⟨b, w''⟩
  · exact ⟨ht, .none⟩
  · rw [hxw, hyw] at hr
    cases hr
  · rw [hxw, hyw] at hr
    cases hr
  · rw [hxw, hyw] at hr
    rw [hxw] at hG
    cases hr with
    | some hr =>
      obtain ⟨hR, rfl⟩ := hr
      have hGf : ∀ c ∈ (f a w').1, G c := fun c hc => hG c (List.mem_append_right _ hc)
      obtain ⟨ht', hr'⟩ := hf a b hR w' hGf
      refine ⟨?_, hr'⟩
      rw [List.filterMap_append, List.filterMap_append, ht, ht']

theorem onFst {x : Eff Λ W α} {y : Eff Λ W β} (h : Simulates G V R x y) :
    Simulates G V R (onFst x : Eff Λ (W × O) α) (onFst y) := by
  rintro ⟨w, o⟩ hG
  obtain ⟨ht, hr⟩ := h w hG
  refine ⟨ht, ?_⟩
  simp only [Eff.onFst]
  rcases hxw : (x w).2 with _ | ⟨a, w'⟩ <;> rcases hyw : (y w).2 with _ | ⟨b, w''⟩
  · exact .none
  · rw [hxw, hyw] at hr
    cases hr
  · rw [hxw, hyw] at hr
    cases hr
  · rw [hxw, hyw] at hr
    cases hr with
    | some hr =>
      obtain ⟨hR, rfl⟩ := hr
      exact .some ⟨hR, rfl⟩

/-- What is known of the first value besides. -/
theorem and_triple {x : Eff Λ W α} {y : Eff Λ W β} (h : Simulates G V R x y) {ψ : α → Prop}
    (hx : Triple (fun _ _ => True) x (fun a _ _ => ψ a) fun _ => True) :
    Simulates G V (fun a b => R a b ∧ ψ a) x y := by
  intro w hG
  obtain ⟨ht, hr⟩ := h w hG
  refine ⟨ht, ?_⟩
  have hpost := hx [] w trivial
  generalize (x w).2 = r at hr hpost ⊢
  generalize (y w).2 = q at hr ⊢
  cases hr with
  | none => exact .none
  | some hr => exact .some ⟨⟨hr.1, hpost⟩, hr.2⟩

end Simulates

end Eff
