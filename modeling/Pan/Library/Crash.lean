import Pan.Library.Effects

universe u

namespace Eff

variable {W α β : Type u}

/-- From a world that satisfies `pre`, all that is passed satisfies `crash`, and a return `post`. -/
def Survives (pre : W → Prop) (x : Eff W W α) (post : α → W → Prop) (crash : W → Prop) : Prop :=
  ∀ w, pre w → (∀ v ∈ (x w).1, crash v) ∧ ∀ a w', (x w).2 = some (a, w') → post a w'

/-- What has passed some states and returned. -/
theorem survives_return {post : α → W → Prop} {crash : W → Prop} {passed : List W} {a : α} {w : W}
    (hpassed : ∀ v ∈ passed, crash v) (hpost : post a w) :
    (∀ v ∈ passed, crash v) ∧ ∀ a' w', some (a, w) = some (a', w') → post a' w' := by
  refine ⟨hpassed, ?_⟩
  rintro _ _ ⟨⟩
  exact hpost

namespace Survives

variable {pre pre' crash crash' : W → Prop} {post post' : α → W → Prop} {x : Eff W W α}

theorem pure {a : α} (h : ∀ w, pre w → post a w) :
    Survives pre (Pure.pure a : Eff W W α) post crash := by
  intro w hw
  exact survives_return (List.forall_mem_nil _) (h w hw)

theorem bind {f : α → Eff W W β} {post' : β → W → Prop} (hx : Survives pre x post crash)
    (hf : ∀ a, Survives (post a) (f a) post' crash) : Survives pre (x >>= f) post' crash := by
  intro w hw
  obtain ⟨hpassed, hpost⟩ := hx w hw
  rw [bind_eq]
  cases hr : (x w).2 with
  | none => exact ⟨hpassed, fun _ _ h => by cases h⟩
  | some r =>
    obtain ⟨a, w₁⟩ := r
    obtain ⟨hpassed', hpost'⟩ := hf a w₁ (hpost a w₁ hr)
    refine ⟨fun v hv => ?_, hpost'⟩
    exact (List.mem_append.mp hv).elim (hpassed v) (hpassed' v)

theorem weaken (hx : Survives pre x post crash) (hpre : ∀ w, pre' w → pre w)
    (hpost : ∀ a w, post a w → post' a w) (hcrash : ∀ w, crash w → crash' w) :
    Survives pre' x post' crash' := by
  intro w hw
  obtain ⟨hpassed, hreturn⟩ := hx w (hpre w hw)
  exact ⟨fun v hv => hcrash v (hpassed v hv), fun a w' h => hpost a w' (hreturn a w' h)⟩

theorem strengthen_pre (hx : Survives pre x post crash) (hpre : ∀ w, pre' w → pre w) :
    Survives pre' x post crash :=
  hx.weaken hpre (fun _ _ h => h) fun _ h => h

end Survives

end Eff
