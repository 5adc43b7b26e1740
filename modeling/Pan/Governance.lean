import Pan.Control

namespace Pan

open Eff History

namespace Loop

variable {W O : Type} {L : Loop W} {obs : Observations W O} {ctx : Context}

/-- A dispatch of the loop keeps what the pipeline keeps. -/
theorem dispatched {I : List Action → Prop} (hI : L.pipeline.Lawful L.scope I)
    {capability : String} {args : Value} {correlation : Option String} {w : W}
    {h : List Action} (hh : I h) : I (h ++ (L.dispatchInvoke capability args correlation w).1) :=
  Triple.history (Pipeline.dispatchWithInvoker_triple hI
    ⟨capability, args, correlation, L.scope⟩ rfl) (fun _ _ _ hh => hh.1) hh

/-- The actions of a dispatch are those of the pipeline. -/
theorem ofPipeline_of_mem_dispatchInvoke {capability : String} {args : Value}
    {correlation : Option String} {w : W} :
    ∀ a ∈ (L.dispatchInvoke capability args correlation w).1, a.ofPipeline = true := by
  have hstable : L.pipeline.Stable L.scope fun h => ∀ a ∈ h, a.ofPipeline = true :=
    fun h a ha _ hh => List.forall_mem_append.mpr ⟨hh, List.forall_mem_singleton.mpr ha⟩
  exact dispatched hstable.lawful (h := []) fun _ ha => nomatch ha

/-- What holds of the actions of the pipeline and of `t` holds of a dispatch that `t` follows. -/
theorem forall_mem_dispatchInvoke_append {p : Action → Prop} {t : List Action}
    (hp : ∀ {a : Action}, a.ofPipeline = true → p a) (ht : ∀ a ∈ t, p a) {capability : String}
    {args : Value} {correlation : Option String} {w : W} :
    ∀ a ∈ (L.dispatchInvoke capability args correlation w).1 ++ t, p a := by
  intro a ha
  rcases List.mem_append.mp ha with hdispatch | hafter
  · exact hp (ofPipeline_of_mem_dispatchInvoke a hdispatch)
  · exact ht a hafter

/-- An invariant of the history that the pipeline keeps and every action of the loop itself. -/
theorem Moves.keeps {I : List Action → Prop} (hI : L.pipeline.Lawful L.scope I)
    (hloop : ∀ h a, a.ofPipeline = false → I h → I (h ++ [a])) {p p' : Point} {o o' : O}
    {h t : List Action} (hm : L.Moves obs ctx p o t p' o') (hh : I h) : I (h ++ t) := by
  have hall : ∀ (t h : List Action), (∀ a ∈ t, a.ofPipeline = false) → I h → I (h ++ t) := by
    intro t
    induction t with
    | nil => intro h _ hh; rwa [List.append_nil]
    | cons a t ih =>
      intro h ht hh
      have ha : I (h ++ [a]) := hloop h a (ht a List.mem_cons_self) hh
      have := ih (h ++ [a]) (fun b hb => ht b (List.mem_cons_of_mem a hb)) ha
      rwa [List.append_assoc] at this
  cases hm with
  | effect hd | fail hd =>
    rw [← List.append_assoc]
    exact hall _ _ (by simp [Action.ofPipeline]) (dispatched hI hh)
  | hang hd => exact dispatched hI hh
  | express => exact hall _ _ (by split <;> simp [Action.ofPipeline]) hh
  | _ => exact hall _ _ (by simp [Action.ofPipeline]) hh

theorem stable_always_cleared :
    L.pipeline.Stable L.scope (Always (L.pipeline.Cleared L.scope)) :=
  fun _ _ _ ha hh => always_concat.mpr ⟨hh, ha⟩

theorem execution_eq_none_of_loop {a : Action} (ha : a.ofPipeline = false) :
    a.execution = none := by
  cases a <;> first | rfl | cases ha

/-- Every call of the executor in a run of moves comes after its clearance. -/
theorem Reaches.always_cleared {o₀ o : O} {p : Point} {h : List Action}
    (hr : L.Reaches obs ctx o₀ p o h) : Always (L.pipeline.Cleared L.scope) h := by
  apply hr.invariant (I := fun _ _ h => Always (L.pipeline.Cleared L.scope) h) (always_nil _)
  intro p o h t p' o' hh hm
  apply hm.keeps stable_always_cleared.lawful _ hh
  intro h a ha hh
  exact always_concat.mpr ⟨hh,
    Pipeline.cleared_of_execution_eq_none (execution_eq_none_of_loop ha) h⟩

/-- Every call of the executor in a run of moves is one that the governor allows. -/
theorem Reaches.permitted {o₀ o : O} {p : Point} {h : List Action}
    (hr : L.Reaches obs ctx o₀ p o h) : ∀ a ∈ h, L.pipeline.Permitted L.scope a := by
  have hlawful : L.pipeline.Lawful L.scope fun h => ∀ a ∈ h, L.pipeline.Permitted L.scope a :=
    fun h a _ _ ha hh => List.forall_mem_append.mpr ⟨hh, List.forall_mem_singleton.mpr ha⟩
  apply hr.invariant (I := fun _ _ h => ∀ a ∈ h, L.pipeline.Permitted L.scope a)
    fun _ ha => nomatch ha
  intro p o h t p' o' hh hm
  apply hm.keeps hlawful _ hh
  intro h a ha hh
  exact List.forall_mem_append.mpr ⟨hh, List.forall_mem_singleton.mpr
    (Pipeline.permitted_of_execution_eq_none (execution_eq_none_of_loop ha))⟩

/-- Every call of the executor in a span is governed, and a refused request makes none. -/
theorem execution_governed (L : Loop W) (obs : Observations W O) (ctx : Context) :
    (∀ fuel w pre a post capability args,
      (L.runSpan obs ctx fuel w).1 = pre ++ a :: post →
      a.execution = some (capability, args) →
      L.pipeline.registry.Conforms capability args ∧
        L.pipeline.clearance L.scope capability args <:+ pre) ∧
    ∀ request w, L.pipeline.Refused request w →
      (∀ a ∈ (L.pipeline.dispatch request w).1, a.execution = none) ∧
      ∀ invoker, ∀ a ∈ (L.pipeline.dispatchWithInvoker request invoker w).1,
        a.execution = none := by
  constructor
  · intro fuel w pre a post capability args ht ha
    obtain ⟨p, o, hr⟩ := exists_reaches L obs ctx fuel w
    exact hr.always_cleared pre a post ht capability args ha
  · intro request w href
    exact ⟨href.dispatch, href.dispatchWithInvoker⟩

end Loop

end Pan
