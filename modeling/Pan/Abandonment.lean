import Pan.Governance

namespace Pan

open History

/-- The step of the loop that an action begins. -/
inductive Phase where
  | deciding
  | superseded (newer : Goal)
  | vetoed
  | enacting (goal : Goal) (decision : Decision)
  | enacted

namespace Action

def phase : Action → Option Phase
  | .decide _ _ => some .deciding
  | .superseded _ newer => some (.superseded newer)
  | .vetoed _ => some .vetoed
  | .decided goal decision => some (.enacting goal decision)
  | .enacted _ _ => some .enacted
  | _ => none

def enacts : Action → Bool
  | .invoked _ _ _ _ => true
  | .event (.pluginError _ _) => true
  | .event (.expressed _) => true
  | .token _ => true
  | a => a.ofPipeline

def isDecide : Action → Bool
  | .decide _ _ => true
  | _ => false

theorem phase_of_ofPipeline {a : Action} (ha : a.ofPipeline = true) : a.phase = none := by
  cases a <;> first | rfl | cases ha

end Action

namespace Loop

variable {W O : Type} {L : Loop W} {obs : Observations W O} {ctx : Context} {o₀ o : O}

/-! ## Only completed decisions are enacted -/

/-- An intent is enacted only while a decision is that ran to completion. -/
def EnactsDecided (pre : List Action) (a : Action) : Prop :=
  a.enacts = true → ∃ goal d, latest Action.phase pre = some (.enacting goal d)

/-- All is well so far, and a decision is being enacted. -/
def IsEnacting (goal : Goal) (d : Decision) (h : List Action) : Prop :=
  Always EnactsDecided h ∧ latest Action.phase h = some (.enacting goal d)

theorem IsEnacting.always {goal : Goal} {d : Decision} {h : List Action}
    (hh : IsEnacting goal d h) : Always EnactsDecided h :=
  hh.1

theorem IsEnacting.concat {goal : Goal} {d : Decision} {h : List Action} {a : Action}
    (hh : IsEnacting goal d h) (ha : a.phase = none) : IsEnacting goal d (h ++ [a]) := by
  have hlatest : latest Action.phase (h ++ [a]) = latest Action.phase h := by
    rw [latest_concat, ha, Option.none_or]
  refine ⟨always_concat.mpr ⟨hh.1, fun _ => ⟨goal, d, hh.2⟩⟩, ?_⟩
  rw [hlatest]
  exact hh.2

theorem IsEnacting.append {goal : Goal} {d : Decision} {h t : List Action}
    (hh : IsEnacting goal d h) (ht : ∀ a ∈ t, a.phase = none) : IsEnacting goal d (h ++ t) := by
  induction t using List.reverseRecOn with
  | nil => rwa [List.append_nil]
  | append_singleton t a ih =>
    have hinit : IsEnacting goal d (h ++ t) := ih fun b hb => ht b (by simp [hb])
    rw [← List.append_assoc]
    exact hinit.concat (ht a (by simp))

def EnactsDecidedAt : Point → List Action → Prop
  | .enacting s d _ _, h => IsEnacting s.current d h
  | _, h => Always EnactsDecided h

theorem EnactsDecidedAt.always {p : Point} {h : List Action} (hh : EnactsDecidedAt p h) :
    Always EnactsDecided h := by
  cases p <;> first | exact hh | exact hh.1

theorem Moves.enactsDecided {p p' : Point} {o o' : O} {h t : List Action}
    (hm : L.Moves obs ctx p o t p' o') (hh : EnactsDecidedAt p h) :
    EnactsDecidedAt p' (h ++ t) := by
  have hquiet : ∀ {t}, (∀ a ∈ t, a.enacts = false) → Always EnactsDecided (h ++ t) := by
    intro t ht
    exact hh.always.append_of_forall fun a ha pre he => by simp [ht a ha] at he
  cases hm with
  | decided =>
    refine ⟨hquiet (by simp [Action.enacts, Action.ofPipeline]), ?_⟩
    simp [latest, List.filterMap_cons, Action.phase]
  | effect hd | fail hd =>
    apply IsEnacting.append hh
    exact forall_mem_dispatchInvoke_append Action.phase_of_ofPipeline (by simp [Action.phase])
  | hang hd =>
    apply IsEnacting.always
    apply IsEnacting.append hh
    exact fun a ha => Action.phase_of_ofPipeline (ofPipeline_of_mem_dispatchInvoke a ha)
  | express => exact IsEnacting.append hh (by split <;> simp [Action.phase])
  | conclude => rwa [List.append_nil]
  | _ => exact hquiet (by simp [Action.enacts, Action.ofPipeline])

theorem Reaches.enactsDecided {p : Point} {h : List Action} (hr : L.Reaches obs ctx o₀ p o h) :
    EnactsDecidedAt p h :=
  hr.invariant (always_nil _) fun _ _ _ _ _ _ hh hm => hm.enactsDecided hh

/-! ## A supersession starts afresh -/

variable (L ctx) in
/-- The `decide` that follows a supersession is called with the newer goal and with a context that
is made of the base context alone. -/
def DecidesAfresh (pre : List Action) (a : Action) : Prop :=
  ∀ goal c, a = .decide goal c → ∀ newer, latest Action.phase pre = some (.superseded newer) →
    goal = newer ∧ L.Compacts ctx c

variable (L ctx) in
/-- The point is on the way to the first `decide` on `newer`, with none of the tool results that
were gathered before. -/
def StartsAfresh (newer : Goal) : Point → Prop
  | .ready goal _ _ => goal = newer
  | .compacting s => s.current = newer ∧ s.workingCtx = ctx
  | .top s => s.current = newer ∧ L.Compacts ctx s.workingCtx
  | .ended _ => True
  | _ => False

variable (L ctx) in
def DecidesAfreshAt (p : Point) (h : List Action) : Prop :=
  Always (L.DecidesAfresh ctx) h ∧
    ∀ newer, latest Action.phase h = some (.superseded newer) → L.StartsAfresh ctx newer p

/-- As long as nothing begins a step of the loop, only the point matters. -/
theorem DecidesAfreshAt.append {p p' : Point} {h t : List Action}
    (hh : L.DecidesAfreshAt ctx p h) (ht : ∀ a ∈ t, a.phase = none)
    (hp : ∀ newer, L.StartsAfresh ctx newer p → L.StartsAfresh ctx newer p') :
    L.DecidesAfreshAt ctx p' (h ++ t) := by
  refine ⟨hh.1.append_of_forall fun a ha pre goal c hc => ?_, fun newer hn => ?_⟩
  · have := ht a ha
    rw [hc] at this
    cases this
  · rw [latest_append_of_forall ht] at hn
    exact hp newer (hh.2 newer hn)

/-- What the loop begins other than a `decide` or a new supersession. -/
theorem DecidesAfreshAt.begin {p p' : Point} {h : List Action} {a : Action} {phase : Phase}
    (hh : L.DecidesAfreshAt ctx p h) (ha : a.phase = some phase) (hd : a.isDecide = false)
    (hp : ∀ newer, phase = .superseded newer → L.StartsAfresh ctx newer p') :
    L.DecidesAfreshAt ctx p' (h ++ [a]) := by
  refine ⟨always_concat.mpr ⟨hh.1, fun goal c hc => ?_⟩, fun newer hn => ?_⟩
  · rw [hc] at hd
    cases hd
  · rw [latest_concat, ha, Option.some_or] at hn
    exact hp newer (Option.some.inj hn)

theorem Moves.decidesAfresh {p p' : Point} {o o' : O} {h t : List Action}
    (hm : L.Moves obs ctx p o t p' o') (hh : L.DecidesAfreshAt ctx p h) :
    L.DecidesAfreshAt ctx p' (h ++ t) := by
  cases hm with
  | compact hc =>
    apply hh.append (by simp)
    intro newer hn
    refine ⟨hn.1, ?_⟩
    rw [← hn.2]
    exact hc
  | decide =>
    rename_i s
    rw [show ∀ a b : Action, h ++ [a, b] = h ++ [a] ++ [b] by simp]
    have hstarted : L.DecidesAfreshAt ctx (.top s)
        (h ++ [.event (.runStarted s.current.id s.current.revision)]) :=
      hh.append (by simp [Action.phase]) fun _ hp => hp
    refine ⟨always_concat.mpr ⟨hstarted.1, fun goal c hc newer hn => ?_⟩, fun newer hn => ?_⟩
    · cases hc
      exact hstarted.2 newer hn
    · -- the `decide` has been answered for, so nothing waits to be taken up
      rw [latest_concat] at hn
      cases hn
  | supersede hd =>
    rw [show ∀ a b : Action, h ++ [a, b] = h ++ [a] ++ [b] by simp]
    apply DecidesAfreshAt.append (p := .ready _ _ _) _ (by simp [Action.phase]) fun _ hp => hp
    apply hh.begin rfl rfl
    intro newer hn
    cases hn
    rfl
  | veto =>
    rw [show ∀ a b : Action, h ++ [a, b] = h ++ [a] ++ [b] by simp]
    apply DecidesAfreshAt.append (p := .ended _) _ (by simp [Action.phase]) fun _ hp => hp
    exact hh.begin rfl rfl fun _ _ => trivial
  | decided =>
    rw [show ∀ a b : Action, h ++ [a, b] = h ++ [a] ++ [b] by simp]
    apply DecidesAfreshAt.append (p := .enacting _ _ _ _) _ (by simp [Action.phase])
      fun _ hp => hp
    exact hh.begin rfl rfl fun _ hn => by cases hn
  | effect hd | fail hd =>
    apply hh.append _ fun _ hp => hp
    exact forall_mem_dispatchInvoke_append Action.phase_of_ofPipeline (by simp [Action.phase])
  | hang hd =>
    apply hh.append _ fun _ hp => hp
    exact fun a ha => Action.phase_of_ofPipeline (ofPipeline_of_mem_dispatchInvoke a ha)
  | express => exact hh.append (by split <;> simp [Action.phase]) fun _ hp => hp
  | enacted => exact hh.begin rfl rfl fun _ hn => by cases hn
  | _ => exact hh.append (by simp [Action.phase]) fun _ hp => by simp_all [StartsAfresh]

theorem Reaches.decidesAfresh {p : Point} {h : List Action} (hr : L.Reaches obs ctx o₀ p o h) :
    L.DecidesAfreshAt ctx p h :=
  hr.invariant ⟨always_nil _, fun _ hn => by cases hn⟩ fun _ _ _ _ _ _ hh hm =>
    hm.decidesAfresh hh

/-! ## A veto ends the span -/

def Unvetoed (h : List Action) : Prop := ∀ goal, .vetoed goal ∉ h

theorem Unvetoed.append {h t : List Action} (hh : Unvetoed h) (ht : Unvetoed t) :
    Unvetoed (h ++ t) := by
  intro goal hg
  rcases List.mem_append.mp hg with hg | hg
  · exact hh goal hg
  · exact ht goal hg

theorem stable_unvetoed : L.pipeline.Stable L.scope Unvetoed := by
  intro h a ha _ hh
  apply hh.append
  intro goal hg
  rw [← List.mem_singleton.mp hg] at ha
  cases ha

/-- What holds at each point: there was no veto, or it came last but for its event and the report
says so. -/
def VetoEndsAt : Point → List Action → Prop
  | .ended report, h => Unvetoed h ∨ ∃ h' goal reason, Unvetoed h' ∧
      h = h' ++ [.vetoed goal, .event (.abandoned goal.id goal.revision)] ∧
      report.runEnd = some (.vetoed reason)
  | _, h => Unvetoed h

theorem VetoEndsAt.of_unvetoed {h : List Action} (hh : Unvetoed h) (p : Point) :
    VetoEndsAt p h := by
  cases p <;> first | exact hh | exact Or.inl hh

theorem Moves.vetoEnds {p p' : Point} {o o' : O} {h t : List Action}
    (hm : L.Moves obs ctx p o t p' o') (hh : VetoEndsAt p h) : VetoEndsAt p' (h ++ t) := by
  cases hm with
  | veto => exact Or.inr ⟨h, _, _, hh, rfl, rfl⟩
  | effect hd | fail hd =>
    rw [← List.append_assoc]
    exact .append (dispatched stable_unvetoed.lawful hh) fun goal hg => by simp at hg
  | hang hd => exact dispatched stable_unvetoed.lawful hh
  | express => exact Unvetoed.append hh fun goal hg => by split at hg <;> simp at hg
  | _ => exact .of_unvetoed (Unvetoed.append hh fun goal hg => by simp at hg) _

theorem Reaches.vetoEnds {p : Point} {h : List Action} (hr : L.Reaches obs ctx o₀ p o h) :
    VetoEndsAt p h :=
  hr.invariant (fun _ hg => by cases hg) fun _ _ _ _ _ _ hh hm => hm.vetoEnds hh

/-- Where a veto without successors stands in a history. -/
theorem eq_of_vetoed {h' pre post : List Action} {goal goal' : Goal} (hh : Unvetoed h')
    (he : h' ++ [.vetoed goal', .event (.abandoned goal'.id goal'.revision)] =
      pre ++ .vetoed goal :: post) :
    post = [.event (.abandoned goal.id goal.revision)] := by
  rcases List.append_eq_append_iff.mp he with ⟨t, rfl, ht⟩ | ⟨t, rfl, ht⟩
  · cases t with
    | nil =>
      simp only [List.nil_append, List.cons.injEq, Action.vetoed.injEq] at ht
      obtain ⟨rfl, rfl⟩ := ht
      rfl
    | cons a t => cases t <;> simp at ht
  · cases t with
    | nil =>
      simp only [List.nil_append, List.cons.injEq, Action.vetoed.injEq] at ht
      obtain ⟨rfl, rfl⟩ := ht
      rfl
    | cons a t =>
      rw [List.cons_append] at ht
      have hmem : Action.vetoed goal ∈ pre ++ a :: t := by
        rw [(List.cons.inj ht).1]
        simp
      exact absurd hmem (hh goal)

/-- Whatever wins the race: intents are enacted only while a decision is whose `decide` ran to
completion; the `decide` after a supersession has the newer goal and a context of the base alone;
and a veto is followed by its own event and by nothing else, and the report ends with it. -/
theorem abandonment_clean (L : Loop W) (obs : Observations W O) (ctx : Context) (fuel : ℕ)
    (w : W × O) :
    (∀ pre a post, (L.runSpan obs ctx fuel w).1 = pre ++ a :: post → a.enacts = true →
      ∃ goal d, latest Action.phase pre = some (.enacting goal d)) ∧
    (∀ pre goal c post newer, (L.runSpan obs ctx fuel w).1 = pre ++ .decide goal c :: post →
      latest Action.phase pre = some (.superseded newer) →
      goal = newer ∧ L.Compacts ctx c ∧ (L.compactor = none → c = ctx)) ∧
    ∀ pre goal post, (L.runSpan obs ctx fuel w).1 = pre ++ .vetoed goal :: post →
      post = [.event (.abandoned goal.id goal.revision)] ∧
      ∃ report w' reason, (L.runSpan obs ctx fuel w).2 = some (report, w') ∧
        report.runEnd = some (.vetoed reason) := by
  obtain ⟨p, o, hr⟩ := exists_reaches L obs ctx fuel w
  refine ⟨hr.enactsDecided.always, ?_, ?_⟩
  · intro pre goal c post newer ht hn
    have hfresh := hr.decidesAfresh.1 pre _ post ht goal c rfl newer hn
    exact ⟨hfresh.1, hfresh.2, fun hL => compacts_of_compactor_eq_none hL hfresh.2⟩
  · intro pre goal post ht
    have hvetoed : ¬ Unvetoed (L.runSpan obs ctx fuel w).1 := by
      intro hh
      exact hh goal (by rw [ht]; simp)
    cases hres : (L.runSpan obs ctx fuel w).2 with
    | none =>
      -- a span that does not return is at a point where there was no veto
      obtain ⟨p, o, hr, hp⟩ := isHistory_of_eq_none hres
      have hend := hr.vetoEnds
      cases p <;> first | exact absurd hend hvetoed | exact absurd hp id
    | some r =>
      have hend := (reaches_ended hres).vetoEnds
      rcases hend with hh | ⟨h', goal', reason, hh, he, hreport⟩
      · exact absurd hh hvetoed
      · exact ⟨eq_of_vetoed hh (he.symm.trans ht), r.1, r.2, reason, rfl, hreport⟩

end Loop

end Pan
