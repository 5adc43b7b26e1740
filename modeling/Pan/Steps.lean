import Pan.Governance
import Pan.Feedback

namespace Pan

open History

/-- Interactions with a source: from one state of it to another, with so many goals delivered. -/
inductive Observations.Run {W O : Type} (obs : Observations W O) (o₀ : O) : ℕ → O → Prop
  | start : Run obs o₀ 0 o₀
  | next {k o w goal w' o'} : Run obs o₀ k o → obs.nextGoal (w, o) = some (some goal, (w', o')) →
      Run obs o₀ (k + 1) o'
  | exhausted {k o w w' o'} : Run obs o₀ k o → obs.nextGoal (w, o) = some (none, (w', o')) →
      Run obs o₀ k o'
  | superseded {k o current n w newer w' o'} : Run obs o₀ k o →
      obs.superseded current n (w, o) = (some newer, (w', o')) → Run obs o₀ (k + 1) o'
  | pending {k o current n w w' o'} : Run obs o₀ k o →
      obs.superseded current n (w, o) = (none, (w', o')) → Run obs o₀ k o'

/-- The source delivers at most `n` goals in all, counting the results of `next_goal` and the
superseding revisions. -/
def Observations.DeliversAtMost {W O : Type} (obs : Observations W O) (n : ℕ) (o : O) : Prop :=
  ∀ k o', obs.Run o k o' → k ≤ n

namespace Action

def isDecided : Action → Bool
  | .decided _ _ => true
  | _ => false

def isEnacted : Action → Bool
  | .enacted _ _ => true
  | _ => false

def uncounted : Action → Bool
  | .observed _ => false
  | .decided _ _ => false
  | .enacted _ _ => false
  | _ => true

theorem uncounted_of_ofPipeline {a : Action} (ha : a.ofPipeline = true) : a.uncounted = true := by
  cases a <;> first | rfl | cases ha

section Uncounted

variable {a : Action} (ha : a.uncounted = true)

include ha

theorem observedGoal_of_uncounted : a.observedGoal = none := by
  cases a <;> first | rfl | cases ha

theorem isObserved_of_uncounted : a.isObserved = false := by
  cases a <;> first | rfl | cases ha

theorem isDecided_of_uncounted : a.isDecided = false := by
  cases a <;> first | rfl | cases ha

theorem isEnacted_of_uncounted : a.isEnacted = false := by
  cases a <;> first | rfl | cases ha

end Uncounted

end Action

/-- Since `goal` was taken up, so many decisions were completed and so many enacted. -/
structure Stepped (goal : Goal) (decided enacted : ℕ) (h : List Action) : Prop where
  goal : latest Action.observedGoal h = some goal
  decided : (since Action.isObserved h).countP Action.isDecided = decided
  enacted : (since Action.isObserved h).countP Action.isEnacted = enacted

namespace Stepped

variable {goal : Goal} {decided enacted : ℕ} {h : List Action}

/-- Until a goal is taken up, the counts go on. -/
theorem append_countP (hs : Stepped goal decided enacted h) {t : List Action}
    (ht : ∀ a ∈ t, a.isObserved = false) (hgoal : ∀ a ∈ t, a.observedGoal = none) :
    Stepped goal (decided + t.countP Action.isDecided) (enacted + t.countP Action.isEnacted)
      (h ++ t) := by
  have hsince : since Action.isObserved (h ++ t) = since Action.isObserved h ++ t :=
    since_append_of_forall ht h
  constructor
  · rw [latest_append_of_forall hgoal]
    exact hs.goal
  · rw [hsince, List.countP_append, hs.decided]
  · rw [hsince, List.countP_append, hs.enacted]

theorem append (hs : Stepped goal decided enacted h) {t : List Action}
    (ht : ∀ a ∈ t, a.uncounted = true) : Stepped goal decided enacted (h ++ t) := by
  have hdecided : t.countP Action.isDecided = 0 :=
    List.countP_eq_zero.mpr fun a ha => by simp [Action.isDecided_of_uncounted (ht a ha)]
  have henacted : t.countP Action.isEnacted = 0 :=
    List.countP_eq_zero.mpr fun a ha => by simp [Action.isEnacted_of_uncounted (ht a ha)]
  have hcounts := hs.append_countP (fun a ha => Action.isObserved_of_uncounted (ht a ha))
    fun a ha => Action.observedGoal_of_uncounted (ht a ha)
  rw [hdecided, henacted] at hcounts
  exact hcounts

theorem observed (goal : Goal) (h : List Action) : Stepped goal 0 0 (h ++ [.observed goal]) := by
  constructor
  · rw [latest_concat]
    rfl
  · rw [Action.since_observed, List.countP_nil]
  · rw [Action.since_observed, List.countP_nil]

theorem decide (hs : Stepped goal decided enacted h) (g : Goal) (d : Decision) :
    Stepped goal (decided + 1) enacted (h ++ [.decided g d]) :=
  hs.append_countP (t := [.decided g d]) (by simp [Action.isObserved])
    (by simp [Action.observedGoal])

theorem enact (hs : Stepped goal decided enacted h) (g : Goal) (d : Decision) :
    Stepped goal decided (enacted + 1) (h ++ [.enacted g d]) :=
  hs.append_countP (t := [.enacted g d]) (by simp [Action.isObserved])
    (by simp [Action.observedGoal])

end Stepped

/-- The budget of the goal taken up last has a step left for this action. -/
def WithinBudget (pre : List Action) (a : Action) : Prop :=
  (∀ goal d, a = .decided goal d → latest Action.observedGoal pre = some goal ∧
    (since Action.isObserved pre).countP Action.isDecided < maxToolSteps) ∧
  ∀ goal d, a = .enacted goal d → latest Action.observedGoal pre = some goal ∧
    (since Action.isObserved pre).countP Action.isEnacted < maxToolSteps

theorem withinBudget_of_uncounted {a : Action} (ha : a.uncounted = true) (pre : List Action) :
    WithinBudget pre a := by
  constructor
  · intro goal d he
    rw [he] at ha
    cases ha
  · intro goal d he
    rw [he] at ha
    cases ha

namespace Loop

variable {W O : Type} {L : Loop W} {obs : Observations W O} {ctx : Context} {o₀ o : O}

/-- What holds at each point of the steps taken. -/
def SteppedAt : Point → List Action → Prop
  | .compacting s, h => s.toolSteps < maxToolSteps ∧
      Stepped s.current s.toolSteps s.toolSteps h
  | .top s, h => s.toolSteps < maxToolSteps ∧ Stepped s.current s.toolSteps s.toolSteps h
  | .deciding s, h => s.toolSteps < maxToolSteps ∧ Stepped s.current s.toolSteps s.toolSteps h
  | .enacting s _ _ _, h => s.toolSteps < maxToolSteps ∧
      Stepped s.current (s.toolSteps + 1) s.toolSteps h
  | .enacted s _ _, h => s.toolSteps < maxToolSteps ∧
      Stepped s.current (s.toolSteps + 1) (s.toolSteps + 1) h
  | _, _ => True

theorem SteppedAt.append {p : Point} {h t : List Action} (hh : SteppedAt p h)
    (ht : ∀ a ∈ t, a.uncounted = true) : SteppedAt p (h ++ t) := by
  cases p <;> first | trivial | exact ⟨hh.1, hh.2.append ht⟩

def WithinBudgetAt (p : Point) (h : List Action) : Prop := Always WithinBudget h ∧ SteppedAt p h

theorem WithinBudgetAt.append {p : Point} {h t : List Action} (hh : WithinBudgetAt p h)
    (ht : ∀ a ∈ t, a.uncounted = true) : WithinBudgetAt p (h ++ t) :=
  ⟨hh.1.append_of_forall fun a ha pre => withinBudget_of_uncounted (ht a ha) pre,
    hh.2.append ht⟩

theorem WithinBudgetAt.hung {p : Point} {h : List Action} (hh : WithinBudgetAt p h) :
    WithinBudgetAt .hung h :=
  ⟨hh.1, trivial⟩

theorem Moves.withinBudget {p p' : Point} {o o' : O} {h t : List Action}
    (hm : L.Moves obs ctx p o t p' o') (hh : WithinBudgetAt p h) : WithinBudgetAt p' (h ++ t) := by
  -- most moves are not counted, so there is nothing to bound
  have huncounted : ∀ {t}, (∀ a ∈ t, a.uncounted = true) →
      (SteppedAt p (h ++ t) → SteppedAt p' (h ++ t)) → WithinBudgetAt p' (h ++ t) := by
    intro t ht hp
    exact ⟨(hh.append ht).1, hp (hh.append ht).2⟩
  cases hm with
  | observe =>
    rename_i goal report sd
    have hobserved : WithinBudget h (.observed goal) :=
      ⟨fun g d he => (nomatch he), fun g d he => (nomatch he)⟩
    exact ⟨always_concat.mpr ⟨hh.1, hobserved⟩, Nat.zero_lt_succ 7, .observed goal h⟩
  | decided =>
    rename_i s d
    obtain ⟨hall, hlt, hs⟩ := hh
    -- the decision is one more than those of the steps before, and these are below the limit
    have hdecided : WithinBudget h (.decided s.current d) := by
      refine ⟨fun g d he => ?_, fun g d he => (nomatch he)⟩
      cases he
      exact ⟨hs.goal, by rw [hs.decided]; exact hlt⟩
    have hmid : WithinBudgetAt (.enacting s d d.intents ⟨none, [], s.report, s.stallDetector⟩)
        (h ++ [.decided s.current d]) :=
      ⟨always_concat.mpr ⟨hall, hdecided⟩, hlt, hs.decide s.current d⟩
    have hend := hmid.append (t := [.event (.decided L.provider.id d.intents.length)])
      (by simp [Action.uncounted])
    rwa [List.append_assoc] at hend
  | effect hd | fail hd =>
    refine huncounted ?_ id
    exact forall_mem_dispatchInvoke_append Action.uncounted_of_ofPipeline
      (by simp [Action.uncounted])
  | hang hd =>
    apply WithinBudgetAt.hung
    apply hh.append
    exact fun a ha => Action.uncounted_of_ofPipeline (ofPipeline_of_mem_dispatchInvoke a ha)
  | express => exact huncounted (by split <;> simp [Action.uncounted]) id
  | enacted =>
    rename_i s d e
    obtain ⟨hall, hlt, hs⟩ := hh
    have henacted : WithinBudget h (.enacted s.current d) := by
      refine ⟨fun g d he => (nomatch he), fun g d he => ?_⟩
      cases he
      exact ⟨hs.goal, by rw [hs.enacted]; exact hlt⟩
    exact ⟨always_concat.mpr ⟨hall, henacted⟩, hlt, hs.enact s.current d⟩
  | feedBack he ht hlt => exact huncounted (by simp) fun hs => ⟨hlt, hs.2⟩
  | _ => exact huncounted (by simp [Action.uncounted]) fun hs => by first | exact hs | trivial

theorem Reaches.withinBudget {p : Point} {h : List Action} (hr : L.Reaches obs ctx o₀ p o h) :
    WithinBudgetAt p h :=
  hr.invariant ⟨always_nil _, trivial⟩ fun _ _ _ _ _ _ hh hm => hm.withinBudget hh

/-- The goals that have been taken up, and the one that is there to be taken up. -/
def deliveries : Point → List Action → ℕ
  | .ready _ _ _, h => h.countP Action.isObserved + 1
  | _, h => h.countP Action.isObserved

theorem countP_isObserved_append {h t : List Action} (ht : ∀ a ∈ t, a.isObserved = false) :
    (h ++ t).countP Action.isObserved = h.countP Action.isObserved := by
  have hzero : t.countP Action.isObserved = 0 :=
    List.countP_eq_zero.mpr fun a ha => by simp [ht a ha]
  rw [List.countP_append, hzero]
  omega

theorem Moves.run {p p' : Point} {o o' : O} {h t : List Action}
    (hm : L.Moves obs ctx p o t p' o') (hh : obs.Run o₀ (deliveries p h) o) :
    obs.Run o₀ (deliveries p' (h ++ t)) o' := by
  -- only an observed goal counts as delivered
  have hsame : ∀ {k} {t}, (∀ a ∈ t, a.isObserved = false) →
      obs.Run o₀ (h.countP Action.isObserved + k) o' →
      obs.Run o₀ ((h ++ t).countP Action.isObserved + k) o' := by
    intro k t ht hr
    rwa [countP_isObserved_append ht]
  have hpipeline : ∀ {a : Action}, a.ofPipeline = true → a.isObserved = false :=
    fun ha => Action.isObserved_of_uncounted (Action.uncounted_of_ofPipeline ha)
  cases hm with
  | next hnext => exact hsame (k := 1) (by simp) (.next hh hnext)
  | exhausted hnext => exact hsame (k := 0) (by simp) (.exhausted hh hnext)
  | observe =>
    rename_i goal report sd
    have hcount : (h ++ [Action.observed goal]).countP Action.isObserved =
        h.countP Action.isObserved + 1 := by
      rw [List.countP_append]
      rfl
    show obs.Run o₀ ((h ++ [Action.observed goal]).countP Action.isObserved) o
    rw [hcount]
    exact hh
  | pending hpoll => exact hsame (k := 0) (by simp) (.pending hh hpoll)
  | supersede hpoll =>
    exact hsame (k := 1) (by simp [Action.isObserved]) (.superseded hh hpoll)
  | effect hd | fail hd =>
    refine hsame (k := 0) ?_ hh
    exact forall_mem_dispatchInvoke_append hpipeline (by simp [Action.isObserved])
  | hang hd =>
    refine hsame (k := 0) ?_ hh
    exact fun a ha => hpipeline (ofPipeline_of_mem_dispatchInvoke a ha)
  | express => exact hsame (k := 0) (by split <;> simp [Action.isObserved]) hh
  | _ => exact hsame (k := 0) (by simp [Action.isObserved]) hh

/-- A span takes up no more goals than the source delivers. -/
theorem Reaches.countP_observed_le {p : Point} {h : List Action}
    (hr : L.Reaches obs ctx o₀ p o h) {n : ℕ} (hn : obs.DeliversAtMost n o₀) :
    h.countP Action.isObserved ≤ n := by
  have hrun : obs.Run o₀ (deliveries p h) o :=
    hr.invariant (I := fun p o h => obs.Run o₀ (deliveries p h) o) .start
      fun _ _ _ _ _ _ hh hm => hm.run hh
  have hle := hn _ _ hrun
  cases p <;> simp only [deliveries] at hle <;> omega

/-- A span completes at most `maxToolSteps` decisions for each goal it takes up. -/
theorem Reaches.countP_decided_le {p : Point} {h : List Action}
    (hr : L.Reaches obs ctx o₀ p o h) :
    h.countP Action.isDecided ≤ maxToolSteps * h.countP Action.isObserved := by
  apply countP_le_mul_countP
  · intro a ha
    cases a <;> first | rfl | cases ha
  · refine hr.withinBudget.1.mono fun pre a hb ha => ?_
    cases a with
    | decided goal d =>
      obtain ⟨hgoal, hlt⟩ := hb.1 goal d rfl
      refine ⟨?_, hlt⟩
      -- some goal was taken up, so one action at least took it up
      obtain ⟨b, hmem, hb⟩ := List.mem_filterMap.mp (List.mem_of_getLast? hgoal)
      refine List.countP_pos_iff.mpr ⟨b, hmem, ?_⟩
      cases b <;> first | rfl | cases hb
    | _ => cases ha

end Loop

end Pan
