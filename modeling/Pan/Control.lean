import Pan.PipelineLaws

namespace Pan

/-- Where a span stands, with the locals that are live there. -/
inductive Point where
  /-- About to ask the source for a goal. -/
  | seeking (report : RunReport) (stallDetector : Option StallDetector)
  /-- A goal is there to be taken up. -/
  | ready (goal : Goal) (report : RunReport) (stallDetector : Option StallDetector)
  /-- About to compact the working context. -/
  | compacting (s : Loop.State)
  /-- At the top of the inner loop. -/
  | top (s : Loop.State)
  /-- In the race of the supersession, the veto and the `decide`. -/
  | deciding (s : Loop.State)
  /-- Enacting a decision, with these intents still to do. -/
  | enacting (s : Loop.State) (d : Decision) (todo : List ActionIntent) (e : Enacting)
  /-- All intents are enacted. -/
  | enacted (s : Loop.State) (d : Decision) (e : Enacting)
  /-- A dispatch that never returns. -/
  | hung
  | ended (report : RunReport)

namespace Loop

open Eff

variable {W O : Type} (L : Loop W)

/-- `c` is a context that compaction may make of `ctx`. -/
def Compacts (ctx c : Context) : Prop := ∃ w w', L.compactIfOver ctx w = ([], some (c, w'))

/-- The dispatch of an `Invoke`. -/
def dispatchInvoke (capability : String) (args : Value) (correlation : Option String) :
    Eff Action W (Except PipelineError Effected) :=
  L.pipeline.dispatchWithInvoker ⟨capability, args, correlation, L.scope⟩
    (L.pipeline.invoke L.scope)

/-- The ways in which a `Conclude` ends the span. -/
inductive ConcludesWith (o : Outcome) : RunEnd → Prop
  | concluded : ConcludesWith o (.concluded o)
  | unsatisfied (reason : String) : o = .achieved → ConcludesWith o (.unsatisfied reason)

/-- The moves of a span, each with the actions it performs and what it does to the source. -/
inductive Moves (obs : Observations W O) (ctx : Context) :
    Point → O → List Action → Point → O → Prop
  | next {report sd w o goal w' o'} : obs.nextGoal (w, o) = some (some goal, (w', o')) →
      Moves obs ctx (.seeking report sd) o [] (.ready goal report sd) o'
  | exhausted {report sd w o w' o'} : obs.nextGoal (w, o) = some (none, (w', o')) →
      Moves obs ctx (.seeking report sd) o []
        (.ended { report with runEnd := some .streamExhausted }) o'
  | observe {goal report sd o} : Moves obs ctx (.ready goal report sd) o [.observed goal]
      (.compacting ⟨goal, ctx, 0, report, sd⟩) o
  | compact {s o c} : L.Compacts s.workingCtx c →
      Moves obs ctx (.compacting s) o [] (.top { s with workingCtx := c }) o
  | decide {s o} : Moves obs ctx (.top s) o
      [.event (.runStarted s.current.id s.current.revision), .decide s.current s.workingCtx]
      (.deciding s) o
  | pending {s n w o w' o'} : obs.superseded s.current n (w, o) = (none, (w', o')) →
      Moves obs ctx (.deciding s) o [] (.deciding s) o'
  | supersede {s n w o newer w' o'} :
      obs.superseded s.current n (w, o) = (some newer, (w', o')) →
      Moves obs ctx (.deciding s) o
        [.superseded s.current newer, .event (.abandoned s.current.id newer.revision)]
        (.ready newer s.report s.stallDetector) o'
  | veto {s o reason} : Moves obs ctx (.deciding s) o
      [.vetoed s.current, .event (.abandoned s.current.id s.current.revision)]
      (.ended { s.report with runEnd := some (.vetoed reason) }) o
  | decided {s o d} : Moves obs ctx (.deciding s) o
      [.decided s.current d, .event (.decided L.provider.id d.intents.length)]
      (.enacting s d d.intents ⟨none, [], s.report, s.stallDetector⟩) o
  | effect {s d capability args correlation todo e o w eff w'} :
      (L.dispatchInvoke capability args correlation w).2 = some (.ok eff, w') →
      Moves obs ctx (.enacting s d (.invoke capability args correlation :: todo) e) o
        ((L.dispatchInvoke capability args correlation w).1 ++
          [.invoked capability args correlation (.ok eff.result)])
        (.enacting s d todo
          ((L.feedStall e capability args).effected L.formats correlation args eff)) o
  | fail {s d capability args correlation todo e o w err w'} :
      (L.dispatchInvoke capability args correlation w).2 = some (.error err, w') →
      Moves obs ctx (.enacting s d (.invoke capability args correlation :: todo) e) o
        ((L.dispatchInvoke capability args correlation w).1 ++
          [.invoked capability args correlation (.error (pipelineErrorMessage L.formats err)),
            .event (.pluginError capability (pipelineErrorMessage L.formats err))])
        (.enacting s d todo ((L.feedStall e capability args).failed L.formats capability
          correlation args (pipelineErrorMessage L.formats err))) o
  | hang {s d capability args correlation todo e o w} :
      (L.dispatchInvoke capability args correlation w).2 = none →
      Moves obs ctx (.enacting s d (.invoke capability args correlation :: todo) e) o
        (L.dispatchInvoke capability args correlation w).1 .hung o
  | express {s d body todo e o} :
      Moves obs ctx (.enacting s d (.express body :: todo) e) o
        (.event (.expressed body) :: if L.tokenTx then [.token body] else [])
        (.enacting s d todo (e.expressed body)) o
  | conclude {s d outcome todo e o} :
      Moves obs ctx (.enacting s d (.conclude outcome :: todo) e) o []
        (.enacting s d todo { e with outcome := some outcome }) o
  | enacted {s d e o} :
      Moves obs ctx (.enacting s d [] e) o [.enacted s.current d] (.enacted s d e) o
  | finish {s d e o outcome runEnd} : e.outcome = some outcome → ConcludesWith outcome runEnd →
      Moves obs ctx (.enacted s d e) o [.event (.runConcluded s.current.id outcome)]
        (.ended { e.report with runEnd := some runEnd }) o
  | stepLimit {s d e o} : e.outcome = none → e.toolResults ≠ [] →
      maxToolSteps ≤ s.toolSteps + 1 →
      Moves obs ctx (.enacted s d e) o [.event (.runConcluded s.current.id .abandoned)]
        (.ended { e.report with runEnd := some .stepLimit }) o
  | feedBack {s d e o} : e.outcome = none → e.toolResults ≠ [] →
      s.toolSteps + 1 < maxToolSteps →
      Moves obs ctx (.enacted s d e) o []
        (.compacting ⟨s.current, ⟨s.workingCtx.fragments ++ e.toolResults⟩, s.toolSteps + 1,
          e.report, e.stallDetector⟩) o
  | advance {s d e o} : e.outcome = none → e.toolResults = [] →
      Moves obs ctx (.enacted s d e) o [] (.seeking e.report e.stallDetector) o

/-- The points that a run of moves leads to, with the history of the run. -/
inductive Reaches (obs : Observations W O) (ctx : Context) (o₀ : O) :
    Point → O → List Action → Prop
  | start : Reaches obs ctx o₀ (.seeking RunReport.empty L.stallDetector) o₀ []
  | move {p o h t p' o'} : Reaches obs ctx o₀ p o h → L.Moves obs ctx p o t p' o' →
      Reaches obs ctx o₀ p' o' (h ++ t)

variable {L} {obs : Observations W O} {ctx : Context} {o₀ o : O}

/-- What holds at the start and is kept by every move holds of every point that is reached. -/
theorem Reaches.invariant {I : Point → O → List Action → Prop}
    (hstart : I (.seeking RunReport.empty L.stallDetector) o₀ [])
    (hmove : ∀ p o h t p' o', I p o h → L.Moves obs ctx p o t p' o' → I p' o' (h ++ t))
    {p : Point} {o : O} {h : List Action} (hr : L.Reaches obs ctx o₀ p o h) : I p o h := by
  induction hr with
  | start => exact hstart
  | move _ hm ih => exact hmove _ _ _ _ _ _ ih hm

theorem compacts_of_compactor_eq_none (hL : L.compactor = none) {c c' : Context}
    (h : L.Compacts c c') : c' = c := by
  obtain ⟨w, w', hc⟩ := h
  unfold compactIfOver at hc
  rw [hL] at hc
  cases hc
  rfl

/-! ## The loop makes these moves -/

/-- The points at which a span may wait for ever: once the intents are enacted it waits for the
evaluator alone. -/
def MayHang : Point → Prop
  | .enacted _ _ e => e.outcome = some .achieved
  | .ended _ => False
  | _ => True

variable (L obs ctx o₀) in
/-- The history of some run of moves to a point at which the span may hang. -/
def IsHistory (h : List Action) : Prop := ∃ p o, L.Reaches obs ctx o₀ p o h ∧ MayHang p

theorem Reaches.isHistory {p : Point} {h : List Action} (hr : L.Reaches obs ctx o₀ p o h)
    (hp : MayHang p) : L.IsHistory obs ctx o₀ h :=
  ⟨p, o, hr, hp⟩

theorem compactIfOver_triple {pre : List Action → W → Prop}
    {post : Context → List Action → W → Prop} {stuck : List Action → Prop} {c : Context}
    (hpost : ∀ h w c' w', pre h w → L.Compacts c c' → post c' h w')
    (hstuck : ∀ h w, pre h w → stuck h) :
    Triple pre (L.compactIfOver c) post stuck := by
  have hsilent : ∀ w, (L.compactIfOver c w).1 = [] := by
    intro w
    unfold compactIfOver
    cases L.compactor with
    | none => rfl
    | some compactor =>
      cases L.contextBudget with
      | none => rfl
      | some budget => dsimp only; split <;> rfl
  intro h w hp
  rw [hsilent, List.append_nil]
  cases hr : (L.compactIfOver c w).2 with
  | none => exact hstuck h w hp
  | some r =>
    have hc : L.Compacts c r.1 := ⟨w, r.2, Prod.ext (hsilent w) hr⟩
    exact hpost h w r.1 r.2 hp hc

theorem takeUp_triple (goal : Goal) (report : RunReport) (sd : Option StallDetector) :
    Triple (fun h _ => L.Reaches obs ctx o₀ (.ready goal report sd) o h)
      (L.takeUp ctx goal report sd) (fun s h _ => L.Reaches obs ctx o₀ (.top s) o h)
      (L.IsHistory obs ctx o₀) := by
  unfold takeUp
  refine Triple.bind (m := fun _ h _ => L.Reaches obs ctx o₀
    (.compacting ⟨goal, ctx, 0, report, sd⟩) o h) (Triple.emit fun h _ hr => ?_) fun _ => ?_
  · exact hr.move .observe
  refine Triple.bind (m := fun c h _ => L.Reaches obs ctx o₀ (.top ⟨goal, c, 0, report, sd⟩) o h)
    (compactIfOver_triple ?_ fun _ _ hr => hr.isHistory trivial) fun c =>
      Triple.pure fun _ _ hr => hr
  intro h w c w' hr hc
  have hm := hr.move (.compact hc)
  rwa [List.append_nil] at hm

theorem enactInvoke_triple (s : State) (d : Decision) (todo : List ActionIntent) (e : Enacting)
    (capability : String) (args : Value) (correlation : Option String) :
    Triple (fun h _ => L.Reaches obs ctx o₀
        (.enacting s d (.invoke capability args correlation :: todo) e) o h)
      (L.enactInvoke e capability args correlation)
      (fun e' h _ => L.Reaches obs ctx o₀ (.enacting s d todo e') o h)
      (L.IsHistory obs ctx o₀) := by
  unfold enactInvoke
  refine Triple.bind ((Triple.strongest (L.dispatchInvoke capability args correlation)).weaken
    (fun _ _ hr => hr) (fun _ _ _ h => h) ?_) fun r => ?_
  · rintro _ ⟨h, w, hr, hd, rfl⟩
    have hm := hr.move (.hang hd)
    exact hm.isHistory trivial
  cases r with
  | ok eff =>
    refine Triple.bind (m := fun _ h _ => L.Reaches obs ctx o₀ (.enacting s d todo
      ((L.feedStall e capability args).effected L.formats correlation args eff)) o h)
      (Triple.emit ?_) fun _ => Triple.pure fun _ _ hr => hr
    rintro _ w' ⟨h, w, hr, hd, rfl⟩
    rw [List.append_assoc]
    exact hr.move (.effect hd)
  | error err =>
    intro h w' hh
    obtain ⟨h, w, hr, hd, rfl⟩ := hh
    have hm := hr.move (.fail hd)
    simpa [bind_eq] using hm

theorem enactIntent_triple (s : State) (d : Decision) (todo : List ActionIntent) (e : Enacting)
    (intent : ActionIntent) :
    Triple (fun h _ => L.Reaches obs ctx o₀ (.enacting s d (intent :: todo) e) o h)
      (L.enactIntent e intent)
      (fun e' h _ => L.Reaches obs ctx o₀ (.enacting s d todo e') o h)
      (L.IsHistory obs ctx o₀) := by
  cases intent with
  | invoke capability args correlation =>
    exact enactInvoke_triple s d todo e capability args correlation
  | express body =>
    intro h w hr
    have hm := hr.move .express
    unfold enactIntent enactExpress
    cases ht : L.tokenTx <;> simpa [bind_eq, ht] using hm
  | conclude outcome =>
    refine Triple.pure fun h _ hr => ?_
    have hm := hr.move .conclude
    rwa [List.append_nil] at hm

theorem enact_triple (s : State) (d : Decision) (todo : List ActionIntent) (e : Enacting) :
    Triple (fun h _ => L.Reaches obs ctx o₀ (.enacting s d todo e) o h) (L.enact e todo)
      (fun e' h _ => L.Reaches obs ctx o₀ (.enacting s d [] e') o h) (L.IsHistory obs ctx o₀) := by
  induction todo generalizing e with
  | nil => exact Triple.pure fun _ _ hr => hr
  | cons intent todo ih =>
    unfold enact
    exact Triple.bind (enactIntent_triple s d todo e intent) fun e' => ih e'

/-- The race ends at the point where it began, or a newer goal is ready once the supersession is
on record. -/
theorem select_triple (s : State) (caps : List Capability) (rounds n : ℕ) :
    Triple (fun h w => L.Reaches obs ctx o₀ (.deciding s) w.2 h)
      (L.select obs s.current s.workingCtx caps rounds n)
      (fun r h w => match r with
        | .superseded newer => L.Reaches obs ctx o₀ (.ready newer s.report s.stallDetector) w.2
            (h ++ [.superseded s.current newer, .event (.abandoned s.current.id newer.revision)])
        | _ => L.Reaches obs ctx o₀ (.deciding s) w.2 h)
      (L.IsHistory obs ctx o₀) := by
  induction rounds generalizing n with
  | zero => exact Triple.never fun _ _ hr => hr.isHistory trivial
  | succ rounds ih =>
    unfold select
    refine Triple.bind (m := fun r h w => r.elim (L.Reaches obs ctx o₀ (.deciding s) w.2 h)
      fun newer => L.Reaches obs ctx o₀ (.ready newer s.report s.stallDetector) w.2
        (h ++ [.superseded s.current newer, .event (.abandoned s.current.id newer.revision)]))
      (Triple.ask ?_) fun r => ?_
    · rintro h ⟨w, o⟩ hr
      rcases hpoll : obs.superseded s.current n (w, o) with ⟨_ | newer, w', o'⟩
      · have hm := hr.move (.pending hpoll)
        rwa [List.append_nil] at hm
      · exact hr.move (.supersede hpoll)
    cases r with
    | some newer => exact Triple.pure fun _ _ hr => hr
    | none =>
      -- the veto and the `decide` do not reach the source
      change Triple (fun h (w : W × O) => L.Reaches obs ctx o₀ (.deciding s) w.2 h) _ _ _
      refine Triple.bind (m := fun _ h w => L.Reaches obs ctx o₀ (.deciding s) w.2 h)
        (Triple.onFst fun o => Triple.ask fun _ _ hr => hr) fun r => ?_
      cases r with
      | some reason => exact Triple.pure fun _ _ hr => hr
      | none =>
        refine Triple.bind (m := fun _ h w => L.Reaches obs ctx o₀ (.deciding s) w.2 h)
          (Triple.onFst fun o => Triple.ask fun _ _ hr => hr) fun r => ?_
        cases r with
        | some decision => exact Triple.pure fun _ _ hr => hr
        | none => exact ih (n + 1)

theorem conclude_triple (s : State) (d : Decision) (e : Enacting) (outcome : Outcome)
    (he : e.outcome = some outcome) :
    Triple (fun h _ => L.Reaches obs ctx o₀ (.enacted s d e) o h) (L.conclude s e.report outcome)
      (fun r h _ => L.Reaches obs ctx o₀ (.ended r) o h) (L.IsHistory obs ctx o₀) := by
  unfold conclude
  refine Triple.bind (m := fun eval h _ => L.Reaches obs ctx o₀ (.enacted s d e) o h ∧
    ∀ reason, eval = .unsatisfied reason → outcome = .achieved) ?_ fun eval => ?_
  · unfold evaluate
    split
    · exact Triple.call (fun _ _ _ _ hr _ => ⟨hr, fun _ _ => rfl⟩) fun _ _ hr => hr.isHistory he
    · exact Triple.pure fun _ _ hr => ⟨hr, fun _ h => by cases h⟩
  intro h w hh
  cases eval with
  | satisfied => exact hh.1.move (.finish he .concluded)
  | cannotJudge reason => exact hh.1.move (.finish he .concluded)
  | unsatisfied reason =>
    have hachieved : outcome = .achieved := hh.2 reason rfl
    exact hh.1.move (.finish he (.unsatisfied reason hachieved))

theorem feedBack_triple (s : State) (d : Decision) (e : Enacting) (he : e.outcome = none)
    (ht : e.toolResults ≠ []) :
    Triple (fun h _ => L.Reaches obs ctx o₀ (.enacted s d e) o h) (L.feedBack s e)
      (fun r h _ => match r with
        | .inl s' => L.Reaches obs ctx o₀ (.top s') o h
        | .inr report => L.Reaches obs ctx o₀ (.ended report) o h)
      (L.IsHistory obs ctx o₀) := by
  unfold feedBack
  split
  · rename_i hlimit
    exact Triple.bind (Triple.emit fun _ _ hr => hr.move (.stepLimit he ht hlimit)) fun _ =>
      Triple.pure fun _ _ hr => hr
  · rename_i hsteps
    refine Triple.bind (m := fun c h _ => L.Reaches obs ctx o₀
      (.top ⟨s.current, c, s.toolSteps + 1, e.report, e.stallDetector⟩) o h)
      (compactIfOver_triple ?_ ?_) fun c => Triple.pure fun _ _ hr => hr
    · intro h w c w' hr hc
      have hm := hr.move (.feedBack he ht (by omega))
      have hm' := hm.move (.compact hc)
      rwa [List.append_nil, List.append_nil] at hm'
    · intro h w hr
      have hm := hr.move (.feedBack he ht (by omega))
      rw [List.append_nil] at hm
      exact hm.isHistory trivial

theorem nextGoal_triple (report : RunReport) (sd : Option StallDetector) :
    Triple (fun h w => L.Reaches obs ctx o₀ (.seeking report sd) w.2 h)
      (call obs.nextGoal : Eff Action (W × O) (Option Goal))
      (fun r h w => match r with
        | some goal => L.Reaches obs ctx o₀ (.ready goal report sd) w.2 h
        | none => L.Reaches obs ctx o₀
            (.ended { report with runEnd := some .streamExhausted }) w.2 h)
      (L.IsHistory obs ctx o₀) := by
  refine Triple.call ?_ fun _ _ hr => hr.isHistory trivial
  rintro h ⟨w, o⟩ r ⟨w', o'⟩ hr hcall
  cases r with
  | some goal =>
    have hm := hr.move (.next hcall)
    rwa [List.append_nil] at hm
  | none =>
    have hm := hr.move (.exhausted hcall)
    rwa [List.append_nil] at hm

variable (L obs ctx o₀) in
def Passed (r : State ⊕ RunReport) (h : List Action) (w : W × O) : Prop :=
  match r with
  | .inl s => L.Reaches obs ctx o₀ (.top s) w.2 h
  | .inr report => L.Reaches obs ctx o₀ (.ended report) w.2 h

theorem takeUp_passed (goal : Goal) (report : RunReport) (sd : Option StallDetector) :
    Triple (fun h w => L.Reaches obs ctx o₀ (.ready goal report sd) w.2 h)
      (Sum.inl <$> onFst (L.takeUp ctx goal report sd)) (L.Passed obs ctx o₀)
      (L.IsHistory obs ctx o₀) :=
  Triple.bind (Triple.onFst fun _ => takeUp_triple goal report sd) fun _ =>
    Triple.pure fun _ _ hr => hr

theorem advance_triple (s : State) (d : Decision) (e : Enacting) (he : e.outcome = none)
    (ht : e.toolResults = []) :
    Triple (fun h w => L.Reaches obs ctx o₀ (.enacted s d e) w.2 h) (L.advance obs ctx e)
      (L.Passed obs ctx o₀) (L.IsHistory obs ctx o₀) := by
  unfold advance
  refine Triple.bind ((nextGoal_triple e.report e.stallDetector).strengthen_pre ?_) fun r => ?_
  · intro h w hr
    have hm := hr.move (.advance he ht)
    rwa [List.append_nil] at hm
  cases r with
  | some goal => exact takeUp_passed goal e.report e.stallDetector
  | none => exact Triple.pure fun _ _ hr => hr

theorem afterDecide_triple (s : State) (d : Decision) :
    Triple (fun h w => L.Reaches obs ctx o₀ (.deciding s) w.2 h) (L.afterDecide obs ctx s d)
      (L.Passed obs ctx o₀) (L.IsHistory obs ctx o₀) := by
  unfold afterDecide
  apply Triple.emit_bind
  refine Triple.bind (m := fun _ h w => L.Reaches obs ctx o₀
    (.enacting s d d.intents ⟨none, [], s.report, s.stallDetector⟩) w.2 h) (Triple.emit ?_)
    fun _ => ?_
  · rintro _ w ⟨h, hr, rfl⟩
    rw [List.append_assoc]
    exact hr.move .decided
  refine Triple.bind (m := fun e h w => L.Reaches obs ctx o₀ (.enacting s d [] e) w.2 h)
    (Triple.onFst fun _ => enact_triple s d d.intents _) fun e => ?_
  refine Triple.bind (m := fun _ h w => L.Reaches obs ctx o₀ (.enacted s d e) w.2 h)
    (Triple.emit fun _ _ hr => hr.move .enacted) fun _ => ?_
  split
  · rename_i outcome he
    exact Triple.bind (Triple.onFst fun _ => conclude_triple s d e outcome he) fun report =>
      Triple.pure fun _ _ hr => hr
  · rename_i he
    split
    · rename_i ht
      exact advance_triple s d e he (List.isEmpty_iff.mp ht)
    · rename_i ht
      exact (Triple.onFst fun _ => feedBack_triple s d e he (by simpa using ht)).weaken
        (fun _ _ hr => hr) (fun r _ _ hr => by cases r <;> exact hr) fun _ h => h

theorem iteration_triple (rounds : ℕ) (s : State) :
    Triple (fun h w => L.Reaches obs ctx o₀ (.top s) w.2 h) (L.iteration obs ctx rounds s)
      (L.Passed obs ctx o₀) (L.IsHistory obs ctx o₀) := by
  unfold iteration
  apply Triple.emit_bind
  refine Triple.bind (m := fun _ h w => L.Reaches obs ctx o₀ (.deciding s) w.2 h)
    (Triple.emit ?_) fun _ => ?_
  · rintro _ w ⟨h, hr, rfl⟩
    rw [List.append_assoc]
    exact hr.move .decide
  refine Triple.bind (select_triple s _ rounds 0) fun r => ?_
  cases r with
  | superseded newer =>
    refine Triple.bind (m := fun _ h w => L.Reaches obs ctx o₀
      (.ready newer s.report s.stallDetector) w.2
        (h ++ [.event (.abandoned s.current.id newer.revision)])) (Triple.emit ?_) fun _ => ?_
    · intro h w hr
      simpa using hr
    exact Triple.bind (Triple.emit fun _ _ hr => hr) fun _ => takeUp_passed _ _ _
  | vetoed reason =>
    apply Triple.emit_bind
    refine Triple.bind (m := fun _ h w => L.Reaches obs ctx o₀
      (.ended { s.report with runEnd := some (.vetoed (reason.getD "veto fired")) }) w.2 h)
      (Triple.emit ?_) fun _ => Triple.pure fun _ w hr => by exact hr
    rintro _ w ⟨h, hr, rfl⟩
    rw [List.append_assoc]
    exact hr.move .veto
  | decided d => exact afterDecide_triple s d

theorem iterate_triple (rounds n : ℕ) (s : State) :
    Triple (fun h w => L.Reaches obs ctx o₀ (.top s) w.2 h) (L.iterate obs ctx rounds n s)
      (fun report h w => L.Reaches obs ctx o₀ (.ended report) w.2 h) (L.IsHistory obs ctx o₀) := by
  induction n generalizing s with
  | zero => exact Triple.never fun _ _ hr => hr.isHistory trivial
  | succ n ih =>
    unfold iterate
    refine Triple.bind (iteration_triple rounds s) fun r => ?_
    cases r with
    | inl s' => exact ih s'
    | inr report => exact Triple.pure fun _ _ hr => hr

variable (L obs ctx) in
/-- A span makes the moves of the loop from the start to its end, or as far as it gets. -/
theorem runSpan_triple (fuel : ℕ) (o₀ : O) :
    Triple (fun h w => h = [] ∧ w.2 = o₀) (L.runSpan obs ctx fuel)
      (fun report h w => L.Reaches obs ctx o₀ (.ended report) w.2 h) (L.IsHistory obs ctx o₀) := by
  unfold runSpan
  refine Triple.bind ((nextGoal_triple RunReport.empty L.stallDetector).strengthen_pre ?_)
    fun r => ?_
  · rintro h w ⟨rfl, rfl⟩
    exact .start
  cases r with
  | some goal =>
    exact Triple.bind (Triple.onFst fun _ => takeUp_triple goal _ _) fun s =>
      iterate_triple fuel fuel s
  | none => exact Triple.pure fun _ _ hr => hr

/-- A span that returns has made the moves of the loop to its end. -/
theorem reaches_ended {fuel : ℕ} {w w' : W × O} {report : RunReport}
    (h : (L.runSpan obs ctx fuel w).2 = some (report, w')) :
    L.Reaches obs ctx w.2 (.ended report) w'.2 (L.runSpan obs ctx fuel w).1 :=
  Triple.returns (runSpan_triple L obs ctx fuel w.2) ⟨rfl, rfl⟩ h

/-- A span that does not return has made moves of the loop to where it hangs. -/
theorem isHistory_of_eq_none {fuel : ℕ} {w : W × O} (h : (L.runSpan obs ctx fuel w).2 = none) :
    L.IsHistory obs ctx w.2 (L.runSpan obs ctx fuel w).1 :=
  Triple.hangs (runSpan_triple L obs ctx fuel w.2) ⟨rfl, rfl⟩ h

variable (L obs ctx) in
/-- What a span does, it does by the moves of the loop. -/
theorem exists_reaches (fuel : ℕ) (w : W × O) :
    ∃ p o, L.Reaches obs ctx w.2 p o (L.runSpan obs ctx fuel w).1 := by
  cases h : (L.runSpan obs ctx fuel w).2 with
  | none =>
    obtain ⟨p, o, hr, -⟩ := isHistory_of_eq_none h
    exact ⟨p, o, hr⟩
  | some r => exact ⟨_, _, reaches_ended h⟩

end Loop

end Pan
