import Pan.Plugins
import Pan.Steps

namespace Pan

open Eff History

variable {W O : Type}

/-! ## Calls that return -/

/-- The executor returns whatever the calls of its invoker are answered with. -/
inductive Execution.Terminates : Execution W → Prop
  | returns {result w} : Terminates (.returns result w)
  | invokes {capability args w resume} : (∀ answer w', Terminates (resume answer w')) →
      Terminates (.invokes capability args w resume)

structure Pipeline.Responsive (P : Pipeline W) : Prop where
  govern : ∀ scope capability args w, (P.governor.govern scope capability args w).isSome
  preInvoke : ∀ hook ∈ P.hooks, ∀ scope capability args w,
    (hook.preInvoke scope capability args w).isSome
  postInvoke : ∀ hook ∈ P.hooks, ∀ scope capability args result w,
    (hook.postInvoke scope capability args result w).isSome
  execute : ∀ capability args w, (P.executor.execute capability args w).isSome
  executeWithInvoker : ∀ capability args w,
    (P.executor.executeWithInvoker capability args w).Terminates

/-- Each call of a plugin returns: a `decide` is ready at some poll, whatever happens to the world
between the polls. -/
structure Loop.Responsive (L : Loop W) (obs : Observations W O) : Prop where
  pipeline : L.pipeline.Responsive
  decide : ∀ goal ctx caps (worlds : ℕ → W),
    ∃ n, (L.provider.decide goal ctx caps n (worlds n)).1.isSome
  compact : ∀ compactor, L.compactor = some compactor → ∀ ctx budget w,
    (compactor.compact ctx budget w).isSome
  evaluate : ∀ evaluator, L.evaluator = some evaluator → ∀ goal ctx report w,
    (evaluator.evaluate goal ctx report w).isSome
  nextGoal : ∀ w, (obs.nextGoal w).isSome

theorem returns_call {Λ α : Type} {f : Call W α} (hf : ∀ w, (f w).isSome) :
    Returns (call f : Eff Λ W α) := by
  intro w
  obtain ⟨r, hr⟩ := Option.isSome_iff_exists.mp (hf w)
  exact ⟨r.1, r.2, hr⟩

theorem Execution.run_returns {invoker : ScopedInvoker W}
    (hinv : ∀ capability args, Returns (invoker capability args)) {x : Execution W}
    (hx : x.Terminates) : ∃ r, (x.run invoker).2 = some r := by
  induction hx with
  | returns => exact ⟨_, rfl⟩
  | invokes _ ih =>
    rename_i capability args w resume _
    obtain ⟨answer, w', hr⟩ := hinv capability args w
    obtain ⟨r, hrun⟩ := ih answer w'
    refine ⟨r, ?_⟩
    unfold Execution.run
    split
    · rename_i t heq
      rw [heq] at hr
      cases hr
    · rename_i t answer' w'' heq
      rw [heq] at hr
      cases hr
      exact hrun

namespace Pipeline

variable {P : Pipeline W} (hP : P.Responsive)

include hP

theorem clear_returns (request : EffectRequest) : Returns (P.clear request) := by
  unfold clear
  refine Returns.andThen ?_ fun resolved => Returns.andThen ?_ fun validated => ?_
  · unfold resolve
    split
    · exact Returns.pure _
    · exact Returns.bind (Returns.emit _) fun _ => Returns.pure _
  · unfold validate
    split
    · exact Returns.bind (Returns.emit _) fun _ => Returns.pure _
    · exact Returns.bind (Returns.emit _) fun _ => Returns.pure _
  · unfold govern
    refine Returns.bind (returns_call (hP.govern _ _ _)) fun verdict => ?_
    refine Returns.bind (Returns.emit _) fun _ => ?_
    cases verdict with
    | allow => exact Returns.bind (Returns.emit _) fun _ => Returns.pure _
    | deny reason => exact Returns.bind (Returns.emit _) fun _ => Returns.pure _
    | requireApproval reason => exact Returns.bind (Returns.emit _) fun _ => Returns.pure _

theorem preInvokeAll_returns (request : EffectRequest) {hooks : List (EffectHook W)}
    (hsub : ∀ hook ∈ hooks, hook ∈ P.hooks) : Returns (preInvokeAll request hooks) := by
  induction hooks with
  | nil => exact Returns.pure _
  | cons hook hooks ih =>
    have hmem : hook ∈ P.hooks := hsub hook List.mem_cons_self
    unfold preInvokeAll
    refine Returns.bind (returns_call (hP.preInvoke hook hmem _ _ _)) fun answer => ?_
    refine Returns.bind (Returns.emit _) fun _ => ?_
    cases answer with
    | error reason => exact Returns.pure _
    | ok u => exact ih fun hook' h => hsub hook' (List.mem_cons_of_mem hook h)

theorem postInvokeAll_returns (request : EffectRequest) (result : Except String Value)
    {hooks : List (EffectHook W)} (hsub : ∀ hook ∈ hooks, hook ∈ P.hooks) :
    Returns (postInvokeAll request result hooks) := by
  induction hooks with
  | nil => exact Returns.pure _
  | cons hook hooks ih =>
    have hmem : hook ∈ P.hooks := hsub hook List.mem_cons_self
    unfold postInvokeAll
    refine Returns.bind (returns_call (hP.postInvoke hook hmem _ _ _ _)) fun _ => ?_
    refine Returns.bind (Returns.emit _) fun _ => ?_
    exact ih fun hook' h => hsub hook' (List.mem_cons_of_mem hook h)

theorem perform_returns (request : EffectRequest)
    {run : Eff Action W (Except ExecError Value)} (hrun : Returns run) :
    Returns (P.perform request run) := by
  unfold perform
  refine Returns.bind (preInvokeAll_returns hP request fun _ h => h) fun r => ?_
  cases r with
  | error reason => exact Returns.pure _
  | ok u =>
    refine Returns.bind hrun fun result => ?_
    refine Returns.bind (postInvokeAll_returns hP request _ fun _ h => h) fun _ => ?_
    cases result with
    | ok value =>
      refine Returns.bind (Returns.emit _) fun _ => ?_
      exact Returns.bind (Returns.emit _) fun _ => Returns.pure _
    | error e => exact Returns.bind (Returns.emit _) fun _ => Returns.pure _

theorem dispatch_returns (request : EffectRequest) : Returns (P.dispatch request) := by
  unfold dispatch
  refine Returns.bind (Returns.emit _) fun _ => ?_
  refine Returns.andThen (clear_returns hP _) fun governed => ?_
  apply perform_returns hP
  exact Returns.bind (Returns.emit _) fun _ => returns_call (hP.execute _ _)

theorem invoke_returns (scope : Scope) (capability : String) (args : Value) :
    Returns (P.invoke scope capability args) := by
  unfold invoke
  refine Returns.bind (dispatch_returns hP _) fun r => ?_
  cases r with
  | ok effected => exact Returns.pure _
  | error e => exact Returns.pure _

theorem dispatchWithInvoker_returns (request : EffectRequest) (scope : Scope) :
    Returns (P.dispatchWithInvoker request (P.invoke scope)) := by
  unfold dispatchWithInvoker
  refine Returns.bind (Returns.emit _) fun _ => ?_
  refine Returns.andThen (clear_returns hP _) fun governed => ?_
  apply perform_returns hP
  refine Returns.bind (Returns.emit _) fun _ w => ?_
  obtain ⟨r, hr⟩ := Execution.run_returns (invoke_returns hP scope)
    (hP.executeWithInvoker governed.request.capability governed.request.args w)
  exact ⟨r.1, r.2, hr⟩

end Pipeline

namespace Loop

variable {L : Loop W} {obs : Observations W O} {ctx : Context}

section Calls

variable (hL : L.Responsive obs)

include hL

theorem enactIntent_returns (e : Enacting) (intent : ActionIntent) :
    Returns (L.enactIntent e intent) := by
  cases intent with
  | invoke capability args correlation =>
    unfold enactIntent enactInvoke
    refine Returns.bind (Pipeline.dispatchWithInvoker_returns hL.pipeline _ _) fun r => ?_
    cases r with
    | ok eff => exact Returns.bind (Returns.emit _) fun _ => Returns.pure _
    | error err =>
      refine Returns.bind (Returns.emit _) fun _ => ?_
      exact Returns.bind (Returns.emit _) fun _ => Returns.pure _
  | express body =>
    unfold enactIntent enactExpress
    refine Returns.bind (Returns.emit _) fun _ => ?_
    split
    · exact Returns.bind (Returns.emit _) fun _ => Returns.pure _
    · exact Returns.bind (Returns.pure _) fun _ => Returns.pure _
  | conclude outcome => exact Returns.pure _

theorem enact_returns (e : Enacting) (intents : List ActionIntent) :
    Returns (L.enact e intents) := by
  induction intents generalizing e with
  | nil => exact Returns.pure _
  | cons intent intents ih =>
    unfold enact
    exact Returns.bind (enactIntent_returns hL e intent) fun e' => ih e'

theorem compactIfOver_returns (c : Context) : Returns (L.compactIfOver c) := by
  unfold compactIfOver
  cases hc : L.compactor with
  | none => exact Returns.pure _
  | some compactor =>
    cases L.contextBudget with
    | none => exact Returns.pure _
    | some budget =>
      dsimp only
      split
      · exact returns_call (hL.compact compactor hc c budget)
      · exact Returns.pure _

theorem takeUp_returns (goal : Goal) (report : RunReport) (sd : Option StallDetector) :
    Returns (L.takeUp ctx goal report sd) := by
  unfold takeUp
  refine Returns.bind (Returns.emit _) fun _ => ?_
  exact Returns.bind (compactIfOver_returns hL ctx) fun _ => Returns.pure _

theorem conclude_returns (s : State) (report : RunReport) (outcome : Outcome) :
    Returns (L.conclude s report outcome) := by
  unfold conclude
  refine Returns.bind ?_ fun eval => Returns.bind (Returns.emit _) fun _ => ?_
  · unfold evaluate
    split
    · rename_i evaluator he
      exact returns_call (hL.evaluate evaluator he _ _ _)
    · exact Returns.pure _
  · split <;> exact Returns.pure _

theorem feedBack_returns (s : State) (e : Enacting) : Returns (L.feedBack s e) := by
  unfold feedBack
  split
  · exact Returns.bind (Returns.emit _) fun _ => Returns.pure _
  · exact Returns.bind (compactIfOver_returns hL _) fun _ => Returns.pure _

theorem takeUp_inl_returns (goal : Goal) (report : RunReport) (sd : Option StallDetector) :
    Returns (Sum.inl <$> onFst (L.takeUp ctx goal report sd) :
      Eff Action (W × O) (State ⊕ RunReport)) :=
  Returns.bind (Returns.onFst (takeUp_returns hL goal report sd)) fun _ => Returns.pure _

theorem afterDecide_returns (s : State) (d : Decision) : Returns (L.afterDecide obs ctx s d) := by
  unfold afterDecide
  refine Returns.bind (Returns.emit _) fun _ => Returns.bind (Returns.emit _) fun _ => ?_
  refine Returns.bind (Returns.onFst (enact_returns hL _ _)) fun e => ?_
  refine Returns.bind (Returns.emit _) fun _ => ?_
  split
  · exact Returns.bind (Returns.onFst (conclude_returns hL _ _ _)) fun _ => Returns.pure _
  · split
    · unfold advance
      refine Returns.bind (returns_call hL.nextGoal) fun r => ?_
      cases r with
      | some goal => exact takeUp_inl_returns hL goal _ _
      | none => exact Returns.pure _
    · exact Returns.onFst (feedBack_returns hL s e)

end Calls

/-! ## The race is decided -/

section Race

variable (L obs) (goal : Goal) (c : Context) (caps : List Capability)

/-- The world after round `n` of the race, if nobody is ready. -/
def afterRound (n : ℕ) (w : W × O) : W × O :=
  let w₁ := (obs.superseded goal n w).2
  let w₂ := (L.vetoSource.vetoed n w₁.1).2
  ((L.provider.decide goal c caps n w₂).2, w₁.2)

/-- The world in which the `decide` is polled in round `n`. -/
def decideWorld (n : ℕ) (w : W × O) : W :=
  (L.vetoSource.vetoed n (obs.superseded goal n w).2.1).2

variable {L obs goal c caps}

theorem select_succ {rounds n : ℕ} {w : W × O}
    (h : (L.provider.decide goal c caps n (L.decideWorld obs goal n w)).1.isSome ∨
      (L.select obs goal c caps rounds (n + 1) (L.afterRound obs goal c caps n w)).2.isSome) :
    (L.select obs goal c caps (rounds + 1) n w).2.isSome := by
  unfold select
  rcases hsup : obs.superseded goal n w with ⟨_ | newer, w₁, o₁⟩
  · rcases hveto : L.vetoSource.vetoed n w₁ with ⟨_ | reason, w₂⟩
    · rcases hdecide : L.provider.decide goal c caps n w₂ with ⟨_ | d, w₃⟩
      · simp [decideWorld, afterRound, hsup, hveto, hdecide] at h
        simp [bind_eq, onFst, hsup, hveto, hdecide, h]
      · simp [bind_eq, onFst, hsup, hveto, hdecide]
    · simp [bind_eq, onFst, hsup, hveto]
  · simp [bind_eq, hsup]

variable (goal c caps) in
theorem select_returns (hL : L.Responsive obs) (w : W × O) :
    ∃ rounds, (L.select obs goal c caps rounds 0 w).2.isSome := by
  let world : ℕ → W × O := fun n =>
    n.rec w fun n w => L.afterRound obs goal c caps n w
  obtain ⟨n, hn⟩ := hL.decide goal c caps fun n => L.decideWorld obs goal n (world n)
  -- from the round in which the `decide` is ready back to the first
  suffices hback : ∀ m, ∃ rounds,
      (L.select obs goal c caps rounds (n - m) (world (n - m))).2.isSome by
    obtain ⟨rounds, hr⟩ := hback n
    rw [Nat.sub_self] at hr
    exact ⟨rounds, hr⟩
  intro m
  induction m with
  | zero => exact ⟨0 + 1, select_succ (Or.inl hn)⟩
  | succ m ih =>
    obtain ⟨rounds, hr⟩ := ih
    by_cases hm : m < n
    · have hsub : n - m = n - (m + 1) + 1 := by omega
      rw [hsub] at hr
      exact ⟨rounds + 1, select_succ (Or.inr hr)⟩
    · have hsub : n - (m + 1) = n - m := by omega
      rw [hsub]
      exact ⟨rounds, hr⟩

end Race

/-! ## More fuel changes nothing -/

theorem select_approximates (goal : Goal) (c : Context) (caps : List Capability)
    {rounds rounds' : ℕ} (h : rounds ≤ rounds') (n : ℕ) :
    Approximates (L.select obs goal c caps rounds n) (L.select obs goal c caps rounds' n) := by
  induction rounds generalizing rounds' n with
  | zero => exact Approximates.never _
  | succ rounds ih =>
    obtain ⟨m, rfl⟩ : ∃ m, rounds' = m + 1 := ⟨rounds' - 1, by omega⟩
    unfold select
    refine Approximates.bind (Approximates.refl _) fun r => ?_
    cases r with
    | some newer => exact Approximates.refl _
    | none =>
      refine Approximates.bind (Approximates.refl _) fun r => ?_
      cases r with
      | some reason => exact Approximates.refl _
      | none =>
        refine Approximates.bind (Approximates.refl _) fun r => ?_
        cases r with
        | some d => exact Approximates.refl _
        | none => exact ih (by omega) (n + 1)

theorem iteration_approximates {rounds rounds' : ℕ} (h : rounds ≤ rounds') (s : State) :
    Approximates (L.iteration obs ctx rounds s) (L.iteration obs ctx rounds' s) := by
  unfold iteration
  refine Approximates.bind (Approximates.refl _) fun _ => ?_
  refine Approximates.bind (Approximates.refl _) fun _ => ?_
  exact Approximates.bind (select_approximates _ _ _ h 0) fun _ => Approximates.refl _

theorem iterate_approximates {rounds rounds' n n' : ℕ} (h : rounds ≤ rounds') (hn : n ≤ n')
    (s : State) :
    Approximates (L.iterate obs ctx rounds n s) (L.iterate obs ctx rounds' n' s) := by
  induction n generalizing n' s with
  | zero => exact Approximates.never _
  | succ n ih =>
    obtain ⟨m, rfl⟩ : ∃ m, n' = m + 1 := ⟨n' - 1, by omega⟩
    unfold iterate
    refine Approximates.bind (iteration_approximates h s) fun r => ?_
    cases r with
    | inl s' => exact ih (by omega) s'
    | inr report => exact Approximates.refl _

/-- A span that returns does the same with more fuel. -/
theorem runSpan_approximates {fuel fuel' : ℕ} (h : fuel ≤ fuel') :
    Approximates (L.runSpan obs ctx fuel) (L.runSpan obs ctx fuel') := by
  unfold runSpan
  refine Approximates.bind (Approximates.refl _) fun r => ?_
  cases r with
  | some goal =>
    exact Approximates.bind (Approximates.refl _) fun s => iterate_approximates h h s
  | none => exact Approximates.refl _

/-! ## Every pass makes progress -/

theorem takeUp_toolSteps (goal : Goal) (report : RunReport) (sd : Option StallDetector) :
    Triple (fun _ _ => True) (L.takeUp ctx goal report sd) (fun s _ _ => s.toolSteps = 0)
      fun _ => True := by
  unfold takeUp
  refine Triple.bind (m := fun _ _ _ => True) (Triple.emit fun _ _ h => h) fun _ => ?_
  exact Triple.bind (compactIfOver_triple (fun _ _ _ _ h _ => h) fun _ _ h => h) fun _ =>
    Triple.pure fun _ _ _ => rfl

end Loop

theorem Observations.Run.trans {obs : Observations W O} {o₀ o o' : O} {j k : ℕ}
    (h : obs.Run o₀ j o) (h' : obs.Run o k o') : obs.Run o₀ (j + k) o' := by
  induction h' with
  | start => exact h
  | next _ hn ih => exact .next ih hn
  | exhausted _ hn ih => exact .exhausted ih hn
  | superseded _ hn ih => exact .superseded ih hn
  | pending _ hn ih => exact .pending ih hn

theorem Observations.DeliversAtMost.after {obs : Observations W O} {o o' : O} {j n : ℕ}
    (h : obs.DeliversAtMost n o) (hr : obs.Run o j o') :
    j ≤ n ∧ obs.DeliversAtMost (n - j) o' := by
  refine ⟨h j o' hr, fun k o'' hk => ?_⟩
  have hle := h _ _ (hr.trans hk)
  omega

namespace Loop

variable {L : Loop W} {obs : Observations W O} {ctx : Context}

/-- A pass that goes on has taken up a new goal, or it has used a step of the goal at hand. -/
def Progress (obs : Observations W O) (n : ℕ) (s : State) (r : State ⊕ RunReport) (o : O) :
    Prop :=
  ∀ s', r = .inl s' → s'.toolSteps < maxToolSteps ∧
    ((0 < n ∧ obs.DeliversAtMost (n - 1) o) ∨
      (obs.DeliversAtMost n o ∧ s'.toolSteps = s.toolSteps + 1))

theorem takeUp_progress {n : ℕ} (s : State) (goal : Goal) (report : RunReport)
    (sd : Option StallDetector) :
    Triple (fun _ w => 0 < n ∧ obs.DeliversAtMost (n - 1) w.2)
      (Sum.inl <$> onFst (L.takeUp ctx goal report sd))
      (fun r _ w => Progress obs n s r w.2) fun _ => True := by
  refine Triple.bind (Triple.frame (takeUp_toolSteps goal report sd)
    fun o => 0 < n ∧ obs.DeliversAtMost (n - 1) o) fun s' => ?_
  refine Triple.pure fun h w hh s'' hs => ?_
  cases hs
  have hsteps : s'.toolSteps < maxToolSteps := by
    rw [hh.1]
    exact Nat.zero_lt_succ 7
  exact ⟨hsteps, Or.inl hh.2⟩

theorem select_progress {n : ℕ} (s : State) (caps : List Capability) (rounds k : ℕ) :
    Triple (fun _ w => obs.DeliversAtMost n w.2)
      (L.select obs s.current s.workingCtx caps rounds k)
      (fun r _ w => match r with
        | .superseded _ => 0 < n ∧ obs.DeliversAtMost (n - 1) w.2
        | _ => obs.DeliversAtMost n w.2) fun _ => True := by
  induction rounds generalizing k with
  | zero => exact Triple.never fun _ _ _ => trivial
  | succ rounds ih =>
    unfold select
    refine Triple.bind (m := fun r _ w => r.elim (obs.DeliversAtMost n w.2)
      fun _ => 0 < n ∧ obs.DeliversAtMost (n - 1) w.2) (Triple.ask ?_) fun r => ?_
    · rintro h ⟨w, o⟩ hn
      -- only a supersession takes a goal from the source
      rcases hpoll : obs.superseded s.current k (w, o) with ⟨_ | newer, w', o'⟩
      · exact (hn.after (.pending .start hpoll)).2
      · exact hn.after (.superseded .start hpoll)
    cases r with
    | some newer => exact Triple.pure fun _ _ hh => hh
    | none =>
      change Triple (fun _ (w : W × O) => obs.DeliversAtMost n w.2) _ _ _
      refine Triple.bind (m := fun _ _ w => obs.DeliversAtMost n w.2)
        (Triple.onFst fun o => Triple.ask fun _ _ hh => hh) fun r => ?_
      cases r with
      | some reason => exact Triple.pure fun _ _ hh => hh
      | none =>
        refine Triple.bind (m := fun _ _ w => obs.DeliversAtMost n w.2)
          (Triple.onFst fun o => Triple.ask fun _ _ hh => hh) fun r => ?_
        cases r with
        | some d => exact Triple.pure fun _ _ hh => hh
        | none => exact ih (k + 1)

theorem feedBack_toolSteps (s : State) (e : Enacting) :
    Triple (fun _ _ => True) (L.feedBack s e)
      (fun r _ _ => ∀ s', r = .inl s' → s'.toolSteps < maxToolSteps ∧
        s'.toolSteps = s.toolSteps + 1) fun _ => True := by
  unfold feedBack
  split
  · exact Triple.bind (Triple.unknown _) fun _ => Triple.pure fun _ _ _ s' hs => by cases hs
  · rename_i hlt
    refine Triple.bind (Triple.unknown _) fun c => Triple.pure fun _ _ _ s' hs => ?_
    cases hs
    exact ⟨by show s.toolSteps + 1 < maxToolSteps; omega, rfl⟩

theorem afterDecide_progress {n : ℕ} (s : State) (d : Decision) :
    Triple (fun _ w => obs.DeliversAtMost n w.2) (L.afterDecide obs ctx s d)
      (fun r _ w => Progress obs n s r w.2) fun _ => True := by
  unfold afterDecide
  refine Triple.bind (m := fun _ _ w => obs.DeliversAtMost n w.2)
    (Triple.emit fun _ _ hh => hh) fun _ => ?_
  refine Triple.bind (m := fun _ _ w => obs.DeliversAtMost n w.2)
    (Triple.emit fun _ _ hh => hh) fun _ => ?_
  refine Triple.bind (Triple.frame (Triple.unknown _) (obs.DeliversAtMost n)) fun e => ?_
  refine Triple.bind (m := fun _ _ w => obs.DeliversAtMost n w.2)
    (Triple.emit fun _ _ hh => hh.2) fun _ => ?_
  -- a conclusion ends the span, a next goal uses up a delivery, a feedback a step
  split
  · exact Triple.bind (Triple.frame (Triple.unknown _) (obs.DeliversAtMost n)) fun report =>
      Triple.pure fun _ _ _ s' hs => by cases hs
  · split
    · unfold advance
      refine Triple.bind (m := fun r _ w => r.elim True
        fun _ => 0 < n ∧ obs.DeliversAtMost (n - 1) w.2)
        (Triple.call ?_ fun _ _ _ => trivial) fun r => ?_
      · intro h w r w' hn hcall
        cases r with
        | some goal => exact hn.after (.next (w := w.1) .start hcall)
        | none => trivial
      cases r with
      | some goal => exact takeUp_progress s goal _ _
      | none => exact Triple.pure fun _ _ _ s' hs => by cases hs
    · refine (Triple.frame (feedBack_toolSteps s e) (obs.DeliversAtMost n)).weaken
        (fun _ _ hh => hh) ?_ fun _ hh => hh
      intro r _ w hh s' hs
      obtain ⟨hlt, hsteps⟩ := hh.1 s' hs
      exact ⟨hlt, Or.inr ⟨hh.2, hsteps⟩⟩

theorem iteration_progress {n : ℕ} (rounds : ℕ) (s : State) :
    Triple (fun _ w => obs.DeliversAtMost n w.2) (L.iteration obs ctx rounds s)
      (fun r _ w => Progress obs n s r w.2) fun _ => True := by
  unfold iteration
  refine Triple.bind (m := fun _ _ w => obs.DeliversAtMost n w.2)
    (Triple.emit fun _ _ hh => hh) fun _ => ?_
  refine Triple.bind (m := fun _ _ w => obs.DeliversAtMost n w.2)
    (Triple.emit fun _ _ hh => hh) fun _ => ?_
  refine Triple.bind (select_progress s _ rounds 0) fun r => ?_
  cases r with
  | superseded newer =>
    refine Triple.bind (m := fun _ _ w => 0 < n ∧ obs.DeliversAtMost (n - 1) w.2)
      (Triple.emit fun _ _ hh => hh) fun _ => ?_
    refine Triple.bind (m := fun _ _ w => 0 < n ∧ obs.DeliversAtMost (n - 1) w.2)
      (Triple.emit fun _ _ hh => hh) fun _ => ?_
    exact takeUp_progress s newer _ _
  | vetoed reason =>
    refine Triple.bind (Triple.unknown _ |>.strengthen_pre fun _ _ _ => trivial) fun _ => ?_
    refine Triple.bind (Triple.unknown _) fun _ => ?_
    exact Triple.pure fun _ _ _ s' hs => by cases hs
  | decided d => exact afterDecide_progress s d

variable (ctx) in
theorem iteration_returns (hL : L.Responsive obs) (s : State) (w : W × O) :
    ∃ rounds r, (L.iteration obs ctx rounds s w).2 = some r := by
  obtain ⟨rounds, hselect⟩ := select_returns s.current s.workingCtx
    L.pipeline.registry.all hL w
  obtain ⟨⟨r, w'⟩, hr⟩ := Option.isSome_iff_exists.mp hselect
  refine ⟨rounds, ?_⟩
  unfold iteration
  apply exists_returns_bind rfl
  apply exists_returns_bind rfl
  apply exists_returns_bind hr
  cases r with
  | superseded newer =>
    apply exists_returns_bind rfl
    apply exists_returns_bind rfl
    obtain ⟨a, w'', ha⟩ := takeUp_inl_returns hL newer s.report s.stallDetector w'
    exact ⟨_, ha⟩
  | vetoed reason => exact ⟨_, rfl⟩
  | decided d =>
    obtain ⟨a, w'', ha⟩ := afterDecide_returns hL s d w'
    exact ⟨_, ha⟩

/-! ## Every span ends -/

/-- A pass that goes on, and then the rest of the inner loop. -/
theorem iterate_of_inl {rounds : ℕ} {s s' : State} {w w' : W × O}
    (hr : (L.iteration obs ctx rounds s w).2 = some (.inl s', w'))
    (hrest : ∃ fuel r, (L.iterate obs ctx fuel fuel s' w').2 = some r) :
    ∃ fuel r, (L.iterate obs ctx fuel fuel s w).2 = some r := by
  obtain ⟨fuel, r, hfuel⟩ := hrest
  have hmax : rounds ≤ max rounds fuel + 1 := by omega
  have hiteration := iteration_approximates hmax s w _ hr
  have hiterate := iterate_approximates (show fuel ≤ max rounds fuel + 1 by omega)
    (show fuel ≤ max rounds fuel by omega) s' w' r hfuel
  have hend : (L.iterate obs ctx (max rounds fuel + 1) (max rounds fuel) s' w').2 = some r := by
    rw [hiterate]
    exact hfuel
  refine ⟨max rounds fuel + 1, ?_⟩
  unfold iterate
  apply exists_returns_bind (a := .inl s') (w := w)
  · rw [hiteration]
    exact hr
  · exact ⟨r, hend⟩

/-- A pass that ends the span. -/
theorem iterate_of_inr {rounds : ℕ} {s : State} {report : RunReport} {w w' : W × O}
    (hr : (L.iteration obs ctx rounds s w).2 = some (.inr report, w')) :
    ∃ fuel r, (L.iterate obs ctx fuel fuel s w).2 = some r := by
  have hiteration := iteration_approximates (show rounds ≤ rounds + 1 by omega) s w _ hr
  refine ⟨rounds + 1, ?_⟩
  unfold iterate
  apply exists_returns_bind (a := .inr report) (w := w)
  · rw [hiteration]
    exact hr
  · exact ⟨_, rfl⟩

/-- The inner loop ends: by induction on the goals to be delivered, and then on the steps left. -/
theorem iterate_returns (hL : L.Responsive obs) (n m : ℕ) (s : State)
    (hs : s.toolSteps < maxToolSteps) (hm : maxToolSteps ≤ s.toolSteps + m) (w : W × O)
    (hn : obs.DeliversAtMost n w.2) :
    ∃ fuel r, (L.iterate obs ctx fuel fuel s w).2 = some r := by
  induction n using Nat.strong_induction_on generalizing m s w with
  | _ n ihn =>
    induction m generalizing s w with
    | zero => omega
    | succ m ihm =>
      obtain ⟨rounds, ⟨r, w'⟩, hr⟩ := iteration_returns ctx hL s w
      have hpost : Triple (fun _ w => obs.DeliversAtMost n w.2) (L.iteration obs ctx rounds s)
          (fun r _ w => Progress obs n s r w.2) fun _ => True := iteration_progress rounds s
      have hprogress : Progress obs n s r w'.2 := hpost.returns (h := []) hn hr
      cases r with
      | inr report => exact iterate_of_inr hr
      | inl s' =>
        apply iterate_of_inl hr
        obtain ⟨hs', hdelivered | ⟨hn', hstep⟩⟩ := hprogress s' rfl
        · have hlt : n - 1 < n := by omega
          exact ihn (n - 1) hlt maxToolSteps s' hs' (by omega) w' hdelivered.2
        · exact ihm s' hs' (by omega) w' hn'

variable (ctx) in
theorem runSpan_returns (hL : L.Responsive obs) {n : ℕ} {w : W × O}
    (hn : obs.DeliversAtMost n w.2) : ∃ fuel r, (L.runSpan obs ctx fuel w).2 = some r := by
  obtain ⟨⟨r, w'⟩, hnext⟩ := Option.isSome_iff_exists.mp (hL.nextGoal w)
  cases r with
  | none =>
    refine ⟨0, ?_⟩
    unfold runSpan
    apply exists_returns_bind (a := none) (w := w) hnext
    exact ⟨_, rfl⟩
  | some goal =>
    have hn' : obs.DeliversAtMost (n - 1) w'.2 := (hn.after (.next (w := w.1) .start hnext)).2
    have htaken : Returns (L.takeUp ctx goal RunReport.empty L.stallDetector) :=
      takeUp_returns hL goal _ _
    have hsteps : Triple (fun _ _ => True) (L.takeUp ctx goal RunReport.empty L.stallDetector)
        (fun s _ _ => s.toolSteps = 0) fun _ => True := takeUp_toolSteps goal _ _
    obtain ⟨s, w'', hs⟩ := htaken.onFst (O := O) w'
    have hpost := (hsteps.frame (obs.DeliversAtMost (n - 1))).returns (h := []) hn' hs
    have hlt : s.toolSteps < maxToolSteps := by
      rw [hpost.1]
      exact Nat.zero_lt_succ 7
    obtain ⟨fuel, r, hr⟩ := iterate_returns hL (n - 1) maxToolSteps s hlt (by omega) w'' hpost.2
    refine ⟨fuel, ?_⟩
    unfold runSpan
    apply exists_returns_bind (a := some goal) (w := w) hnext
    exact exists_returns_bind hs ⟨r, hr⟩

/-- A span that has come to its end says how. -/
theorem Reaches.runEnd_isSome {o₀ o : O} {report : RunReport} {h : List Action}
    (hr : L.Reaches obs ctx o₀ (.ended report) o h) : report.runEnd.isSome := by
  let I : Point → O → List Action → Prop := fun p _ _ =>
    ∀ report, p = .ended report → report.runEnd.isSome
  have hmove : ∀ p o h t p' o', I p o h → L.Moves obs ctx p o t p' o' → I p' o' (h ++ t) := by
    intro p o h t p' o' _ hm report hp
    cases hm <;> cases hp <;> trivial
  exact hr.invariant (I := I) (fun _ hp => nomatch hp) hmove report rfl

theorem responsive_ofProvider (registry : CapabilityRegistry) (d : Decision) (formats : Formats) :
    (Loop.ofProvider registry (ScriptedProvider W d) formats).Responsive (Once W) where
  pipeline :=
    { govern := fun _ _ _ _ => rfl
      preInvoke := fun _ h => by cases h
      postInvoke := fun _ h => by cases h
      execute := fun _ _ _ => rfl
      executeWithInvoker := fun _ _ _ => .returns }
  decide := fun _ _ _ _ => ⟨0, rfl⟩
  compact := fun _ h => by cases h
  evaluate := fun _ h => by cases h
  nextGoal := fun _ => rfl

theorem deliversAtMost_once (o : Option Goal) : (Once W).DeliversAtMost o.toList.length o := by
  intro k o' hr
  suffices hle : k + o'.toList.length ≤ o.toList.length by omega
  induction hr with
  | start => omega
  | next _ hn ih =>
    cases hn
    simp at ih ⊢
    omega
  | exhausted _ hn ih =>
    cases hn
    exact ih
  | superseded _ hn => cases hn
  | pending _ hn ih =>
    cases hn
    exact ih

/-- If every call of a plugin returns and the source delivers at most `n` goals, then the span
returns, whatever more fuel it is given, and its report says how it ended; on each goal that was
delivered it completes and enacts at most `maxToolSteps` decisions. -/
theorem span_terminates (L : Loop W) (obs : Observations W O) (ctx : Context) (n : ℕ)
    (w : W × O) (hL : L.Responsive obs) (hn : obs.DeliversAtMost n w.2) :
    ∃ fuel₀ h report w',
      (∀ fuel, fuel₀ ≤ fuel → L.runSpan obs ctx fuel w = (h, some (report, w'))) ∧
      report.runEnd.isSome ∧ h.countP Action.isObserved ≤ n ∧
      h.countP Action.isDecided ≤ maxToolSteps * n ∧
      (∀ pre goal d post, h = pre ++ .decided goal d :: post →
        latest Action.observedGoal pre = some goal ∧
        (since Action.isObserved pre).countP Action.isDecided < maxToolSteps) ∧
      ∀ pre goal d post, h = pre ++ .enacted goal d :: post →
        latest Action.observedGoal pre = some goal ∧
        (since Action.isObserved pre).countP Action.isEnacted < maxToolSteps := by
  obtain ⟨fuel₀, ⟨report, w'⟩, hr⟩ := runSpan_returns ctx hL hn
  have hreaches := reaches_ended hr
  have hobserved := hreaches.countP_observed_le hn
  have hdecided := hreaches.countP_decided_le
  refine ⟨fuel₀, (L.runSpan obs ctx fuel₀ w).1, report, w', ?_, hreaches.runEnd_isSome, hobserved,
    ?_, ?_, ?_⟩
  · intro fuel hfuel
    rw [runSpan_approximates hfuel w _ hr, ← hr]
  · exact hdecided.trans (Nat.mul_le_mul_left maxToolSteps hobserved)
  · intro pre goal d post he
    exact (hreaches.withinBudget.1 pre _ post he).1 goal d rfl
  · intro pre goal d post he
    exact (hreaches.withinBudget.1 pre _ post he).2 goal d rfl

/-- A provider that goes on invoking and never concludes is stopped. -/
theorem span_terminates_echo : ∃ fuel₀ h report w',
    (∀ fuel, fuel₀ ≤ fuel → (restlessLoop.runSpan (Once Unit) ⟨[]⟩ fuel
      ((), some (tickGoal "g" 0))) = (h, some (report, w'))) ∧
    report.runEnd.isSome ∧ h.countP Action.isDecided ≤ 8 := by
  have hL : restlessLoop.Responsive (Once Unit) := responsive_ofProvider _ _ _
  obtain ⟨fuel₀, h, report, w', hrun, hend, -, hdecided, -, -⟩ := span_terminates restlessLoop
    (Once Unit) ⟨[]⟩ 1 ((), some (tickGoal "g" 0)) hL (deliversAtMost_once _)
  exact ⟨fuel₀, h, report, w', hrun, hend, hdecided⟩

end Loop

end Pan
