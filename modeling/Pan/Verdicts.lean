import Pan.Conversation

namespace Pan

open Eff

/-! ## One dispatch of a job -/

def resolvePipeline (r : CapabilityRegistry) : Pipeline Unit :=
  ⟨r, (⟨r⟩ : ResolveGovernor).governor, EchoExecutor Unit, []⟩

section Dispatch

variable {r : CapabilityRegistry} (request : EffectRequest) {cap : Capability}

theorem dispatch_unresolved (h : r.lookup request.capability = none) :
    ((resolvePipeline r).dispatch request ()).2 =
      some (.error (.unresolved request.capability), ()) := by
  have hresolve := Pipeline.resolve_of_none (P := resolvePipeline r) h
  unfold Pipeline.dispatch Pipeline.clear
  rw [hresolve]
  rfl

theorem dispatch_invalid {reason : String} (h : r.lookup request.capability = some cap)
    (hcheck : minimalSchemaCheck cap.argsSchema request.args = .error reason) :
    ((resolvePipeline r).dispatch request ()).2 =
      some (.error (.invalid request.capability reason), ()) := by
  have hresolve := Pipeline.resolve_of_some (P := resolvePipeline r) h
  have hvalidate := Pipeline.validate_of_error (P := resolvePipeline r)
    ⟨request, cap.argsSchema, cap, h, rfl⟩ hcheck
  unfold Pipeline.dispatch Pipeline.clear
  rw [hresolve]
  simp [Eff.andThen, bind_eq, hvalidate, Pipeline.record]

theorem dispatch_conforms (h : r.Conforms request.capability request.args) :
    ∃ effected, ((resolvePipeline r).dispatch request ()).2 = some (.ok effected, ()) := by
  obtain ⟨cap, hcap, hcheck⟩ := id h
  have hresolve := Pipeline.resolve_of_some (P := resolvePipeline r) hcap
  have hvalidate := Pipeline.validate_of_ok (P := resolvePipeline r)
    ⟨request, cap.argsSchema, cap, hcap, rfl⟩ h hcheck
  have hgovern : ∀ w, (resolvePipeline r).governor.govern request.scope request.capability
      request.args w = some (.allow, w) := by
    intro w
    simp [resolvePipeline, ResolveGovernor.governor, hcap]
  have hexecute : ∀ w, (resolvePipeline r).executor.execute request.capability request.args w =
      some (.ok (echo request.capability request.args), w) := fun _ => rfl
  have hhooks : (resolvePipeline r).hooks = [] := rfl
  unfold Pipeline.dispatch Pipeline.clear
  rw [hresolve]
  refine ⟨⟨request.capability, echo request.capability request.args⟩, ?_⟩
  simp [Eff.andThen, bind_eq, hvalidate, Pipeline.record, Pipeline.govern, hgovern,
    Pipeline.execute, Pipeline.perform, hexecute, hhooks, Pipeline.preInvokeAll,
    Pipeline.postInvokeAll]

end Dispatch

/-! ## The decision of a job -/

def ActionIntent.Passes (r : CapabilityRegistry) : ActionIntent → Prop
  | invoke capability args _ => r.Conforms capability args
  | _ => True

/-- The invoke that fails is the first that does not pass, and this is how it fails. -/
inductive FirstOffence (r : CapabilityRegistry) (code : ErrorCode) : List ActionIntent → Prop
  | unknown {pre capability args correlation post} : (∀ i ∈ pre, ActionIntent.Passes r i) →
      r.lookup capability = none → code = .unknownCapability →
      FirstOffence r code (pre ++ .invoke capability args correlation :: post)
  | invalid {pre capability args correlation post cap reason} :
      (∀ i ∈ pre, ActionIntent.Passes r i) → r.lookup capability = some cap →
      minimalSchemaCheck cap.argsSchema args = .error reason → code = .invalidArgs →
      FirstOffence r code (pre ++ .invoke capability args correlation :: post)

/-- The intents, with a `Conclude` that asks to go on if they have none. -/
def concluded (intents : List ActionIntent) : List ActionIntent :=
  if intents.any fun intent => intent.concludes.isSome then intents
  else intents ++ [.conclude .continue]

inductive Exact (r : CapabilityRegistry) (intents : List ActionIntent) : DispatchOutcome → Prop
  | ok : (∀ i ∈ intents, i.Passes r) → Exact r intents (.ok (concluded intents))
  | failed {code message} : FirstOffence r code intents → Exact r intents (.failed code message)

theorem FirstOffence.not_passes {r : CapabilityRegistry} {code : ErrorCode}
    {intents : List ActionIntent} (h : FirstOffence r code intents) :
    ¬∀ i ∈ intents, i.Passes r := by
  intro hpasses
  cases h with
  | @unknown pre capability args correlation post _ hnone =>
    obtain ⟨cap, hcap, -⟩ := hpasses (.invoke capability args correlation) (by simp)
    rw [hnone] at hcap
    cases hcap
  | @invalid pre capability args correlation post cap reason _ hcap hcheck =>
    obtain ⟨cap', hcap', hcheck'⟩ := hpasses (.invoke capability args correlation) (by simp)
    obtain rfl : cap = cap' := Option.some.inj (hcap.symm.trans hcap')
    rw [hcheck] at hcheck'
    cases hcheck'

/-- Of the intents, those in `out` have passed. -/
theorem dispatchIntents_exact (formats : Formats) (r : CapabilityRegistry) (scope : Scope)
    (intents out : List ActionIntent) (hout : ∀ i ∈ out, i.Passes r) :
    ∃ outcome, (dispatchIntents formats (resolvePipeline r) scope intents out ()).2 =
      some (outcome, ()) ∧ Exact r (out ++ intents) outcome := by
  induction intents generalizing out with
  | nil =>
    rw [List.append_nil]
    exact ⟨.ok (concluded out), rfl, .ok hout⟩
  | cons intent intents ih =>
    -- An intent that passes joins those in `out`, whatever its kind.
    have hnext : intent.Passes r → ∃ outcome, (dispatchIntents formats (resolvePipeline r) scope
        intents (out ++ [intent]) ()).2 = some (outcome, ()) ∧
          Exact r (out ++ intent :: intents) outcome := by
      intro hpasses
      have hout' : ∀ i ∈ out ++ [intent], i.Passes r := by
        intro i hi
        rcases List.mem_append.mp hi with hi | hi
        · exact hout i hi
        · rwa [List.mem_singleton.mp hi]
      obtain ⟨outcome, hr, hexact⟩ := ih _ hout'
      rw [List.append_assoc, List.singleton_append] at hexact
      exact ⟨outcome, hr, hexact⟩
    cases intent with
    | invoke capability args correlation =>
      unfold dispatchIntents
      rcases hcap : r.lookup capability with _ | cap
      · have hr := dispatch_unresolved ⟨capability, args, correlation, scope⟩ hcap
        rw [bind_of_some hr]
        exact ⟨_, rfl, .failed (.unknown hout hcap rfl)⟩
      · rcases hcheck : minimalSchemaCheck cap.argsSchema args with reason | ⟨⟩
        · have hr := dispatch_invalid ⟨capability, args, correlation, scope⟩
            hcap hcheck
          rw [bind_of_some hr]
          exact ⟨_, rfl, .failed (.invalid hout hcap hcheck rfl)⟩
        · obtain ⟨effected, hr⟩ := dispatch_conforms
            ⟨capability, args, correlation, scope⟩ ⟨cap, hcap, hcheck⟩
          rw [bind_of_some hr]
          exact hnext ⟨cap, hcap, hcheck⟩
    | express body => exact hnext trivial
    | conclude outcome => exact hnext trivial

/-! ## Two copies of a registry -/

namespace Session

/-- The governor of the session has the registry of the session. -/
def InSync (s : Session) : Prop := s.pipeline.governor.registry = s.registry

variable {d : Daemon} {s : Session} {re : ℕ} {body : Body}

theorem onHello_inSync (h : s.InSync) : (s.onHello d re body).2.InSync := by
  unfold onHello
  split
  · split
    · exact h
    · exact h
  · exact h

theorem onRegister_inSync (h : s.InSync) : (s.onRegister re body).2.InSync := by
  unfold onRegister
  split
  · split
    · exact h
    · rfl
  · exact h

theorem onInstantiate_inSync (h : s.InSync) : (s.onInstantiate re body).2.InSync := by
  unfold onInstantiate
  split
  · exact h
  · exact h

theorem onRelease_inSync (h : s.InSync) : (s.onRelease re body).2.InSync := by
  unfold onRelease
  split
  · split
    · exact h
    · exact h
  · exact h

theorem finishPerceive_inSync (h : s.InSync) (job : PerceiveJob) (outcome : DispatchOutcome) :
    (s.finishPerceiveWithOutcome job outcome).2.InSync := by
  unfold finishPerceiveWithOutcome
  dsimp only
  split
  · exact h
  · exact h

end Session

/-- The job's governor has the job's registry, which was the session's when it began. -/
def PerceiveJob.InSync (job : PerceiveJob) : Prop :=
  job.pipeline.governor.registry = job.registry

namespace Session

variable {d : Daemon} {answer : LlmAnswer} {s s' : Session}

theorem beginPerceive_inSync (h : s.InSync) (d : Daemon) (re : ℕ) (body : Body) :
    (s.beginPerceive d re body).2.InSync ∧
    ∀ job, (s.beginPerceive d re body).1 = .ok job → job.InSync := by
  unfold beginPerceive
  split
  · split
    · exact ⟨h, fun job hjob => by cases hjob⟩
    · refine ⟨h, fun job hjob => ?_⟩
      cases hjob
      exact h
  · exact ⟨h, fun job hjob => by cases hjob⟩

theorem begins_inSync (h : s.InSync) (env : Envelope) :
    ∀ job ∈ s.begins d env, job.InSync := by
  intro job hjob
  unfold begins at hjob
  split at hjob
  · split at hjob
    · rename_i job' hbegin
      obtain rfl : job' = job := Option.some.inj hjob
      exact (beginPerceive_inSync h d env.seq env.body).2 _ hbegin
    · cases hjob
  · cases hjob

theorem handle_inSync (h : s.InSync) (env : Envelope) {r : Except SessionError (List Envelope)}
    (hr : (s.handle d answer env ()).2 = some ((r, s'), ())) : s'.InSync := by
  have hhandled : ∀ handled : Handled, handled.2.InSync →
      (some (handled, ()) : Option (Handled × Unit)) = some ((r, s'), ()) → s'.InSync := by
    intro handled hsync heq
    cases heq
    exact hsync
  obtain ⟨v, seq, re, ty, body⟩ := env
  cases ty with
  | hello => exact hhandled _ (onHello_inSync h) hr
  | registerCapabilities => exact hhandled _ (onRegister_inSync h) hr
  | instantiateSoul => exact hhandled _ (onInstantiate_inSync h) hr
  | releaseSoul => exact hhandled _ (onRelease_inSync h) hr
  | perceive =>
    obtain ⟨hbegin, -⟩ := beginPerceive_inSync h d seq body
    have hperceive : (s.onPerceive d answer seq body ()).2 = some ((r, s'), ()) := hr
    unfold onPerceive at hperceive
    rcases hbegun : s.beginPerceive d seq body with ⟨replies | job, s₁⟩
    · rw [hbegun] at hperceive hbegin
      exact hhandled _ hbegin hperceive
    · rw [hbegun] at hperceive hbegin
      dsimp only at hperceive
      obtain ⟨outcome, ⟨⟩, hrun⟩ := runJob_returns d answer job ()
      rw [bind_of_some hrun] at hperceive
      exact hhandled _ (finishPerceive_inSync hbegin job outcome) hperceive
  | shutdown => exact hhandled (s.onShutdown seq) h hr
  | _ => exact hhandled _ h hr

end Session

namespace Conversation

/-- The session is in sync, and so are all the jobs that have begun. -/
structure InSync (c : Conversation) : Prop where
  session : c.session.InSync
  begun : ∀ job ∈ c.begun, job.InSync

theorem step_inSync {c : Conversation} (d : Daemon) (h : c.InSync) (e : SessionEvent) :
    (c.step d e).InSync := by
  -- a session changes only through its own handlers, and each keeps it in sync
  cases e with
  | handle env answer =>
    rcases hr : (c.session.handle d answer env ()).2 with _ | ⟨⟨r, s'⟩, ⟨⟩⟩
    · simpa only [step, hr] using h
    · have hbegun : ∀ job ∈ c.begun ++ (c.session.begins d env).toList, job.InSync := by
        intro job hjob
        rcases List.mem_append.mp hjob with hjob | hjob
        · exact h.begun job hjob
        · exact Session.begins_inSync h.session env job (Option.mem_toList.mp hjob)
      simpa only [step, hr] using ⟨Session.handle_inSync h.session env hr, hbegun⟩
  | beginPerceive env =>
    unfold step
    dsimp only
    split
    · obtain ⟨hsession, hjob⟩ :=
        Session.beginPerceive_inSync h.session d env.seq env.body
      rcases hbegin : c.session.beginPerceive d env.seq env.body with ⟨outs | job, s'⟩
      · rw [hbegin] at hsession
        exact ⟨hsession, h.begun⟩
      · rw [hbegin] at hsession hjob
        refine ⟨hsession, fun job' hjob' => ?_⟩
        rcases List.mem_append.mp hjob' with hjob' | hjob'
        · exact h.begun job' hjob'
        · rw [List.mem_singleton.mp hjob']
          exact hjob job rfl
    · exact h
  | finishPerceive i outcome =>
    unfold step
    dsimp only
    split
    · exact h
    · exact ⟨Session.finishPerceive_inSync h.session _ outcome, h.begun⟩
  | transport code message => exact ⟨h.session, h.begun⟩

end Conversation

theorem reached_inSync (d : Daemon) (es : List SessionEvent) :
    ((conversation d).reached es).InSync := by
  apply Machine.invariant (M := conversation d) (I := fun _ c => c.InSync)
  · exact ⟨rfl, fun _ h => by cases h⟩
  · intro _ c e hc
    exact Conversation.step_inSync d hc e

/-- In every session that is reached the governor has the session's registry. So for every job that
has begun and every decision on it, the dispatch fails exactly at the first invoke that is not
registered or whose args do not conform, with the error that says so; and otherwise it returns the
decision's intents, with a `Conclude` that asks to go on if they have none. -/
theorem verdict_exact (d : Daemon) (es : List SessionEvent) :
    ((conversation d).reached es).session.InSync ∧
    ∀ job ∈ ((conversation d).reached es).begun, ∀ decision : Decision, ∃ outcome,
      (dispatchDecisionAsync d.formats decision job.registry job.scope job.pipeline ()).2 =
        some (outcome, ()) ∧ Exact job.registry decision.intents outcome ∧
      ((∃ intents, outcome = .ok intents) ↔ ∀ i ∈ decision.intents, i.Passes job.registry) := by
  have hsync := reached_inSync d es
  refine ⟨hsync.session, fun job hjob decision => ?_⟩
  have hpipeline : (⟨job.registry, job.pipeline.governor.governor, EchoExecutor Unit, []⟩ :
      Pipeline Unit) = resolvePipeline job.registry := by
    have hgovernor : job.pipeline.governor = ⟨job.registry⟩ :=
      congrArg ResolveGovernor.mk (hsync.begun job hjob)
    rw [hgovernor]
    rfl
  obtain ⟨outcome, hr, hexact⟩ := dispatchIntents_exact d.formats job.registry job.scope
    decision.intents [] fun _ h => by cases h
  refine ⟨outcome, ?_, hexact, ?_⟩
  · unfold dispatchDecisionAsync
    rw [hpipeline]
    exact hr
  · cases hexact with
    | ok hpasses => exact iff_of_true ⟨_, rfl⟩ hpasses
    | failed hoffence =>
      refine iff_of_false ?_ hoffence.not_passes
      rintro ⟨intents, hok⟩
      cases hok

end Pan
