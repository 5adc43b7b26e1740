import Pan.PipelineLaws
import Pan.Plugins

namespace Pan

def Action.emitted : Action → Option EventKind
  | .event kind => some kind
  | _ => none

def emitted (t : List Action) : List EventKind := t.filterMap Action.emitted

@[simp] theorem emitted_nil : emitted [] = [] := rfl

@[simp] theorem emitted_append (s t : List Action) :
    emitted (s ++ t) = emitted s ++ emitted t :=
  List.filterMap_append

@[simp] theorem emitted_cons (a : Action) (t : List Action) :
    emitted (a :: t) = a.emitted.toList ++ emitted t := by
  cases ha : a.emitted <;> simp [emitted, ha]

/-! ## What a trail says -/

/-- The stages of the pipeline, by the names under which they are recorded. -/
def stageNames : List String := ["resolve", "validate", "govern", "execute"]

def completions (capability : String) (stages : List (String × StageStatus)) : List EventKind :=
  stages.map fun stage => .stageCompleted stage.1 capability stage.2

/-- The stages tell how a dispatch ended. One that never returns has not ended. -/
def Tells (stages : List (String × StageStatus)) : Option (Except PipelineError Effected) → Prop
  | none => True
  | some (.error _) => ∃ stage status, stages.getLast? = some (stage, status) ∧ status ≠ .ok
  | some (.ok _) => stages.getLast? = some ("execute", .ok)

def effect : Option (Except PipelineError Effected) → List EventKind
  | some (.ok ⟨capability, result⟩) => [.effected capability result]
  | _ => []

/-- The events are a complete account of a dispatch of this request that ended so. -/
def Trail (request : EffectRequest) (ending : Option (Except PipelineError Effected))
    (events : List EventKind) : Prop :=
  ∃ stages, (stages.map Prod.fst).Sublist stageNames ∧ Tells stages ending ∧
    events = .dispatchStarted request.capability request.correlation ::
      (completions request.capability stages ++ effect ending)

/-- The computation accounts for a dispatch of this request when it is run in this world. -/
def Accounts {W : Type} (request : EffectRequest)
    (x : Eff Action W (Except PipelineError Effected)) (w : W) : Prop :=
  Trail request ((x w).2.map Prod.fst) (emitted (x w).1)

/-! ## Executors and hooks -/

/-- An executor at work that leaves the invoker alone. -/
def Execution.Alone {W : Type} : Execution W → Prop
  | .invokes _ _ _ _ => False
  | _ => True

/-- The executor makes no nested dispatch of its own. -/
def Executor.Alone {W : Type} (executor : Executor W) : Prop :=
  ∀ capability args w, (executor.executeWithInvoker capability args w).Alone

/-- Called in order from this world, one of the hooks refuses. -/
def HookRefuses {W : Type} (request : EffectRequest) : List (EffectHook W) → W → Prop
  | [], _ => False
  | hook :: hooks, w =>
    match hook.preInvoke request.scope request.capability request.args w with
    | none => False
    | some (.error _, _) => True
    | some (.ok (), w') => HookRefuses request hooks w'

namespace Pipeline

open Eff

variable {W : Type} {P : Pipeline W}

/-- The request conforms, the governor allows it, and then a hook refuses it. -/
def RefusedByHook (P : Pipeline W) (request : EffectRequest) (w : W) : Prop :=
  P.registry.Conforms request.capability request.args ∧
    ∃ w', P.governor.govern request.scope request.capability request.args w = some (.allow, w') ∧
      HookRefuses request P.hooks w'

/-! ## The stages before execution -/

def cleared : List (String × StageStatus) := [("validate", .ok), ("govern", .ok)]

/-- What the stages before execution have recorded when they end so. -/
def ClearTrail (P : Pipeline W) (request : EffectRequest) (w : W)
    (stages : List (String × StageStatus)) :
    Option (Except PipelineError (Governed P.registry) × W) → Prop
  | none => (stages.map Prod.fst).Sublist stageNames ∧ ¬P.RefusedByHook request w
  | some (.error _, _) =>
    (stages.map Prod.fst).Sublist stageNames ∧ ¬P.RefusedByHook request w ∧
      ∃ stage status, stages.getLast? = some (stage, status) ∧ status ≠ .ok
  | some (.ok governed, w') =>
    stages = cleared ∧ governed.request = request ∧
      (P.RefusedByHook request w ↔ HookRefuses request P.hooks w')

theorem not_refusedByHook_of_not_conforms {request : EffectRequest} {w : W}
    (h : ¬P.registry.Conforms request.capability request.args) : ¬P.RefusedByHook request w :=
  fun hr => h hr.1

theorem not_refusedByHook_of_not_allowed {request : EffectRequest} {w : W}
    (h : ∀ w', P.governor.govern request.scope request.capability request.args w ≠
      some (.allow, w')) : ¬P.RefusedByHook request w := by
  rintro ⟨-, w', hallow, -⟩
  exact h w' hallow

theorem not_conforms_of_error {request : EffectRequest} {cap : Capability} {reason : String}
    (hcap : P.registry.lookup request.capability = some cap)
    (hcheck : minimalSchemaCheck cap.argsSchema request.args = .error reason) :
    ¬P.registry.Conforms request.capability request.args := by
  rintro ⟨cap', hcap', hok⟩
  obtain rfl : cap = cap' := Option.some.inj (hcap.symm.trans hcap')
  rw [hcheck] at hok
  cases hok

theorem refusedByHook_iff {request : EffectRequest} {w w' : W}
    (hconforms : P.registry.Conforms request.capability request.args)
    (hallow : P.governor.govern request.scope request.capability request.args w =
      some (.allow, w')) : P.RefusedByHook request w ↔ HookRefuses request P.hooks w' := by
  constructor
  · rintro ⟨-, w'', hallow', hrefuses⟩
    obtain rfl : w' = w'' := by
      rw [hallow] at hallow'
      exact (Prod.mk.inj (Option.some.inj hallow')).2
    exact hrefuses
  · intro hrefuses
    exact ⟨hconforms, w', hallow, hrefuses⟩

theorem govern_trail (validated : Validated P.registry) (w : W) :
    ∃ stages, emitted (P.govern validated w).1 = completions validated.request.capability stages ∧
      P.ClearTrail validated.request w (("validate", .ok) :: stages) (P.govern validated w).2 := by
  obtain ⟨request, hconforms⟩ := validated
  unfold govern
  cases hgovern : P.governor.govern request.scope request.capability request.args w with
  | none =>
    refine ⟨[], by simp [bind_eq, hgovern, completions], ?_⟩
    simpa [bind_eq, hgovern, ClearTrail, stageNames] using
      not_refusedByHook_of_not_allowed fun w' h => by rw [hgovern] at h; cases h
  | some answer =>
    obtain ⟨verdict, w'⟩ := answer
    cases verdict with
    | allow =>
      refine ⟨[("govern", .ok)], ?_, ?_⟩
      · simp [bind_eq, hgovern, record, completions, Action.emitted]
      · simpa [bind_eq, hgovern, record, ClearTrail, cleared] using
          refusedByHook_iff hconforms hgovern
    | deny reason | requireApproval reason =>
      refine ⟨[("govern", .denied)], ?_, ?_⟩
      · simp [bind_eq, hgovern, record, completions, Action.emitted]
      · simpa [bind_eq, hgovern, record, ClearTrail, stageNames] using
          not_refusedByHook_of_not_allowed fun w' h => by rw [hgovern] at h; cases h

theorem clear_trail (request : EffectRequest) (w : W) :
    ∃ stages, emitted (P.clear request w).1 = completions request.capability stages ∧
      P.ClearTrail request w stages (P.clear request w).2 := by
  unfold clear
  -- the clearance ends at the first stage that refuses, and that stage is recorded last
  cases hcap : P.registry.lookup request.capability with
  | none =>
    have hnot : ¬P.registry.Conforms request.capability request.args := by
      rintro ⟨cap, hcap', -⟩
      rw [hcap] at hcap'
      cases hcap'
    refine ⟨[("resolve", .error)], ?_, ?_⟩
    · simp [resolve_of_none hcap, andThen, bind_eq, record, completions, Action.emitted]
    · simpa [resolve_of_none hcap, andThen, bind_eq, record, ClearTrail, stageNames] using
        not_refusedByHook_of_not_conforms hnot
  | some cap =>
    cases hcheck : minimalSchemaCheck cap.argsSchema request.args with
    | error reason =>
      have hvalidate := validate_of_error (P := P) ⟨request, cap.argsSchema, cap, hcap, rfl⟩ hcheck
      refine ⟨[("validate", .error)], ?_, ?_⟩
      · simp [resolve_of_some hcap, hvalidate, andThen, bind_eq, record, completions,
          Action.emitted]
      · simpa [resolve_of_some hcap, hvalidate, andThen, bind_eq, record, ClearTrail,
          stageNames] using not_refusedByHook_of_not_conforms (not_conforms_of_error hcap hcheck)
    | ok _ =>
      have hconforms : P.registry.Conforms request.capability request.args := ⟨cap, hcap, hcheck⟩
      have hvalidate := validate_of_ok (P := P) ⟨request, cap.argsSchema, cap, hcap, rfl⟩
        hconforms hcheck
      obtain ⟨stages, hevents, htrail⟩ := govern_trail (P := P) ⟨request, hconforms⟩ w
      refine ⟨("validate", .ok) :: stages, ?_, ?_⟩
      · simp [resolve_of_some hcap, hvalidate, andThen, bind_eq, record, completions,
          Action.emitted]
        exact hevents
      · simpa [resolve_of_some hcap, hvalidate, andThen, bind_eq, record] using htrail

/-! ## The stage that executes -/

/-- The hooks record nothing, and they end in a refusal exactly if one of them refuses. -/
theorem preInvokeAll_trail (request : EffectRequest) (hooks : List (EffectHook W)) (w : W) :
    emitted (preInvokeAll request hooks w).1 = [] ∧
      (HookRefuses request hooks w ↔
        ∃ reason w', (preInvokeAll request hooks w).2 = some (.error reason, w')) := by
  induction hooks generalizing w with
  | nil => simp [preInvokeAll, HookRefuses]
  | cons hook hooks ih =>
    unfold preInvokeAll HookRefuses
    rcases hhook : hook.preInvoke request.scope request.capability request.args w with
      _ | ⟨reason | _, w'⟩
    · simp [bind_eq, hhook]
    · simp [bind_eq, hhook, Action.emitted]
    · simpa [bind_eq, hhook, Action.emitted] using ih w'

theorem postInvokeAll_trail (request : EffectRequest) (result : Except String Value)
    (hooks : List (EffectHook W)) (w : W) :
    emitted (postInvokeAll request result hooks w).1 = [] := by
  induction hooks generalizing w with
  | nil => rfl
  | cons hook hooks ih =>
    unfold postInvokeAll
    rcases hhook : hook.postInvoke request.scope request.capability request.args result w with
      _ | ⟨_, w'⟩
    · simp [bind_eq, hhook]
    · simpa [bind_eq, hhook, Action.emitted] using ih w'

/-- The stages that the body around the executor's call has recorded when it ends so. -/
def PerformTrail (P : Pipeline W) (request : EffectRequest) (w : W)
    (stages : List (String × StageStatus)) : Option (Except PipelineError Effected) → Prop
  | none => ¬HookRefuses request P.hooks w ∧ stages = []
  | some (.error _) =>
    HookRefuses request P.hooks w ∧ stages = [] ∨
      ¬HookRefuses request P.hooks w ∧ stages = [("execute", .error)]
  | some (.ok _) => ¬HookRefuses request P.hooks w ∧ stages = [("execute", .ok)]

theorem perform_trail (request : EffectRequest) {run : Eff Action W (Except ExecError Value)}
    (hrun : ∀ w, emitted (run w).1 = []) (w : W) :
    ∃ stages, emitted (P.perform request run w).1 = completions request.capability stages ++
        effect ((P.perform request run w).2.map Prod.fst) ∧
      P.PerformTrail request w stages ((P.perform request run w).2.map Prod.fst) := by
  unfold perform
  obtain ⟨hpre, hrefuses⟩ := preInvokeAll_trail request P.hooks w
  rcases hanswer : (preInvokeAll request P.hooks w).2 with _ | ⟨reason | _, w'⟩
  · have hnot : ¬HookRefuses request P.hooks w := by simp [hrefuses, hanswer]
    refine ⟨[], ?_, ?_⟩
    · simp [bind_eq, hanswer, hpre, completions, effect]
    · simpa [bind_eq, hanswer, PerformTrail] using hnot
  · have hyes : HookRefuses request P.hooks w := by simp [hrefuses, hanswer]
    refine ⟨[], ?_, ?_⟩
    · simp [bind_eq, hanswer, hpre, completions, effect]
    · simpa [bind_eq, hanswer, PerformTrail] using hyes
  -- from here on no hook has refused, so the trail has only the executor to record
  have hnot : ¬HookRefuses request P.hooks w := by simp [hrefuses, hanswer]
  have hexecutor := hrun w'
  rcases hresult : (run w').2 with _ | ⟨result, w''⟩
  · refine ⟨[], ?_, ?_⟩
    · simp [bind_eq, hanswer, hpre, hresult, hexecutor, completions, effect]
    · simpa [bind_eq, hanswer, hresult, PerformTrail] using hnot
  have hpost := postInvokeAll_trail request (result.mapError ExecError.message) P.hooks w''
  rcases hdone : (postInvokeAll request (result.mapError ExecError.message) P.hooks w'').2 with
    _ | ⟨_, w₃⟩
  · refine ⟨[], ?_, ?_⟩
    · simp [bind_eq, hanswer, hpre, hresult, hexecutor, hdone, hpost, completions, effect]
    · simpa [bind_eq, hanswer, hresult, hdone, PerformTrail] using hnot
  rcases result with reason | value
  · refine ⟨[("execute", .error)], ?_, ?_⟩
    · simp [bind_eq, hanswer, hpre, hresult, hexecutor, hdone, hpost, record, completions, effect,
        Action.emitted]
    · simpa [bind_eq, hanswer, hresult, hdone, record, PerformTrail] using hnot
  · refine ⟨[("execute", .ok)], ?_, ?_⟩
    · simp [bind_eq, hanswer, hpre, hresult, hexecutor, hdone, hpost, record, completions, effect,
        Action.emitted]
    · simpa [bind_eq, hanswer, hresult, hdone, record, PerformTrail] using hnot

/-! ## Whole dispatches -/

theorem trail_of_error {request : EffectRequest} {e : PipelineError} {events : List EventKind}
    (h : Trail request (some (.error e)) events) : ∃ event status, events.getLast? = some event ∧
      (∃ stage, event = .stageCompleted stage request.capability status) ∧ status ≠ .ok := by
  obtain ⟨stages, -, ⟨stage, status, hlast, hstatus⟩, rfl⟩ := h
  obtain ⟨before, rfl⟩ := List.getLast?_eq_some_iff.mp hlast
  refine ⟨.stageCompleted stage request.capability status, status, ?_, ⟨stage, rfl⟩, hstatus⟩
  simp only [completions, effect, List.map_append, List.append_nil]
  exact List.getLast?_concat (l := _ :: _)

/-- A dispatch accounts for itself unless a hook refuses it. -/
theorem accounts_of_perform {request : EffectRequest} {w : W}
    {run : Governed P.registry → Eff Action W (Except ExecError Value)}
    (hrun : ∀ governed w, emitted (run governed w).1 = []) :
    Accounts request (do
      emit (.event (.dispatchStarted request.capability request.correlation))
      (P.clear request).andThen fun governed => P.perform governed.request (run governed)) w ↔
    ¬P.RefusedByHook request w := by
  obtain ⟨stages, hevents, htrail⟩ := clear_trail (P := P) request w
  unfold Accounts andThen
  -- the clearance hangs, refuses or lets the request through; a hook can refuse only after it
  rcases hclear : (P.clear request w).2 with _ | ⟨e | governed, w'⟩
  · rw [hclear] at htrail
    obtain ⟨horder, hnot⟩ := htrail
    refine iff_of_true ⟨stages, horder, ?_, ?_⟩ hnot
    · simp [bind_eq, hclear, Tells]
    · simp [bind_eq, hclear, hevents, effect, Action.emitted]
  · rw [hclear] at htrail
    obtain ⟨horder, hnot, htells⟩ := htrail
    refine iff_of_true ⟨stages, horder, ?_, ?_⟩ hnot
    · simpa [bind_eq, hclear, Tells] using htells
    · simp [bind_eq, hclear, hevents, effect, Action.emitted]
  · rw [hclear] at htrail
    obtain ⟨rfl, rfl, hrefused⟩ := htrail
    obtain ⟨executed, hperformed, hends⟩ :=
      perform_trail (P := P) governed.request (hrun governed) w'
    have hall : emitted (P.clear governed.request w).1 ++
        emitted (P.perform governed.request (run governed) w').1 =
        completions governed.request.capability (cleared ++ executed) ++
          effect ((P.perform governed.request (run governed) w').2.map Prod.fst) := by
      rw [hevents, hperformed]
      simp [completions]
    rw [hrefused]
    simp only [bind_eq, hclear, emit_apply, emitted_append, hall]
    generalize (P.perform governed.request (run governed) w').2.map Prod.fst = ending at hends ⊢
    have htrail (horder : ((cleared ++ executed).map Prod.fst).Sublist stageNames)
        (htells : Tells (cleared ++ executed) ending) :
        Trail governed.request ending (emitted [.event (.dispatchStarted
          governed.request.capability governed.request.correlation)] ++
            (completions governed.request.capability (cleared ++ executed) ++ effect ending)) :=
      ⟨_, horder, htells, by simp [Action.emitted]⟩
    cases ending with
    | none =>
      obtain ⟨hnot, rfl⟩ := hends
      exact iff_of_true (htrail (by decide) trivial) hnot
    | some result =>
      cases result with
      | error e =>
        obtain ⟨hyes, rfl⟩ | ⟨hnot, rfl⟩ := hends
        · -- the refusal of a hook is the one ending that no stage records
          refine iff_of_false (fun h => ?_) (not_not_intro hyes)
          obtain ⟨event, status, hlast, ⟨stage, rfl⟩, hstatus⟩ := trail_of_error h
          simp [completions, effect, cleared, Action.emitted] at hlast
          exact hstatus hlast.2.symm
        · exact iff_of_true (htrail (by decide) ⟨"execute", .error, rfl, nofun⟩) hnot
      | ok effected =>
        obtain ⟨hnot, rfl⟩ := hends
        exact iff_of_true (htrail (by decide) rfl) hnot

theorem run_of_alone {invoker : ScopedInvoker W} {x : Execution W} (hx : x.Alone) :
    (x.run invoker).1 = [] := by
  cases x with
  | returns result w => rfl
  | invokes capability args w resume => exact hx.elim
  | hangs => rfl

end Pipeline

def refusingPipeline : Pipeline Unit :=
  { echoLoop.pipeline with
    hooks := [⟨"hook.closed", fun _ _ _ w => some (.error "closed", w),
      fun _ _ _ _ w => some ((), w)⟩] }

/-- The last event of the dispatch is the governor's `Ok`, yet it has failed. -/
theorem refusing_dispatch_not_accounted :
    ¬Accounts ⟨"cap.echo", .null, none, ⟨"pan"⟩⟩
      (refusingPipeline.dispatch ⟨"cap.echo", .null, none, ⟨"pan"⟩⟩) () := by
  intro h
  have hlast :
      (emitted (refusingPipeline.dispatch ⟨"cap.echo", .null, none, ⟨"pan"⟩⟩ ()).1).getLast? =
        some (.stageCompleted "govern" "cap.echo" .ok) := rfl
  obtain ⟨event, status, hevent, ⟨stage, rfl⟩, hstatus⟩ :=
    Pipeline.trail_of_error (e := .execution "cap.echo" "closed") h
  rw [hlast] at hevent
  cases hevent
  exact hstatus rfl

/-- The account of a dispatch is complete, on both ways through the pipeline, exactly if no hook
refuses what the governor has allowed. -/
theorem audit_complete_iff {W : Type} (P : Pipeline W) (request : EffectRequest) (w : W) :
    (Accounts request (P.dispatch request) w ↔ ¬P.RefusedByHook request w) ∧
    (P.executor.Alone → ∀ invoker,
      (Accounts request (P.dispatchWithInvoker request invoker) w ↔
        ¬P.RefusedByHook request w)) := by
  constructor
  · refine Pipeline.accounts_of_perform (P := P) fun governed w => ?_
    simp [Eff.bind_eq, Action.emitted]
  · intro halone invoker
    refine Pipeline.accounts_of_perform (P := P) fun governed w => ?_
    change emitted ([_] ++ ((P.executor.executeWithInvoker _ _ w).run invoker).1) = []
    rw [Pipeline.run_of_alone (halone _ _ w)]
    rfl

theorem audit_complete_iff_refusing :
    (Accounts ⟨"cap.echo", .null, none, ⟨"pan"⟩⟩
      (refusingPipeline.dispatch ⟨"cap.echo", .null, none, ⟨"pan"⟩⟩) () ↔
        ¬refusingPipeline.RefusedByHook ⟨"cap.echo", .null, none, ⟨"pan"⟩⟩ ()) ∧
    (Accounts ⟨"cap.echo", .null, none, ⟨"pan"⟩⟩
      (refusingPipeline.dispatchWithInvoker ⟨"cap.echo", .null, none, ⟨"pan"⟩⟩
        (refusingPipeline.invoke ⟨"pan"⟩)) () ↔
        ¬refusingPipeline.RefusedByHook ⟨"cap.echo", .null, none, ⟨"pan"⟩⟩ ()) :=
  (audit_complete_iff refusingPipeline ⟨"cap.echo", .null, none, ⟨"pan"⟩⟩ ()).imp id
    fun h => h (fun _ _ _ => trivial) _

end Pan
