import Pan.PipelineLaws
import Pan.Plugins

namespace Pan

open Eff

namespace Pipeline.AsWritten

variable {W : Type} (P : Pipeline W)

/-! ## The two copies -/

def execute (governed : Governed P.registry) : Eff Action W (Except PipelineError Effected) := do
  let request := governed.request
  let cap := request.capability
  for hook in P.hooks do
    let answer ← call (hook.preInvoke request.scope cap request.args)
    emit (.preInvoke hook.id request.scope cap request.args answer)
    if let .error reason := answer then
      return .error (.execution cap reason)
  emit (.execute cap request.args)
  let result ← call (P.executor.execute cap request.args)
  let hookResult := result.mapError ExecError.message
  for hook in P.hooks do
    call (hook.postInvoke request.scope cap request.args hookResult)
    emit (.postInvoke hook.id request.scope cap request.args hookResult)
  match result with
  | .ok value =>
    record "execute" cap .ok
    emit (.event (.effected cap value))
    return .ok ⟨cap, value⟩
  | .error ⟨reason⟩ =>
    record "execute" cap .error
    return .error (.execution cap reason)

def executeWithInvoker (governed : Governed P.registry) (invoker : ScopedInvoker W) :
    Eff Action W (Except PipelineError Effected) := do
  let request := governed.request
  let cap := request.capability
  for hook in P.hooks do
    let answer ← call (hook.preInvoke request.scope cap request.args)
    emit (.preInvoke hook.id request.scope cap request.args answer)
    if let .error reason := answer then
      return .error (.execution cap reason)
  emit (.executeWithInvoker cap request.args)
  let result ← fun w => (P.executor.executeWithInvoker cap request.args w).run invoker
  let hookResult := result.mapError ExecError.message
  for hook in P.hooks do
    call (hook.postInvoke request.scope cap request.args hookResult)
    emit (.postInvoke hook.id request.scope cap request.args hookResult)
  match result with
  | .ok value =>
    record "execute" cap .ok
    emit (.event (.effected cap value))
    return .ok ⟨cap, value⟩
  | .error ⟨reason⟩ =>
    record "execute" cap .error
    return .error (.execution cap reason)

def dispatch (request : EffectRequest) : Eff Action W (Except PipelineError Effected) := do
  emit (.event (.dispatchStarted request.capability request.correlation))
  match ← P.resolve request with
  | .error e => return .error e
  | .ok resolved =>
    match ← P.validate resolved with
    | .error e => return .error e
    | .ok validated =>
      match ← P.govern validated with
      | .error e => return .error e
      | .ok governed => execute P governed

def dispatchWithInvoker (request : EffectRequest) (invoker : ScopedInvoker W) :
    Eff Action W (Except PipelineError Effected) := do
  emit (.event (.dispatchStarted request.capability request.correlation))
  match ← P.resolve request with
  | .error e => return .error e
  | .ok resolved =>
    match ← P.validate resolved with
    | .error e => return .error e
    | .ok validated =>
      match ← P.govern validated with
      | .error e => return .error e
      | .ok governed => executeWithInvoker P governed invoker

/-! ## They are the stages of the pipeline -/

section Loops

variable (request : EffectRequest) (hooks : List (EffectHook W))

/-- The loop over the hooks with its early return. -/
theorem preInvoke_loop :
    (forIn hooks (none, ()) fun hook _ => do
      let answer ← call (hook.preInvoke request.scope request.capability request.args)
      emit (.preInvoke hook.id request.scope request.capability request.args answer)
      match answer with
      | .error reason =>
        pure (.done (some (.error (.execution request.capability reason)), ()))
      | _ => pure (.yield (none, ())) :
      Eff Action W (Option (Except PipelineError Effected) × Unit)) =
    preInvokeAll request hooks >>= fun r => match r with
      | .error reason => pure (some (.error (.execution request.capability reason)), ())
      | .ok () => pure (none, ()) := by
  have hlaws := lawfulMonad (Λ := Action) (W := W)
  induction hooks with
  | nil => simp [preInvokeAll]
  | cons hook hooks ih =>
    rw [List.forIn_cons, preInvokeAll]
    simp only [bind_assoc]
    congr 1
    funext answer
    congr 1
    funext _
    cases answer with
    | error reason => simp only [pure_bind]
    | ok u => simp only [pure_bind, ih]

theorem postInvoke_loop (result : Except String Value) :
    (forIn hooks PUnit.unit fun hook _ => do
      call (hook.postInvoke request.scope request.capability request.args result)
      emit (.postInvoke hook.id request.scope request.capability request.args result)
      pure (.yield PUnit.unit) : Eff Action W PUnit) =
    postInvokeAll request result hooks := by
  have hlaws := lawfulMonad (Λ := Action) (W := W)
  induction hooks with
  | nil => rfl
  | cons hook hooks ih =>
    rw [List.forIn_cons, postInvokeAll]
    simp only [bind_assoc, pure_bind, ih]

end Loops

theorem execute_eq (governed : Governed P.registry) : execute P governed = P.execute governed := by
  have hlaws := lawfulMonad (Λ := Action) (W := W)
  unfold execute Pipeline.execute perform
  dsimp only
  rw [preInvoke_loop, bind_assoc]
  congr 1
  funext r
  cases r with
  | error reason => simp
  | ok u =>
    simp only [pure_bind, postInvoke_loop]
    exact (bind_assoc (m := Eff Action W) _ _ _).symm

theorem executeWithInvoker_eq (governed : Governed P.registry) (invoker : ScopedInvoker W) :
    executeWithInvoker P governed invoker = P.executeWithInvoker governed invoker := by
  have hlaws := lawfulMonad (Λ := Action) (W := W)
  unfold executeWithInvoker Pipeline.executeWithInvoker perform
  dsimp only
  rw [preInvoke_loop, bind_assoc]
  congr 1
  funext r
  cases r with
  | error reason => simp
  | ok u =>
    simp only [pure_bind, postInvoke_loop]
    exact (bind_assoc (m := Eff Action W) _ _ _).symm

theorem clear_andThen (request : EffectRequest)
    (run : Governed P.registry → Eff Action W (Except PipelineError Effected)) :
    ((P.clear request).andThen run) = (P.resolve request).andThen fun resolved =>
      (P.validate resolved).andThen fun validated => (P.govern validated).andThen run := by
  have hlaws := lawfulMonad (Λ := Action) (W := W)
  unfold clear andThen
  rw [bind_assoc]
  congr 1
  funext r
  cases r with
  | error e => exact pure_bind _ _
  | ok resolved =>
    dsimp only
    rw [bind_assoc]
    congr 1
    funext r
    cases r with
    | error e => exact pure_bind _ _
    | ok validated => rfl

/-- The early returns of the stages, one within the other. -/
theorem stages_eq (request : EffectRequest)
    (run : Governed P.registry → Eff Action W (Except PipelineError Effected)) :
    (P.clear request).andThen run = (do
      match ← P.resolve request with
      | .error e => return .error e
      | .ok resolved =>
        match ← P.validate resolved with
        | .error e => return .error e
        | .ok validated =>
          match ← P.govern validated with
          | .error e => return .error e
          | .ok governed => run governed) := by
  rw [clear_andThen]
  unfold andThen
  congr 1
  funext r
  cases r with
  | error e => rfl
  | ok resolved =>
    dsimp only
    congr 1
    funext r
    cases r with
    | error e => rfl
    | ok validated =>
      dsimp only
      congr 1
      funext r
      cases r <;> rfl

theorem dispatch_eq (request : EffectRequest) : dispatch P request = P.dispatch request := by
  unfold dispatch Pipeline.dispatch
  rw [stages_eq, funext (execute_eq P)]

theorem dispatchWithInvoker_eq (request : EffectRequest) (invoker : ScopedInvoker W) :
    dispatchWithInvoker P request invoker = P.dispatchWithInvoker request invoker := by
  unfold dispatchWithInvoker Pipeline.dispatchWithInvoker
  simp only [stages_eq, executeWithInvoker_eq]

end Pipeline.AsWritten

/-! ## Both do the same -/

/-- The default `execute_with_invoker` is a call of `execute`. -/
def Action.delegated : Action → Action
  | executeWithInvoker capability args => execute capability args
  | a => a

namespace Pipeline

section Shared

variable {W : Type} (P : Pipeline W)

theorem record_delegated (stage capability : String) (status : StageStatus) :
    (record stage capability status : Eff Action W Unit).mapActions Action.delegated =
      record stage capability status := rfl

theorem resolve_delegated (request : EffectRequest) :
    (P.resolve request).mapActions Action.delegated = P.resolve request := by
  cases hcap : P.registry.lookup request.capability with
  | none => rw [resolve_of_none hcap]; simp [record_delegated]
  | some cap => rw [resolve_of_some hcap]; simp

theorem validate_delegated (resolved : Resolved P.registry) :
    (P.validate resolved).mapActions Action.delegated = P.validate resolved := by
  unfold validate
  split <;> simp [record_delegated]

theorem govern_delegated (validated : Validated P.registry) :
    (P.govern validated).mapActions Action.delegated = P.govern validated := by
  unfold govern
  simp only [mapActions_bind, mapActions_call, mapActions_emit, Action.delegated]
  congr 1
  funext verdict
  congr 1
  funext _
  cases verdict <;> simp [record_delegated]

theorem clear_delegated (request : EffectRequest) :
    (P.clear request).mapActions Action.delegated = P.clear request := by
  unfold clear
  simp only [mapActions_andThen, resolve_delegated, validate_delegated, govern_delegated]

theorem preInvokeAll_delegated (request : EffectRequest) (hooks : List (EffectHook W)) :
    (preInvokeAll request hooks).mapActions Action.delegated = preInvokeAll request hooks := by
  induction hooks with
  | nil => rfl
  | cons hook hooks ih =>
    unfold preInvokeAll
    simp only [mapActions_bind, mapActions_call, mapActions_emit, Action.delegated]
    congr 1
    funext answer
    congr 1
    funext _
    cases answer with
    | error reason => rfl
    | ok u => exact ih

theorem postInvokeAll_delegated (request : EffectRequest) (result : Except String Value)
    (hooks : List (EffectHook W)) :
    (postInvokeAll request result hooks).mapActions Action.delegated =
      postInvokeAll request result hooks := by
  induction hooks with
  | nil => rfl
  | cons hook hooks ih =>
    unfold postInvokeAll
    simp only [mapActions_bind, mapActions_call, mapActions_emit, Action.delegated, ih]

theorem perform_delegated (request : EffectRequest)
    (run : Eff Action W (Except ExecError Value)) :
    (P.perform request run).mapActions Action.delegated =
      P.perform request (run.mapActions Action.delegated) := by
  unfold perform
  simp only [mapActions_bind, preInvokeAll_delegated]
  congr 1
  funext r
  cases r with
  | error reason => rfl
  | ok u =>
    simp only [mapActions_bind, postInvokeAll_delegated]
    congr 1
    funext result
    congr 1
    funext _
    rcases result with ⟨reason⟩ | value <;> simp [record_delegated, Action.delegated]

end Shared

variable {W : Type}

/-- Run to its end, the default is a call of `execute`. -/
theorem ofExecute_run (execute : String → Value → Call W (Except ExecError Value))
    (invoker : ScopedInvoker W) (capability : String) (args : Value) (w : W) :
    ((Executor.ofExecute execute).executeWithInvoker capability args w).run invoker =
      call (execute capability args) w := by
  unfold Executor.ofExecute
  dsimp only
  rw [call_apply]
  cases execute capability args w <;> rfl

end Pipeline

/-- With an executor that leaves the invoker alone, both ways give the same result in the same
world, with the same calls of the hooks and of the executor and the same events in the same
order. -/
theorem dispatch_paths_agree {W : Type} (registry : CapabilityRegistry) (governor : Governor W)
    (execute : String → Value → Call W (Except ExecError Value)) (hooks : List (EffectHook W))
    (request : EffectRequest) (invoker : ScopedInvoker W) (w : W) :
    let P : Pipeline W := ⟨registry, governor, .ofExecute execute, hooks⟩
    (Pipeline.AsWritten.dispatch P request w).2 =
      (Pipeline.AsWritten.dispatchWithInvoker P request invoker w).2 ∧
    (Pipeline.AsWritten.dispatch P request w).1 =
      (Pipeline.AsWritten.dispatchWithInvoker P request invoker w).1.map Action.delegated := by
  intro P
  have hexecute : ∀ governed, P.execute governed =
      (P.executeWithInvoker governed invoker).mapActions Action.delegated := by
    intro governed
    unfold Pipeline.execute Pipeline.executeWithInvoker
    rw [Pipeline.perform_delegated]
    congr 1
    refine Eq.trans ?_ (mapActions_bind _ _ _).symm
    rw [mapActions_emit]
    congr 1
    funext _ w
    exact congrArg (fun r => (r.1.map Action.delegated, r.2))
      (Pipeline.ofExecute_run execute invoker _ _ w).symm
  have hdispatch : P.dispatch request =
      (P.dispatchWithInvoker request invoker).mapActions Action.delegated := by
    unfold Pipeline.dispatch Pipeline.dispatchWithInvoker
    simp only [mapActions_bind, mapActions_emit, mapActions_andThen, Pipeline.clear_delegated,
      Action.delegated, ← hexecute]
  rw [Pipeline.AsWritten.dispatch_eq, Pipeline.AsWritten.dispatchWithInvoker_eq, hdispatch]
  exact ⟨rfl, rfl⟩

end Pan
