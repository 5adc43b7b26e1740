import Pan.Library.History
import Pan.LoopEngine

namespace Pan

def Action.ofPipeline : Action → Bool
  | .event (.dispatchStarted _ _) => true
  | .event (.stageCompleted _ _ _) => true
  | .event (.effected _ _) => true
  | .govern _ _ _ _ => true
  | .preInvoke _ _ _ _ _ => true
  | .execute _ _ => true
  | .executeWithInvoker _ _ => true
  | .postInvoke _ _ _ _ _ => true
  | _ => false

theorem Action.ne_decide {a : Action} (ha : a.ofPipeline = true) (goal : Goal) (ctx : Context) :
    a ≠ .decide goal ctx := by
  rintro rfl
  cases ha

open Eff

/-- An executor at work does to the history only what the calls of its invoker do. -/
theorem Execution.run_keeps {W : Type} {invoker : ScopedInvoker W} {I : List Action → Prop}
    (hinv : ∀ capability args, Keeps I (invoker capability args)) (start : W → Execution W) :
    Keeps I (fun w => (start w).run invoker) := by
  suffices hrun : ∀ (x : Execution W) h, I h → I (h ++ (x.run invoker).1) by
    intro h w hh
    split <;> exact hrun (start w) h hh
  intro x
  induction x with
  | returns result w => intro h hh; simpa [Execution.run] using hh
  | hangs => intro h hh; simpa [Execution.run] using hh
  | invokes capability args w resume ih =>
    intro h hh
    have hcall : I (h ++ (invoker capability args w).1) := (hinv capability args).history hh
    unfold Execution.run
    split
    · rename_i t heq
      rwa [heq] at hcall
    · rename_i t answer w' heq
      rw [heq] at hcall
      rw [← List.append_assoc]
      exact ih answer w' _ hcall

namespace Pipeline

/-! ## The stages, case by case -/

section Cases

variable {W : Type} {P : Pipeline W}

theorem resolve_of_none {request : EffectRequest}
    (h : P.registry.lookup request.capability = none) :
    P.resolve request = do
      record "resolve" request.capability .error
      return .error (.unresolved request.capability) := by
  unfold resolve
  split
  · rename_i cap hcap
    rw [h] at hcap
    cases hcap
  · rfl

theorem resolve_of_some {request : EffectRequest} {cap : Capability}
    (h : P.registry.lookup request.capability = some cap) :
    P.resolve request = return .ok ⟨request, cap.argsSchema, cap, h, rfl⟩ := by
  unfold resolve
  split
  · rename_i cap' hcap
    obtain rfl : cap = cap' := Option.some.inj (h.symm.trans hcap)
    rfl
  · rename_i hnone
    rw [h] at hnone
    cases hnone

theorem validate_of_error (resolved : Resolved P.registry) {reason : String}
    (h : minimalSchemaCheck resolved.argsSchema resolved.request.args = .error reason) :
    P.validate resolved = do
      record "validate" resolved.request.capability .error
      return .error (.invalid resolved.request.capability reason) := by
  unfold validate
  split
  · rename_i reason' hcheck
    obtain rfl : reason = reason' := Except.error.inj (h.symm.trans hcheck)
    rfl
  · rename_i hok
    rw [h] at hok
    cases hok

theorem validate_of_ok (resolved : Resolved P.registry)
    (hconforms : P.registry.Conforms resolved.request.capability resolved.request.args)
    (h : minimalSchemaCheck resolved.argsSchema resolved.request.args = .ok ()) :
    P.validate resolved = do
      record "validate" resolved.request.capability .ok
      return .ok ⟨resolved.request, hconforms⟩ := by
  unfold validate
  split
  · rename_i reason hcheck
    rw [h] at hcheck
    cases hcheck
  · rfl

theorem clear_of_allow {request : EffectRequest} {w w' : W}
    (hconforms : P.registry.Conforms request.capability request.args)
    (hallow : P.governor.govern request.scope request.capability request.args w =
      some (.allow, w')) :
    (P.clear request w).2 = some (.ok ⟨request, hconforms⟩, w') := by
  obtain ⟨cap, hcap, hcheck⟩ := id hconforms
  have hresolve := resolve_of_some hcap
  have hvalidate := validate_of_ok (P := P) ⟨request, cap.argsSchema, cap, hcap, rfl⟩ hconforms
    hcheck
  unfold clear
  rw [hresolve]
  simp [Eff.andThen, bind_eq, hvalidate, record, govern, hallow]

/-- A request that conforms and is allowed gets to the executor, if there are no hooks. -/
theorem mem_dispatchWithInvoker {request : EffectRequest} {invoker : ScopedInvoker W} {w w' : W}
    (hconforms : P.registry.Conforms request.capability request.args) (hhooks : P.hooks = [])
    (hallow : P.governor.govern request.scope request.capability request.args w =
      some (.allow, w')) :
    .executeWithInvoker request.capability request.args ∈
      (P.dispatchWithInvoker request invoker w).1 := by
  refine mem_bind_right rfl (mem_bind_right (clear_of_allow hconforms hallow) ?_)
  have hpre : (preInvokeAll request P.hooks w').2 = some (.ok (), w') := by
    rw [hhooks]
    rfl
  exact mem_bind_right hpre (mem_bind_left (mem_bind_left (by simp)))

end Cases

/-! ## Clearance -/

variable {W : Type} (P : Pipeline W)

/-- What clears a call of the executor: the governor allows it and every hook agrees. -/
def clearance (scope : Scope) (capability : String) (args : Value) : List Action :=
  .govern scope capability args .allow :: .event (.stageCompleted "govern" capability .ok) ::
    P.hooks.map fun hook => .preInvoke hook.id scope capability args (.ok ())

/-- A call of the executor is for a registered capability whose schema accepts the args, and it
comes directly after its clearance. -/
def Cleared (scope : Scope) (pre : List Action) (a : Action) : Prop :=
  ∀ capability args, a.execution = some (capability, args) →
    P.registry.Conforms capability args ∧ P.clearance scope capability args <:+ pre

theorem cleared_of_execution_eq_none {P : Pipeline W} {scope : Scope} {a : Action}
    (ha : a.execution = none) (pre : List Action) : P.Cleared scope pre a := by
  intro capability args h
  rw [ha] at h
  cases h

/-- An invariant that the pipeline keeps as long as it does not call the executor. -/
def Quiet (I : List Action → Prop) : Prop :=
  ∀ h a, a.ofPipeline = true → a.execution = none → I h → I (h ++ [a])

/-- An invariant that the pipeline keeps when it calls the executor only after clearance. -/
def Stable (scope : Scope) (I : List Action → Prop) : Prop :=
  ∀ h a, a.ofPipeline = true → P.Cleared scope h a → I h → I (h ++ [a])

/-- A call of the executor is one that the governor allows in some world. -/
def Permitted (scope : Scope) (a : Action) : Prop :=
  ∀ capability args, a.execution = some (capability, args) →
    ∃ w w', P.governor.govern scope capability args w = some (.allow, w')

/-- An invariant that the pipeline keeps when it calls the executor only after clearance and only
for what the governor allows. -/
def Lawful (scope : Scope) (I : List Action → Prop) : Prop :=
  ∀ h a, a.ofPipeline = true → P.Cleared scope h a → P.Permitted scope a → I h → I (h ++ [a])

variable {P}

theorem permitted_of_execution_eq_none {scope : Scope} {a : Action} (ha : a.execution = none) :
    P.Permitted scope a := by
  intro capability args h
  rw [ha] at h
  cases h

theorem Stable.lawful {scope : Scope} {I : List Action → Prop} (hI : P.Stable scope I) :
    P.Lawful scope I :=
  fun h a hp hcleared _ => hI h a hp hcleared

theorem Lawful.quiet {scope : Scope} {I : List Action → Prop} (hI : P.Lawful scope I) : Quiet I :=
  fun h a hp ha =>
    hI h a hp (cleared_of_execution_eq_none ha h) (permitted_of_execution_eq_none ha)

section Stages

variable {I : List Action → Prop} (hI : Quiet I)

include hI

theorem Quiet.append {h : List Action} {a : Action} (hh : I h) (hp : a.ofPipeline = true)
    (ha : a.execution = none) : I (h ++ [a]) :=
  hI h a hp ha hh

/-- `resolve` leaves the world as it is. -/
theorem resolve_triple (request : EffectRequest) (φ : W → Prop) :
    Triple (fun h w => I h ∧ φ w) (P.resolve request)
      (fun r h w => (I h ∧ φ w) ∧ ∀ t, r = .ok t → t.request = request) I := by
  unfold resolve
  split
  · exact Triple.pure fun _ _ hh => ⟨hh, fun t ht => by cases ht; rfl⟩
  · refine Triple.bind (m := fun _ h w => I h ∧ φ w) (Triple.emit fun _ _ hh => ?_) fun _ =>
      Triple.pure fun _ _ hh => ⟨hh, fun t ht => by cases ht⟩
    exact ⟨hI.append hh.1 rfl rfl, hh.2⟩

/-- `validate` leaves the world as it is. -/
theorem validate_triple (resolved : Resolved P.registry) (φ : W → Prop) :
    Triple (fun h w => I h ∧ φ w) (P.validate resolved)
      (fun r h w => (I h ∧ φ w) ∧ ∀ t, r = .ok t → t.request = resolved.request) I := by
  unfold validate
  split
  · refine Triple.bind (m := fun _ h w => I h ∧ φ w) (Triple.emit fun _ _ hh => ?_) fun _ =>
      Triple.pure fun _ _ hh => ⟨hh, fun t ht => by cases ht⟩
    exact ⟨hI.append hh.1 rfl rfl, hh.2⟩
  · refine Triple.bind (m := fun _ h w => I h ∧ φ w) (Triple.emit fun _ _ hh => ?_) fun _ =>
      Triple.pure fun _ _ hh => ⟨hh, fun t ht => by cases ht; rfl⟩
    exact ⟨hI.append hh.1 rfl rfl, hh.2⟩

/-- What `govern` answers with is the governor's verdict in the world before it, and a request
that it lets through has its allowing verdict on record. -/
theorem govern_triple (validated : Validated P.registry) (φ : W → Prop) :
    Triple (fun h w => I h ∧ φ w) (P.govern validated)
      (fun r h w => I h ∧ ∀ t, r = .ok t → ([.govern t.request.scope t.request.capability
          t.request.args .allow,
          .event (.stageCompleted "govern" t.request.capability .ok)] <:+ h ∧
        ∃ w₀, φ w₀ ∧ P.governor.govern t.request.scope t.request.capability t.request.args w₀ =
          some (.allow, w)) ∧ t.request = validated.request) I := by
  unfold govern
  refine Triple.bind (m := fun verdict h w => I h ∧ ∃ w₀, φ w₀ ∧ P.governor.govern
    validated.request.scope validated.request.capability validated.request.args w₀ =
      some (verdict, w)) (Triple.call (fun _ w₀ _ _ hh he => ⟨hh.1, w₀, hh.2, he⟩)
    fun _ _ hh => hh.1) fun verdict => ?_
  refine Triple.bind (m := fun _ h w => I h ∧ [.govern validated.request.scope
    validated.request.capability validated.request.args verdict] <:+ h ∧ ∃ w₀, φ w₀ ∧
      P.governor.govern validated.request.scope validated.request.capability
        validated.request.args w₀ = some (verdict, w))
    (Triple.emit fun h _ hh => ⟨hI.append hh.1 rfl rfl, ⟨h, rfl⟩, hh.2⟩) fun _ => ?_
  cases verdict with
  | allow =>
    refine Triple.bind (m := fun _ h w => I h ∧ [.govern validated.request.scope
      validated.request.capability validated.request.args .allow,
      .event (.stageCompleted "govern" validated.request.capability .ok)] <:+ h ∧ ∃ w₀, φ w₀ ∧
        P.governor.govern validated.request.scope validated.request.capability
          validated.request.args w₀ = some (.allow, w))
      (Triple.emit ?_) fun _ => Triple.pure fun h _ hh => ⟨hh.1, ?_⟩
    · intro h _ hh
      obtain ⟨hh, ⟨t, rfl⟩, hw⟩ := hh
      exact ⟨hI.append hh rfl rfl, ⟨t, by simp⟩, hw⟩
    · intro t ht
      cases ht
      exact ⟨hh.2, rfl⟩
  | deny reason | requireApproval reason =>
    refine Triple.bind (m := fun _ h _ => I h) (Triple.emit fun _ _ hh =>
      hI.append hh.1 rfl rfl) fun _ => Triple.pure fun h _ hh => ⟨hh, fun t ht => by cases ht⟩

/-- A request that the stages before execution let through conforms, and the last thing they did
was to get its allowing verdict. -/
theorem clear_triple (request : EffectRequest) (φ : W → Prop) :
    Triple (fun h w => I h ∧ φ w) (P.clear request)
      (fun r h w => I h ∧ ∀ t, r = .ok t → ([.govern t.request.scope t.request.capability
          t.request.args .allow,
          .event (.stageCompleted "govern" t.request.capability .ok)] <:+ h ∧
        ∃ w₀, φ w₀ ∧ P.governor.govern t.request.scope t.request.capability t.request.args w₀ =
          some (.allow, w)) ∧ t.request = request) I := by
  unfold clear
  refine Triple.andThen (resolve_triple hI request φ)
    (fun _ _ _ hh => ⟨hh.1, fun t ht => by cases ht⟩) fun resolved => Triple.of_fact fun hres => ?_
  refine Triple.andThen (validate_triple hI resolved φ)
    (fun _ _ _ hh => ⟨hh.1, fun t ht => by cases ht⟩) fun validated => Triple.of_fact fun hval => ?_
  rw [← hval.trans hres]
  exact govern_triple hI validated φ

theorem preInvokeAll_triple (request : EffectRequest) (hooks : List (EffectHook W))
    (c : List Action) :
    Triple (fun h _ => I h ∧ c <:+ h) (preInvokeAll request hooks)
      (fun r h _ => I h ∧ (r = .ok () → c ++ hooks.map (fun hook =>
        .preInvoke hook.id request.scope request.capability request.args (.ok ())) <:+ h)) I := by
  induction hooks generalizing c with
  | nil => exact Triple.pure fun h _ hh => ⟨hh.1, fun _ => by simpa using hh.2⟩
  | cons hook hooks ih =>
    unfold preInvokeAll
    refine Triple.bind (m := fun _ h _ => I h ∧ c <:+ h) (Triple.call
      (fun _ _ _ _ hh _ => hh) fun _ _ hh => hh.1) fun answer => ?_
    refine Triple.bind (m := fun _ h _ => I h ∧ c ++ [.preInvoke hook.id request.scope
      request.capability request.args answer] <:+ h) (Triple.emit ?_) fun _ => ?_
    · intro h _ hh
      obtain ⟨hh, t, rfl⟩ := hh
      exact ⟨hI.append hh rfl rfl, t, by simp⟩
    cases answer with
    | error reason => exact Triple.pure fun h _ hh => ⟨hh.1, fun hr => by cases hr⟩
    | ok u =>
      refine (ih _).weaken (fun _ _ hh => hh) (fun _ _ _ hh => ?_) fun _ hh => hh
      simpa using hh

theorem postInvokeAll_keeps (request : EffectRequest) (result : Except String Value)
    (hooks : List (EffectHook W)) : Keeps I (postInvokeAll request result hooks) := by
  induction hooks with
  | nil => exact Triple.pure fun _ _ hh => hh
  | cons hook hooks ih =>
    unfold postInvokeAll
    refine Triple.bind (Triple.call (fun _ _ _ _ hh _ => hh) fun _ _ hh => hh) fun _ => ?_
    exact Triple.bind (Triple.emit fun _ _ hh => hI.append hh rfl rfl) fun _ => ih

/-- The body around the executor's call, when the request has been allowed. -/
theorem perform_triple (request : EffectRequest) (run : Eff Action W (Except ExecError Value))
    (hrun : Triple (fun h _ => I h ∧
      P.clearance request.scope request.capability request.args <:+ h) run (fun _ h _ => I h) I) :
    Triple (fun h _ => I h ∧ [.govern request.scope request.capability request.args .allow,
        .event (.stageCompleted "govern" request.capability .ok)] <:+ h)
      (P.perform request run)
      (fun r h _ => I h ∧ ∀ eff, r = .ok eff → eff.capability = request.capability) I := by
  unfold perform
  refine Triple.bind (preInvokeAll_triple hI request P.hooks _) fun r => ?_
  cases r with
  | error reason => exact Triple.pure fun _ _ hh => ⟨hh.1, fun eff he => by cases he⟩
  | ok u =>
    refine Triple.bind (hrun.strengthen_pre fun _ _ hh => ⟨hh.1, hh.2 rfl⟩) fun result => ?_
    refine Triple.bind (postInvokeAll_keeps hI _ _ _) fun _ => ?_
    cases result with
    | ok value =>
      refine Triple.bind (m := fun _ h _ => I h) (Triple.emit fun _ _ hh =>
        hI.append hh rfl rfl) fun _ => ?_
      refine Triple.bind (m := fun _ h _ => I h) (Triple.emit fun _ _ hh =>
        hI.append hh rfl rfl) fun _ => ?_
      exact Triple.pure fun _ _ hh => ⟨hh, fun eff he => by cases he; rfl⟩
    | error e =>
      refine Triple.bind (m := fun _ h _ => I h) (Triple.emit fun _ _ hh =>
        hI.append hh rfl rfl) fun _ => ?_
      exact Triple.pure fun _ _ hh => ⟨hh, fun eff he => by cases he⟩

end Stages

/-! ## Whole dispatches -/

section Dispatch

variable {scope : Scope} {I : List Action → Prop} (hI : P.Lawful scope I)

include hI

/-- Some call of the executor under the scope, made after the stages before it. -/
theorem cleared_andThen_triple (request : EffectRequest) (hs : request.scope = scope)
    (a : EffectRequest → Action) (hp : ∀ request, (a request).ofPipeline = true)
    (ha : ∀ request, (a request).execution = some (request.capability, request.args))
    (run : EffectRequest → Eff Action W (Except ExecError Value))
    (hrun : ∀ request, Keeps I (run request)) :
    Triple (fun h _ => I h)
      (do
        emit (.event (.dispatchStarted request.capability request.correlation))
        (P.clear request).andThen fun governed => P.perform governed.request do
          emit (a governed.request)
          run governed.request)
      (fun r h _ => I h ∧ ∀ eff, r = .ok eff → eff.capability = request.capability) I := by
  refine Triple.bind (m := fun _ h _ => I h ∧ True) (Triple.emit fun _ _ hh =>
    ⟨hI.quiet.append hh rfl rfl, trivial⟩) fun _ => ?_
  refine Triple.andThen (clear_triple hI.quiet request fun _ => True)
    (fun _ _ _ hh => ⟨hh, fun eff he => by cases he⟩) fun governed => ?_
  intro h w hh
  obtain ⟨hh, ⟨hgov, w₀, -, hallow⟩, rfl⟩ := hh
  refine perform_triple hI.quiet governed.request _ ?_ h w ⟨hh, hgov⟩
  refine Triple.bind (m := fun _ h _ => I h) (Triple.emit fun h _ hh => ?_) fun _ => hrun _
  -- the call comes directly after its clearance
  apply hI h _ (hp _) _ _ hh.1
  · intro capability args he
    rw [ha] at he
    cases he
    exact ⟨governed.conforms, hs ▸ hh.2⟩
  · intro capability args he
    rw [ha] at he
    cases he
    exact ⟨w₀, w, hs ▸ hallow⟩

/-- A dispatch under the scope keeps the invariant and answers for its own capability. -/
theorem dispatch_triple (request : EffectRequest) (hs : request.scope = scope) :
    Triple (fun h _ => I h) (P.dispatch request)
      (fun r h _ => I h ∧ ∀ eff, r = .ok eff → eff.capability = request.capability) I := by
  apply cleared_andThen_triple hI request hs (fun request => .execute request.capability
    request.args) (fun _ => rfl) (fun _ => rfl) fun request =>
      call (P.executor.execute request.capability request.args)
  intro request
  exact Triple.call (fun _ _ _ _ hh _ => hh) fun _ _ hh => hh

theorem invoke_keeps (capability : String) (args : Value) :
    Keeps I (P.invoke scope capability args) := by
  unfold invoke
  refine Triple.bind (dispatch_triple hI _ rfl) fun r => ?_
  cases r with
  | error e => exact Triple.pure fun _ _ hh => hh.1
  | ok eff => exact Triple.pure fun _ _ hh => hh.1

/-- A dispatch of the loop, whose executor is handed an invoker under the same scope. -/
theorem dispatchWithInvoker_triple (request : EffectRequest) (hs : request.scope = scope) :
    Triple (fun h _ => I h) (P.dispatchWithInvoker request (P.invoke scope))
      (fun r h _ => I h ∧ ∀ eff, r = .ok eff → eff.capability = request.capability) I := by
  apply cleared_andThen_triple hI request hs (fun request => .executeWithInvoker
    request.capability request.args) (fun _ => rfl) (fun _ => rfl) fun request w =>
      (P.executor.executeWithInvoker request.capability request.args w).run (P.invoke scope)
  intro request
  exact Execution.run_keeps (fun capability args => invoke_keeps hI capability args) _

end Dispatch

/-! ## Requests that are refused -/

variable (P) in
/-- The request fails one of the stages before execution, or a hook refuses it. -/
inductive Refused (request : EffectRequest) (w : W) : Prop
  | unresolved (hl : P.registry.lookup request.capability = none)
  | invalid {cap : Capability} {reason : String}
      (hl : P.registry.lookup request.capability = some cap)
      (hc : minimalSchemaCheck cap.argsSchema request.args = .error reason)
  | denied {verdict : Verdict} {w' : W}
      (hg : P.governor.govern request.scope request.capability request.args w = some (verdict, w'))
      (hv : verdict ≠ .allow)
  | hook {w' w'' : W} {reason : String}
      (hg : P.governor.govern request.scope request.capability request.args w = some (.allow, w'))
      (hh : (preInvokeAll request P.hooks w').2 = some (.error reason, w''))

/-- A request that passes the stages can only be refused by a hook. -/
theorem Refused.by_hook {request : EffectRequest} {w w' : W} (h : P.Refused request w)
    (hc : P.registry.Conforms request.capability request.args)
    (hg : P.governor.govern request.scope request.capability request.args w =
      some (.allow, w')) :
    ∃ reason w'', (preInvokeAll request P.hooks w').2 = some (.error reason, w'') := by
  obtain ⟨cap, hl, hcheck⟩ := hc
  cases h with
  | unresolved hl' => simp [hl] at hl'
  | invalid hl' hc' =>
    rw [hl] at hl'
    cases hl'
    simp [hcheck] at hc'
  | denied hg' hv =>
    rw [hg] at hg'
    cases hg'
    exact absurd rfl hv
  | hook hg' hh =>
    rw [hg] at hg'
    cases hg'
    exact ⟨_, _, hh⟩

def Unexecuted (h : List Action) : Prop := ∀ a ∈ h, a.execution = none

theorem quiet_unexecuted : Quiet Unexecuted := by
  intro h a _ ha hh b hb
  rcases List.mem_append.mp hb with hb | hb
  · exact hh b hb
  · rw [List.mem_singleton.mp hb, ha]

/-- Whatever would come after the hooks, a refused request does not get there. -/
theorem refused_triple (request : EffectRequest)
    (run : Governed P.registry → Eff Action W (Except ExecError Value)) :
    Triple (fun h w => Unexecuted h ∧ P.Refused request w)
      (do
        emit (.event (.dispatchStarted request.capability request.correlation))
        (P.clear request).andThen fun governed => P.perform governed.request (run governed))
      (fun _ h _ => Unexecuted h) Unexecuted := by
  refine Triple.bind (m := fun _ h w => Unexecuted h ∧ P.Refused request w)
    (Triple.emit fun _ _ hh => ⟨quiet_unexecuted.append hh.1 rfl rfl, hh.2⟩) fun _ => ?_
  refine Triple.andThen (clear_triple quiet_unexecuted request (P.Refused request))
    (fun _ _ _ hh => hh) fun governed => ?_
  intro h w hh
  obtain ⟨hh, ⟨-, w₀, href, hgov⟩, rfl⟩ := hh
  obtain ⟨reason, w', hpre⟩ := href.by_hook governed.conforms hgov
  have hhooks : Unexecuted (h ++ (preInvokeAll governed.request P.hooks w).1) :=
    Triple.history (preInvokeAll_triple quiet_unexecuted governed.request P.hooks [])
      (fun _ _ _ h => h.1) ⟨hh, List.nil_suffix⟩
  unfold perform
  rw [bind_of_some hpre]
  simpa using hhooks

theorem Refused.dispatch {request : EffectRequest} {w : W} (h : P.Refused request w) :
    Unexecuted (P.dispatch request w).1 := by
  have hnil : Unexecuted [] := fun a ha => by cases ha
  exact Triple.history (refused_triple request fun governed => do
    emit (.execute governed.request.capability governed.request.args)
    call (P.executor.execute governed.request.capability governed.request.args))
    (fun _ _ _ h => h) ⟨hnil, h⟩

theorem Refused.dispatchWithInvoker {request : EffectRequest} {w : W} (h : P.Refused request w)
    (invoker : ScopedInvoker W) : Unexecuted (P.dispatchWithInvoker request invoker w).1 := by
  have hnil : Unexecuted [] := fun a ha => by cases ha
  exact Triple.history (refused_triple request fun governed => do
    emit (.executeWithInvoker governed.request.capability governed.request.args)
    fun w => (P.executor.executeWithInvoker governed.request.capability governed.request.args
      w).run invoker) (fun _ _ _ h => h) ⟨hnil, h⟩

end Pipeline

end Pan
