import Pan.Library.Effects
import Pan.Events
import Pan.Registry

namespace Pan

/-- A call to a plugin. -/
abbrev Call (W α : Type) := W → Option (α × W)

structure EffectRequest where
  capability : String
  args : Value
  correlation : Option String
  scope : Scope

structure GovernRejected where
  capability : String
  verdict : Verdict

structure Effected where
  capability : String
  result : Value

inductive PipelineError where
  | unresolved (capability : String)
  | invalid (capability reason : String)
  | rejected (rejection : GovernRejected)
  | execution (capability reason : String)

/-- The skill-facing projection of a pipeline error. -/
inductive InvokeError where
  | notFound (capability : String)
  | invalidArgs (capability reason : String)
  | denied (capability reason : String)
  | failed (capability reason : String)

def InvokeError.ofPipelineError : PipelineError → InvokeError
  | .unresolved capability => .notFound capability
  | .invalid capability reason => .invalidArgs capability reason
  | .rejected r => .denied r.capability <| match r.verdict with
    | .deny reason => reason
    | .requireApproval reason => reason
    | .allow => "allowed"
  | .execution capability reason => .failed capability reason

structure ExecError where
  message : String

/-! ## Plugins -/

structure Governor (W : Type) where
  govern : Scope → String → Value → Call W Verdict

structure EffectHook (W : Type) where
  id : String
  preInvoke : Scope → String → Value → Call W (Except String Unit)
  postInvoke : Scope → String → Value → Except String Value → Call W Unit

/-- An `execute_with_invoker` in progress. -/
inductive Execution (W : Type) where
  | returns (result : Except ExecError Value) (w : W)
  | invokes (capability : String) (args : Value) (w : W)
      (resume : Except InvokeError Value → W → Execution W)
  | hangs

structure Executor (W : Type) where
  execute : String → Value → Call W (Except ExecError Value)
  executeWithInvoker : String → Value → W → Execution W

/-- The one governed surface an executor is handed. -/
abbrev ScopedInvoker (W : Type) :=
  String → Value → Eff Action W (Except InvokeError Value)

def Execution.run {W : Type} (invoker : ScopedInvoker W) :
    Execution W → List Action × Option (Except ExecError Value × W)
  | .returns result w => ([], some (result, w))
  | .invokes capability args w resume =>
    match invoker capability args w with
    | (t, none) => (t, none)
    | (t, some (answer, w')) =>
      (t ++ ((resume answer w').run invoker).1, ((resume answer w').run invoker).2)
  | .hangs => ([], none)

/-! ## Args against a schema -/

def jsonTypeName : Value → String
  | .null => "null"
  | .bool _ => "boolean"
  | .number _ => "number"
  | .string _ => "string"
  | .array _ => "array"
  | .object _ => "object"

/-- Whether the args are of the JSON type that the schema names. -/
def matchesType (ty : String) (args : Value) : Bool :=
  match ty with
  | "object" => args.isObject
  | "array" => args.isArray
  | "string" => args.isString
  | "number" => args.isNumber
  | "integer" => args.isI64 || args.isU64
  | "boolean" => args.isBoolean
  | "null" => args.isNull
  | _ => true

def checkType (schema : List (String × Value)) (args : Value) : Except String Unit :=
  match (SortedMap.get "type" schema).bind Value.asStr with
  | some ty =>
    if matchesType ty args then .ok ()
    else .error s!"expected JSON type `{ty}`, got `{jsonTypeName args}`"
  | none => .ok ()

def checkRequired (schema : List (String × Value)) (args : Value) : Except String Unit :=
  match (SortedMap.get "required" schema).bind Value.asArray with
  | some required =>
    match (required.filterMap Value.asStr).find? fun key => (args.get key).isNone with
    | some key => .error s!"missing required arg `{key}`"
    | none => .ok ()
  | none => .ok ()

/-- The schema's top-level `type` and `required` keys; anything else passes. -/
def minimalSchemaCheck (schema args : Value) : Except String Unit :=
  match schema.asObject with
  | none => .ok ()
  | some obj => do
    checkType obj args
    checkRequired obj args

/-! ## The stages -/

structure Pipeline (W : Type) where
  registry : CapabilityRegistry
  governor : Governor W
  executor : Executor W
  hooks : List (EffectHook W)

/-- The capability is registered and its schema accepts the args. -/
def CapabilityRegistry.Conforms (r : CapabilityRegistry) (capability : String) (args : Value) :
    Prop :=
  ∃ cap, r.lookup capability = some cap ∧ minimalSchemaCheck cap.argsSchema args = .ok ()

/-- Output of `resolve`: the capability was found. -/
structure Resolved (r : CapabilityRegistry) where
  request : EffectRequest
  argsSchema : Value
  found : ∃ cap, r.lookup request.capability = some cap ∧ cap.argsSchema = argsSchema

/-- Output of `validate`: the args conform. -/
structure Validated (r : CapabilityRegistry) where
  request : EffectRequest
  conforms : r.Conforms request.capability request.args

/-- Output of `govern` when the verdict was to allow. -/
structure Governed (r : CapabilityRegistry) where
  request : EffectRequest
  conforms : r.Conforms request.capability request.args

namespace Pipeline

open Eff

variable {W : Type} (P : Pipeline W)

def record (stage capability : String) (status : StageStatus) : Eff Action W Unit :=
  emit (.event (.stageCompleted stage capability status))

def resolve (request : EffectRequest) :
    Eff Action W (Except PipelineError (Resolved P.registry)) :=
  match h : P.registry.lookup request.capability with
  | some cap => return .ok ⟨request, cap.argsSchema, cap, h, rfl⟩
  | none => do
    record "resolve" request.capability .error
    return .error (.unresolved request.capability)

def validate (resolved : Resolved P.registry) :
    Eff Action W (Except PipelineError (Validated P.registry)) :=
  match h : minimalSchemaCheck resolved.argsSchema resolved.request.args with
  | .error reason => do
    record "validate" resolved.request.capability .error
    return .error (.invalid resolved.request.capability reason)
  | .ok () => do
    record "validate" resolved.request.capability .ok
    return .ok ⟨resolved.request, by
      obtain ⟨cap, hcap, hschema⟩ := resolved.found
      exact ⟨cap, hcap, hschema ▸ h⟩⟩

def govern (validated : Validated P.registry) :
    Eff Action W (Except PipelineError (Governed P.registry)) := do
  let request := validated.request
  let verdict ← call (P.governor.govern request.scope request.capability request.args)
  emit (.govern request.scope request.capability request.args verdict)
  match verdict with
  | .allow =>
    record "govern" request.capability .ok
    return .ok ⟨request, validated.conforms⟩
  | other =>
    record "govern" request.capability .denied
    return .error (.rejected ⟨request.capability, other⟩)

/-- Call `pre_invoke` of the hooks in order, up to the first that refuses. -/
def preInvokeAll (request : EffectRequest) :
    List (EffectHook W) → Eff Action W (Except String Unit)
  | [] => return .ok ()
  | hook :: hooks => do
    let answer ← call (hook.preInvoke request.scope request.capability request.args)
    emit (.preInvoke hook.id request.scope request.capability request.args answer)
    match answer with
    -- the hooks after it are not called, and no stage is recorded
    | .error reason => return .error reason
    | .ok () => preInvokeAll request hooks

def postInvokeAll (request : EffectRequest) (result : Except String Value) :
    List (EffectHook W) → Eff Action W Unit
  | [] => return ()
  | hook :: hooks => do
    call (hook.postInvoke request.scope request.capability request.args result)
    emit (.postInvoke hook.id request.scope request.capability request.args result)
    postInvokeAll request result hooks

/-- The body that `execute` and `execute_with_invoker` share, around the executor's call. -/
def perform (request : EffectRequest) (run : Eff Action W (Except ExecError Value)) :
    Eff Action W (Except PipelineError Effected) := do
  match ← preInvokeAll request P.hooks with
  | .error reason => return .error (.execution request.capability reason)
  | .ok () =>
    let result ← run
    -- every hook is called, also after an error
    postInvokeAll request (result.mapError ExecError.message) P.hooks
    match result with
    | .ok value =>
      record "execute" request.capability .ok
      emit (.event (.effected request.capability value))
      return .ok ⟨request.capability, value⟩
    | .error ⟨reason⟩ =>
      record "execute" request.capability .error
      return .error (.execution request.capability reason)

def execute (governed : Governed P.registry) : Eff Action W (Except PipelineError Effected) :=
  P.perform governed.request do
    emit (.execute governed.request.capability governed.request.args)
    call (P.executor.execute governed.request.capability governed.request.args)

def executeWithInvoker (governed : Governed P.registry) (invoker : ScopedInvoker W) :
    Eff Action W (Except PipelineError Effected) :=
  P.perform governed.request do
    emit (.executeWithInvoker governed.request.capability governed.request.args)
    fun w => (P.executor.executeWithInvoker governed.request.capability governed.request.args
      w).run invoker

def clear (request : EffectRequest) :
    Eff Action W (Except PipelineError (Governed P.registry)) :=
  (P.resolve request).andThen fun resolved =>
  (P.validate resolved).andThen fun validated =>
  P.govern validated

def dispatch (request : EffectRequest) : Eff Action W (Except PipelineError Effected) := do
  emit (.event (.dispatchStarted request.capability request.correlation))
  (P.clear request).andThen P.execute

def dispatchWithInvoker (request : EffectRequest) (invoker : ScopedInvoker W) :
    Eff Action W (Except PipelineError Effected) := do
  emit (.event (.dispatchStarted request.capability request.correlation))
  (P.clear request).andThen fun governed => P.executeWithInvoker governed invoker

/-- `PipelineInvoker::invoke`: a dispatch under a scope that was bound beforehand. -/
def invoke (scope : Scope) : ScopedInvoker W := fun capability args => do
  match ← P.dispatch ⟨capability, args, none, scope⟩ with
  | .ok effected => return .ok effected.result
  | .error e => return .error (InvokeError.ofPipelineError e)

end Pipeline

end Pan
