import Pan.Minds
import Pan.Plugins
import Mathlib.Logic.Function.Basic

namespace Pan

/-! ## The pipeline of a session -/

/-- Allows what the host has registered. -/
structure ResolveGovernor where
  registry : CapabilityRegistry

def ResolveGovernor.governor (g : ResolveGovernor) : Governor Unit where
  govern _ capability _ w :=
    match g.registry.lookup capability with
    | some _ => some (.allow, w)
    | none => some (.deny s!"capability `{capability}` is not registered", w)

/-- The executor is always the one that echoes. -/
structure SessionPipeline where
  governor : ResolveGovernor

def SessionPipeline.new (registry : CapabilityRegistry) : SessionPipeline := ⟨⟨registry⟩⟩

/-- All invokes passed, with the surviving intents, or the first failure. -/
inductive DispatchOutcome where
  | ok (intents : List ActionIntent)
  | failed (code : ErrorCode) (message : String)

def pipelineErrToWire : PipelineError → ErrorCode
  | .unresolved _ => .unknownCapability
  | .invalid _ _ => .invalidArgs
  | .rejected _ => .providerFailure
  | .execution _ _ => .providerFailure

def pipelineErrMessage (formats : Formats) : PipelineError → String
  | .unresolved capability => s!"provider requested `{capability}` which was never registered"
  | .invalid capability reason => s!"invalid args for `{capability}`: {reason}"
  | .rejected r => s!"governor rejected `{r.capability}`: {r.verdict.debug formats}"
  | .execution capability reason => s!"executor failed for `{capability}`: {reason}"

section Dispatch

open Eff

/-- Dispatch the invokes in order; `out` are the intents that have passed. -/
def dispatchIntents (formats : Formats) (P : Pipeline Unit) (scope : Scope) :
    List ActionIntent → List ActionIntent → Eff Action Unit DispatchOutcome
  | [], out =>
    return .ok (if out.any fun intent => intent.concludes.isSome then out
      else out ++ [.conclude .continue])
  | .invoke capability args correlation :: intents, out => do
    match ← P.dispatch ⟨capability, args, correlation, scope⟩ with
    | .error e => return .failed (pipelineErrToWire e) (pipelineErrMessage formats e)
    | .ok _ =>
      dispatchIntents formats P scope intents (out ++ [.invoke capability args correlation])
  | intent :: intents, out => dispatchIntents formats P scope intents (out ++ [intent])

def dispatchDecisionAsync (formats : Formats) (decision : Decision)
    (registry : CapabilityRegistry) (scope : Scope) (pipeline : SessionPipeline) :
    Eff Action Unit DispatchOutcome :=
  dispatchIntents formats ⟨registry, pipeline.governor.governor, EchoExecutor Unit, []⟩ scope
    decision.intents []

end Dispatch

/-! ## The state -/

abbrev Table (α : Type) := String → Option α

structure Session where
  /-- A `u64` of the source, taken to stay below 2^64. -/
  nextSeq : ℕ
  registry : CapabilityRegistry
  pipeline : SessionPipeline
  souls : Table SoulState
  /-- The newest revision perceived of each goal. -/
  latestRevision : Table ℕ

/-- What a perceive needs outside the session lock. -/
structure PerceiveJob where
  re : ℕ
  soulId : String
  goal : Goal
  context : Context
  provider : Mind
  caps : List Capability
  registry : CapabilityRegistry
  pipeline : SessionPipeline

def PerceiveJob.scope (job : PerceiveJob) : Scope := ⟨s!"soul.{job.soulId}"⟩

inductive SessionError where
  | badFrame (message : String)
  | unknownType (ty : String)
  | versionUnsupported (client ours : ℕ)
  | unknownSoul (soulId : String)

abbrev Handled := Except SessionError (List Envelope) × Session

structure Daemon where
  formats : Formats
  /-- Whether an inference endpoint is configured. -/
  llmResolved : Bool

namespace Session

def new : Session where
  nextSeq := 0
  registry := .empty
  pipeline := .new .empty
  souls _ := none
  latestRevision _ := none

/-- Allocate the next outgoing `seq`. -/
def allocSeq (s : Session) : ℕ × Session := (s.nextSeq, { s with nextSeq := s.nextSeq + 1 })

def out (s : Session) (re : Option ℕ) (body : Body) : Envelope × Session :=
  let (seq, s) := s.allocSeq
  (.outgoing seq re body, s)

/-- One envelope that answers `re`. -/
def respond (s : Session) (re : ℕ) (body : Body) : List Envelope × Session :=
  let (env, s) := s.out (some re) body
  ([env], s)

/-- A handler that answers `re` with one envelope. -/
def reply (s : Session) (re : ℕ) (body : Body) : Handled :=
  let (outs, s) := s.respond re body
  (.ok outs, s)

def errorResponse (s : Session) (re : ℕ) (code : ErrorCode) (message : String) : Handled :=
  s.reply re (.error ⟨code, message⟩)

/-! ## The handlers -/

def onHello (d : Daemon) (s : Session) (re : ℕ) (body : Body) : Handled :=
  match body with
  | .hello b =>
    if b.protocolVersion ≠ PROTOCOL_VERSION ∨ b.profile ≠ "reachlock/0" then
      (.error (.versionUnsupported b.protocolVersion PROTOCOL_VERSION), s)
    else
      s.reply re (.welcome ⟨PROTOCOL_VERSION, SERVER_IDENTITY, advertisedMinds d.llmResolved⟩)
  | _ => s.errorResponse re .badFrame "hello body shape"

/-- Replace the registry, unless the host's set has a conflict. -/
def onRegister (s : Session) (re : ℕ) (body : Body) : Handled :=
  match body with
  | .registerCapabilities b =>
    match b.capabilities.foldlM CapabilityRegistry.register CapabilityRegistry.empty with
    | .error e => s.errorResponse re .providerFailure s!"register_capabilities: {e.text}"
    | .ok registry => { s with registry, pipeline := .new registry }.reply re .ack
  | _ => s.errorResponse re .badFrame "register_capabilities body shape"

def onInstantiate (s : Session) (re : ℕ) (body : Body) : Handled :=
  match body with
  | .instantiateSoul b =>
    { s with souls := Function.update s.souls b.soulId (some (.fromBody b)) }.reply re .ack
  | _ => s.errorResponse re .badFrame "instantiate_soul body shape"

def onRelease (s : Session) (re : ℕ) (body : Body) : Handled :=
  match body with
  | .releaseSoul b =>
    match s.souls b.soulId with
    | none => s.errorResponse re .unknownSoul s!"soul_id `{b.soulId}` is not instantiated"
    | some _ => { s with souls := Function.update s.souls b.soulId none }.reply re .ack
  | _ => s.errorResponse re .badFrame "release_soul body shape"

def onShutdown (s : Session) (re : ℕ) : Handled := s.reply re .ack

def latest (s : Session) (goalId : String) : ℕ := (s.latestRevision goalId).getD 0

/-- The first half of a perceive: the revision goes on the ledger and the job is to be run outside
the lock, or the error is answered at once. -/
def beginPerceive (d : Daemon) (s : Session) (re : ℕ) (body : Body) :
    Except (List Envelope) PerceiveJob × Session :=
  match body with
  | .perceive b =>
    match s.souls b.soulId with
    | none =>
      let (outs, s) := s.respond re
        (.error ⟨.unknownSoul, s!"soul_id `{b.soulId}` is not instantiated"⟩)
      (.error outs, s)
    | some soul =>
      let entry := s.latest b.goal.id
      -- the ledger never goes down
      let entry := if entry < b.goal.revision then b.goal.revision else entry
      (.ok ⟨re, b.soulId, b.goal, b.context, soul.provider d.llmResolved, s.registry.all,
        s.registry, s.pipeline⟩,
        { s with latestRevision := Function.update s.latestRevision b.goal.id (some entry) })
  | _ =>
    let (outs, s) := s.respond re (.error ⟨.badFrame, "perceive body shape"⟩)
    (.error outs, s)

/-- The body that answers a job with the outcome of its dispatch. -/
def outcomeBody (job : PerceiveJob) : DispatchOutcome → Body
  | .ok intents => .decision ⟨job.soulId, job.goal.id, job.goal.revision, ⟨intents⟩⟩
  | .failed code message => .error ⟨code, message⟩

def formatPerceiveOutcome (s : Session) (job : PerceiveJob) (outcome : DispatchOutcome) :
    List Envelope × Session :=
  s.respond job.re (outcomeBody job outcome)

def supersededMessage (goal : Goal) (latest : ℕ) : String :=
  s!"goal `{goal.id}` revision {goal.revision} superseded by revision {latest}"

/-- The second half of a perceive: a job with a revision below the ledger is discarded. -/
def finishPerceiveWithOutcome (s : Session) (job : PerceiveJob) (outcome : DispatchOutcome) :
    List Envelope × Session :=
  let latest := s.latest job.goal.id
  -- of two jobs with one revision, neither supersedes the other
  if job.goal.revision < latest then
    s.respond job.re (.error ⟨.superseded, supersededMessage job.goal latest⟩)
  else
    s.formatPerceiveOutcome job outcome

def runJob (d : Daemon) (answer : LlmAnswer) (job : PerceiveJob) :
    Eff Action Unit DispatchOutcome :=
  dispatchDecisionAsync d.formats (job.provider.decide answer job.goal job.context job.caps)
    job.registry job.scope job.pipeline

def onPerceive (d : Daemon) (answer : LlmAnswer) (s : Session) (re : ℕ) (body : Body) :
    Eff Action Unit Handled :=
  match s.beginPerceive d re body with
  | (.error replies, s) => return (.ok replies, s)
  | (.ok job, s) => do
    let outcome ← runJob d answer job
    let (outs, s) := s.finishPerceiveWithOutcome job outcome
    return (.ok outs, s)

def handle (d : Daemon) (answer : LlmAnswer) (s : Session) (env : Envelope) :
    Eff Action Unit Handled :=
  match env.ty with
  | .hello => return s.onHello d env.seq env.body
  | .welcome => return s.errorResponse env.seq .unknownType "welcome is daemon-to-host only"
  | .registerCapabilities => return s.onRegister env.seq env.body
  | .instantiateSoul => return s.onInstantiate env.seq env.body
  | .releaseSoul => return s.onRelease env.seq env.body
  | .perceive => s.onPerceive d answer env.seq env.body
  | .decision => return s.errorResponse env.seq .unknownType "decision/ack is daemon-to-host only"
  | .ack => return s.errorResponse env.seq .unknownType "decision/ack is daemon-to-host only"
  | .error => return s.errorResponse env.seq .unknownType "error is daemon-to-host only"
  | .shutdown => return s.onShutdown env.seq

end Session

end Pan
