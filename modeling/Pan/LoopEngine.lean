import Pan.Pipeline

namespace Pan

/-- One poll of a future: the value it is ready with, if it is. -/
abbrev Poll (W α : Type) := W → Option α × W

def toolResultChannel : String := "tool_result"

def maxToolSteps : ℕ := 8

def maxConsecutiveIdenticalCalls : ℕ := 4

/-! ## The stall detector -/

structure StallDetector where
  lastCap : String
  lastArgs : String
  count : ℕ

def StallDetector.new : StallDetector := ⟨"", "", 0⟩

def StallDetector.feed (d : StallDetector) (formats : Formats) (capability : String)
    (args : Value) : Bool × StallDetector :=
  let argsStr := formats.jsonText args
  let d' : StallDetector :=
    if d.lastCap = capability ∧ d.lastArgs = argsStr then { d with count := d.count + 1 }
    else ⟨capability, argsStr, 1⟩
  (decide (maxConsecutiveIdenticalCalls ≤ d'.count), d')

/-! ## Reports -/

inductive RunEnd where
  | concluded (outcome : Outcome)
  | abandoned
  | stepLimit
  | vetoed (reason : String)
  | unsatisfied (reason : String)
  | streamExhausted
deriving DecidableEq

structure RunReport where
  effected : List String
  results : List (String × Value)
  failed : List String
  expressed : List String
  runEnd : Option RunEnd

def RunReport.empty : RunReport := ⟨[], [], [], [], none⟩

/-! ## The seams of the loop -/

/-- A source of goals. It owns a state `O` that only it can reach. `superseded current n` is the
poll number `n` of the future that fires when a goal newer than `current` is there. -/
structure Observations (W O : Type) where
  nextGoal : Call (W × O) (Option Goal)
  superseded : Goal → ℕ → Poll (W × O) Goal

/-- The poll number `n` of the future that fires when a veto is signalled. -/
structure VetoSource (W : Type) where
  vetoed : ℕ → Poll W (Option String)

/-- `decide goal ctx caps n` is the poll number `n` of the provider's future. -/
structure Provider (W : Type) where
  id : String
  decide : Goal → Context → List Capability → ℕ → Poll W Decision

structure ContextCompactor (W : Type) where
  compact : Context → ContextBudget → Call W Context

structure GoalEvaluator (W : Type) where
  evaluate : Goal → Context → RunReport → Call W GoalEval

structure Loop (W : Type) where
  provider : Provider W
  pipeline : Pipeline W
  scope : Scope
  /-- Whether expressed bodies are streamed on a token channel. -/
  tokenTx : Bool
  vetoSource : VetoSource W
  stallDetector : Option StallDetector
  compactor : Option (ContextCompactor W)
  contextBudget : Option ContextBudget
  evaluator : Option (GoalEvaluator W)
  formats : Formats

/-! ## Tool results -/

def pipelineErrorMessage (formats : Formats) : PipelineError → String
  | .unresolved _ => "capability not registered"
  | .invalid _ reason => s!"invalid args: {reason}"
  | .rejected r => s!"governance rejected: {r.verdict.debug formats}"
  | .execution _ reason => s!"execution failed: {reason}"

def toolResultBody (capability : String) (correlation : Option String) (args : Value)
    (result : Except String Value) : Value :=
  let body := SortedMap.insert "capability" (.string capability) []
  let body := match correlation with
    | some c => SortedMap.insert "correlation" (.string c) body
    | none => body
  let body := SortedMap.insert "args" args body
  .object <| match result with
    | .ok value => SortedMap.insert "result" value body
    | .error message => SortedMap.insert "error" (.string message) body

def toolResultFragment (formats : Formats) (capability : String) (correlation : Option String)
    (args : Value) (result : Except String Value) : Fragment :=
  ⟨toolResultChannel, formats.jsonText (toolResultBody capability correlation args result)⟩

/-- The warning that goes with a call that has been repeated too often. -/
def stallFragment (capability : String) : Fragment :=
  ⟨toolResultChannel, "\x7b\"stall\":true,\"capability\":\"" ++ capability ++
    "\",\"message\":\"same capability+args repeated " ++ toString maxConsecutiveIdenticalCalls ++
    " times — try a different approach\"\x7d"⟩

/-! ## Enacting a decision -/

/-- The locals of `enact`, with the report it borrows. -/
structure Enacting where
  outcome : Option Outcome
  toolResults : List Fragment
  report : RunReport
  stallDetector : Option StallDetector

namespace Enacting

def effected (s : Enacting) (formats : Formats) (correlation : Option String) (args : Value)
    (eff : Effected) : Enacting :=
  { s with
    report := { s.report with
      effected := s.report.effected ++ [eff.capability]
      results := s.report.results ++ [(eff.capability, eff.result)] }
    toolResults := s.toolResults ++
      [toolResultFragment formats eff.capability correlation args (.ok eff.result)] }

def failed (s : Enacting) (formats : Formats) (capability : String)
    (correlation : Option String) (args : Value) (message : String) : Enacting :=
  { s with
    report := { s.report with failed := s.report.failed ++ [capability] }
    toolResults := s.toolResults ++
      [toolResultFragment formats capability correlation args (.error message)] }

def expressed (s : Enacting) (body : String) : Enacting :=
  { s with report := { s.report with expressed := s.report.expressed ++ [body] } }

end Enacting

namespace Loop

open Eff

variable {W O : Type} (L : Loop W)

/-- Feed the stall detector, if there is one; a stall adds a warning. -/
def feedStall (s : Enacting) (capability : String) (args : Value) : Enacting :=
  match s.stallDetector with
  | none => s
  | some d =>
    let (stalled, d') := d.feed L.formats capability args
    { s with
      stallDetector := some d'
      toolResults := if stalled then s.toolResults ++ [stallFragment capability]
        else s.toolResults }

def enactInvoke (s : Enacting) (capability : String) (args : Value)
    (correlation : Option String) : Eff Action W Enacting := do
  let s := L.feedStall s capability args
  let request : EffectRequest := ⟨capability, args, correlation, L.scope⟩
  match ← L.pipeline.dispatchWithInvoker request (L.pipeline.invoke L.scope) with
  | .ok eff =>
    emit (.invoked capability args correlation (.ok eff.result))
    return s.effected L.formats correlation args eff
  | .error e =>
    let message := pipelineErrorMessage L.formats e
    emit (.invoked capability args correlation (.error message))
    emit (.event (.pluginError capability message))
    return s.failed L.formats capability correlation args message

def enactExpress (s : Enacting) (body : String) : Eff Action W Enacting := do
  emit (.event (.expressed body))
  if L.tokenTx then
    emit (.token body)
  return s.expressed body

def enactIntent (s : Enacting) : ActionIntent → Eff Action W Enacting
  | .invoke capability args correlation => L.enactInvoke s capability args correlation
  | .express body => L.enactExpress s body
  -- the last `Conclude` wins
  | .conclude o => return { s with outcome := some o }

def enact (s : Enacting) : List ActionIntent → Eff Action W Enacting
  | [] => return s
  | intent :: intents => do
    let s ← L.enactIntent s intent
    enact s intents

/-! ## The span -/

structure State where
  current : Goal
  workingCtx : Context
  toolSteps : ℕ
  report : RunReport
  stallDetector : Option StallDetector

/-- Compact the context if there is a compactor and the context is over the budget. -/
def compactIfOver (ctx : Context) : Eff Action W Context :=
  match L.compactor, L.contextBudget with
  | some compactor, some budget =>
    if budget.maxTokens < ContextBudget.estimateTokens ctx then call (compactor.compact ctx budget)
    else return ctx
  | _, _ => return ctx

/-- The top of the outer loop: a goal is taken up with a fresh context. -/
def takeUp (ctx : Context) (goal : Goal) (report : RunReport)
    (stallDetector : Option StallDetector) : Eff Action W State := do
  emit (.observed goal)
  let workingCtx ← L.compactIfOver ctx
  return ⟨goal, workingCtx, 0, report, stallDetector⟩

/-- Who won the race. -/
inductive Selected where
  | superseded (newer : Goal)
  | vetoed (reason : Option String)
  | decided (decision : Decision)

/-- The biased `select!`, from the poll number `n` on and for so many rounds. -/
def select (obs : Observations W O) (snapshot : Goal) (ctx : Context) (caps : List Capability) :
    ℕ → ℕ → Eff Action (W × O) Selected
  | 0, _ => never
  | rounds + 1, n => do
    -- the order of the branches is that of the source, which is biased
    match ← ask (obs.superseded snapshot n) with
    | some newer => return .superseded newer
    | none =>
      match ← onFst (ask (L.vetoSource.vetoed n)) with
      | some reason => return .vetoed reason
      | none =>
        match ← onFst (ask (L.provider.decide snapshot ctx caps n)) with
        | some decision => return .decided decision
        | none => select obs snapshot ctx caps rounds (n + 1)

/-- An `Achieved` is put to the evaluator, if there is one. -/
def evaluate (s : State) (report : RunReport) (o : Outcome) : Eff Action W GoalEval :=
  match o, L.evaluator with
  | .achieved, some evaluator => call (evaluator.evaluate s.current s.workingCtx report)
  | _, _ => return .satisfied

/-- A `Conclude` ends the span. -/
def conclude (s : State) (report : RunReport) (o : Outcome) : Eff Action W RunReport := do
  let eval ← L.evaluate s report o
  emit (.event (.runConcluded s.current.id o))
  match eval with
  | .unsatisfied reason => return { report with runEnd := some (.unsatisfied reason) }
  | _ => return { report with runEnd := some (.concluded o) }

/-- The provider acted without concluding: it sees the results and decides again, unless the
goal has had its steps. -/
def feedBack (s : State) (e : Enacting) : Eff Action W (State ⊕ RunReport) := do
  if maxToolSteps ≤ s.toolSteps + 1 then
    emit (.event (.runConcluded s.current.id .abandoned))
    return .inr { e.report with runEnd := some .stepLimit }
  else
    let workingCtx ← L.compactIfOver ⟨s.workingCtx.fragments ++ e.toolResults⟩
    return .inl { s with
      workingCtx
      toolSteps := s.toolSteps + 1
      report := e.report
      stallDetector := e.stallDetector }

/-- The provider neither concluded nor acted: on to the next goal. -/
def advance (obs : Observations W O) (ctx : Context) (e : Enacting) :
    Eff Action (W × O) (State ⊕ RunReport) := do
  match ← call obs.nextGoal with
  | some goal => .inl <$> onFst (L.takeUp ctx goal e.report e.stallDetector)
  | none => return .inr { e.report with runEnd := some .streamExhausted }

def afterDecide (obs : Observations W O) (ctx : Context) (s : State) (decision : Decision) :
    Eff Action (W × O) (State ⊕ RunReport) := do
  emit (.decided s.current decision)
  emit (.event (.decided L.provider.id decision.intents.length))
  let e ← onFst (L.enact ⟨none, [], s.report, s.stallDetector⟩ decision.intents)
  emit (.enacted s.current decision)
  match e.outcome with
  | some o => .inr <$> onFst (L.conclude s e.report o)
  | none =>
    if e.toolResults.isEmpty then L.advance obs ctx e
    else onFst (L.feedBack s e)

def iteration (obs : Observations W O) (ctx : Context) (rounds : ℕ) (s : State) :
    Eff Action (W × O) (State ⊕ RunReport) := do
  emit (.event (.runStarted s.current.id s.current.revision))
  emit (.decide s.current s.workingCtx)
  match ← L.select obs s.current s.workingCtx L.pipeline.registry.all rounds 0 with
  | .superseded newer =>
    emit (.superseded s.current newer)
    emit (.event (.abandoned s.current.id newer.revision))
    -- the context is that of the span, without the results of the abandoned goal
    .inl <$> onFst (L.takeUp ctx newer s.report s.stallDetector)
  | .vetoed reason =>
    emit (.vetoed s.current)
    emit (.event (.abandoned s.current.id s.current.revision))
    return .inr { s.report with runEnd := some (.vetoed (reason.getD "veto fired")) }
  | .decided decision => L.afterDecide obs ctx s decision

def iterate (obs : Observations W O) (ctx : Context) (rounds : ℕ) :
    ℕ → State → Eff Action (W × O) RunReport
  -- out of fuel
  | 0, _ => never
  | n + 1, s => do
    match ← L.iteration obs ctx rounds s with
    | .inl s => iterate obs ctx rounds n s
    | .inr report => return report

/-- One span, for at most `fuel` passes of the inner loop and `fuel` polls in each. -/
def runSpan (obs : Observations W O) (ctx : Context) (fuel : ℕ) :
    Eff Action (W × O) RunReport := do
  match ← call obs.nextGoal with
  | some goal =>
    let s ← onFst (L.takeUp ctx goal RunReport.empty L.stallDetector)
    L.iterate obs ctx fuel fuel s
  | none => return { RunReport.empty with runEnd := some .streamExhausted }

end Loop

end Pan
