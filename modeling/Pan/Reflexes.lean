import Pan.Commands
import Pan.ContinueLaw
import Pan.Feedback
import Pan.RuleFiles
import Pan.Termination

namespace Pan

open Eff

/-! ## The providers -/

namespace BehaviorTree

inductive Leaf where
  | action (capability : String) (args : Value)
  | succeed

def Leaf.intent : Leaf → ActionIntent
  | .action capability args => .invoke capability args none
  | .succeed => .conclude .achieved

/-- The nodes are ticked in order. -/
def decide (root : List Leaf) : Decision := ⟨root.map Leaf.intent⟩

end BehaviorTree

def BehaviorTreeProvider (W : Type) (root : List BehaviorTree.Leaf) : Provider W where
  id := "provider.behaviortree"
  decide _ _ _ _ w := (some (BehaviorTree.decide root), w)

def buildBehaviortree (W : Type) : Factory (Provider W) :=
  fun _ => .ok (BehaviorTreeProvider W [.succeed])

namespace Echo

def defaultPrefix : String := "you said"

def body (displayF64 : F64 → String) (pre : String) : Trigger → String
  | .utterance _ content => s!"{pre}: {content}"
  | .event topic _ => s!"{pre}: (event {topic})"
  | .signal name value => s!"{pre}: (signal {name}={displayF64 value})"
  | .tick sequence => s!"{pre}: (tick {sequence})"

def decide (displayF64 : F64 → String) (pre : String) (goal : Goal) : Decision :=
  ⟨[.express (body displayF64 pre goal.trigger), .conclude .achieved]⟩

end Echo

def EchoProvider (W : Type) (displayF64 : F64 → String) (pre : String) : Provider W where
  id := "provider.echo"
  decide goal _ _ _ w := (some (Echo.decide displayF64 pre goal), w)

def buildEcho (W : Type) (displayF64 : F64 → String) : Factory (Provider W) := fun cfg =>
  .ok (EchoProvider W displayF64
    (((cfg.settings.get "prefix").bind Value.asStr).getD Echo.defaultPrefix))

def RulesProvider.provider (W : Type) (p : RulesProvider) : Provider W where
  id := "provider.rules"
  decide goal _ _ _ w := (some (p.decide goal), w)

/-- The decision of the provider of the core that stands for a model. -/
def LlmStub.decision : Decision :=
  ⟨[.express "Hello, I can help with that.",
    .invoke "cap.state_write" (.ofFields [("path", .string "last_seen"), ("value", .string "now")])
      none,
    .conclude .achieved]⟩

def LlmStub (W : Type) : Provider W where
  id := "provider.llm"
  decide _ _ _ _ w := (some LlmStub.decision, w)

/-- At once, and by the goal alone, the provider decides `d`. -/
def Provider.Reflex {W : Type} (p : Provider W) (d : Goal → Decision) : Prop :=
  ∀ goal ctx caps n w, p.decide goal ctx caps n w = (some (d goal), w)

/-- The providers of the core that have no model. -/
inductive Modelless (W : Type) : Provider W → (Goal → Decision) → Prop
  | tree (root) : Modelless W (BehaviorTreeProvider W root) fun _ => BehaviorTree.decide root
  | rules (p : RulesProvider) : Modelless W (p.provider W) p.decide
  | echo (displayF64 pre) : Modelless W (EchoProvider W displayF64 pre) (Echo.decide displayF64 pre)
  | stub : Modelless W (LlmStub W) fun _ => LlmStub.decision
  | command : Modelless W (CommandProvider W) CommandProvider.decision

theorem Modelless.reflex {W : Type} {p : Provider W} {d : Goal → Decision}
    (h : Modelless W p d) : p.Reflex d := by
  intro goal ctx caps n w
  cases h <;> rfl

/-- The entries of the stock registry for such providers. -/
def reflexBuilders (W : Type) (displayF64 : F64 → String) : List (String × Factory (Provider W)) :=
  [("provider.rules", fun cfg => (buildRules cfg).map (RulesProvider.provider W)),
    ("provider.behaviortree", buildBehaviortree W),
    ("provider.echo", buildEcho W displayF64),
    ("provider.command", fun _ => .ok (CommandProvider W))]

theorem modelless_of_build {W : Type} {displayF64 : F64 → String}
    {entry : String × Factory (Provider W)} (h : entry ∈ reflexBuilders W displayF64)
    (cfg : ComponentConfig) : ∃ p d, entry.2 cfg = .ok p ∧ Modelless W p d ∧ p.id = entry.1 := by
  simp only [reflexBuilders, List.mem_cons, List.not_mem_nil, or_false] at h
  obtain rfl | rfl | rfl | rfl := h
  · obtain ⟨id, file⟩ := cfg
    refine ⟨_, _, ?_, .rules ⟨(ruleEntries file).filterMap parseRule⟩, rfl⟩
    dsimp only
    rw [buildRules_eq]
    rfl
  · exact ⟨_, _, rfl, .tree _, rfl⟩
  · exact ⟨_, _, rfl, .echo displayF64 _, rfl⟩
  · exact ⟨_, _, rfl, .command, rfl⟩

/-! ## Components that return -/

section Responsive

variable {W : Type}

structure CapabilityProvider.Responsive (provider : CapabilityProvider W) : Prop where
  execute : ∀ capability args w, (provider.execute capability args w).isSome
  executeWithInvoker : ∀ origin capability args w,
    (provider.executeWithInvoker origin capability args w).Terminates

/-- An agent whose components return is run in a pipeline that does. -/
theorem AssembledAgent.served_responsive {agent : AssembledAgent W}
    (h : ∀ provider ∈ agent.toolbox.providers, provider.Responsive) (formats : Formats)
    (stream : Bool) : (agent.served formats stream).pipeline.Responsive where
  govern _ _ _ _ := rfl
  preInvoke _ hhook := by cases hhook
  postInvoke _ hhook := by cases hhook
  execute capability args w := by
    change ((agent.toolbox.executor agent.scope.origin).execute capability args w).isSome
    unfold Toolbox.executor
    dsimp only
    cases howner : agent.toolbox.ownerOf capability with
    | none => rfl
    | some provider =>
      obtain ⟨i, -, hi⟩ := Toolbox.ownerOf_eq_some.mp howner
      exact (h provider (List.mem_of_getElem? hi)).execute capability args w
  executeWithInvoker capability args w := by
    change ((agent.toolbox.executor agent.scope.origin).executeWithInvoker capability args
      w).Terminates
    unfold Toolbox.executor
    dsimp only
    cases howner : agent.toolbox.ownerOf capability with
    | none => exact .returns
    | some provider =>
      obtain ⟨i, -, hi⟩ := Toolbox.ownerOf_eq_some.mp howner
      exact (h provider (List.mem_of_getElem? hi)).executeWithInvoker _ capability args w

end Responsive

/-! ## What a decision amounts to -/

def ActionIntent.spoken : ActionIntent → Option String
  | .express body => some body
  | _ => none

namespace Decision

def spoken (d : Decision) : List String := d.intents.filterMap ActionIntent.spoken

def rounds (d : Decision) : ℕ :=
  if d.outcome = none ∧ d.invocations ≠ [] then maxToolSteps else 1

def ending (d : Decision) : RunEnd :=
  match d.outcome with
  | some outcome => .concluded outcome
  | none => if d.invocations = [] then .streamExhausted else .stepLimit

end Decision

def RunReport.attempts (report : RunReport) : ℕ := report.effected.length + report.failed.length

/-- What becomes of the locals of `enact`. -/
structure Enacting.After (e : Enacting) (intents : List ActionIntent) (e' : Enacting) : Prop where
  outcome : e'.outcome = (intents.reverse.findSome? ActionIntent.concludes).or e.outcome
  quiet : e'.toolResults = [] ↔
    e.toolResults = [] ∧ intents.filterMap ActionIntent.invocation = []
  expressed : e'.report.expressed = e.report.expressed ++ intents.filterMap ActionIntent.spoken
  attempts : e'.report.attempts =
    e.report.attempts + (intents.filterMap ActionIntent.invocation).length

namespace Enacting.After

variable {e e' e'' : Enacting}

theorem nil (e : Enacting) : e.After [] e := by
  constructor <;> simp

theorem cons {intent : ActionIntent} {intents : List ActionIntent} (h : e.After [intent] e')
    (h' : e'.After intents e'') : e.After (intent :: intents) e'' := by
  constructor
  · rw [h'.outcome, h.outcome, Loop.findSome_reverse_cons, Loop.findSome_reverse_cons]
    rfl
  · rw [h'.quiet, h.quiet, ← List.singleton_append (l := intents), List.filterMap_append,
      List.append_eq_nil_iff, and_assoc]
  · rw [h'.expressed, h.expressed, ← List.singleton_append (l := intents), List.filterMap_append,
      List.append_assoc]
  · rw [h'.attempts, h.attempts, ← List.singleton_append (l := intents), List.filterMap_append,
      List.length_append, Nat.add_assoc]

end Enacting.After

/-! ## Enacting -/

namespace Loop

variable {W O : Type} {L : Loop W} {ctx : Context}

section Enact

variable (hP : L.pipeline.Responsive)

include hP

theorem dispatchInvoke_shows (capability : String) (args : Value) (correlation : Option String) :
    Shows Action.invocation (fun _ => True) (L.dispatchInvoke capability args correlation) []
      fun _ _ => True := by
  apply Shows.hidden
  · exact Pipeline.dispatchWithInvoker_returns hP _ _
  · intro w a ha
    apply Action.invocation_of_silent
    exact Action.silent_of_ofPipeline (ofPipeline_of_mem_dispatchInvoke a ha)

theorem enactIntent_shows (e : Enacting) (intent : ActionIntent) :
    Shows Action.invocation (fun _ => True) (L.enactIntent e intent) intent.invocation.toList
      fun e' _ => e.After [intent] e' := by
  cases intent with
  | invoke capability args correlation =>
    have houtcome := feedStall_outcome (L := L) e capability args
    have hreport := feedStall_report (L := L) e capability args
    unfold enactIntent enactInvoke
    dsimp only
    rw [← dispatchInvoke]
    refine Shows.bind (dispatchInvoke_shows hP capability args correlation) fun r => ?_
    -- the result or the error: either way one invocation more, and one attempt
    cases r with
    | ok eff =>
      refine Shows.emit_bind_kept rfl (Shows.pure fun _ _ => ?_)
      constructor
      · exact houtcome
      · simp [Enacting.effected, ActionIntent.invocation]
      · simp [Enacting.effected, hreport, ActionIntent.spoken]
      · simp [Enacting.effected, hreport, RunReport.attempts, ActionIntent.invocation]
        omega
    | error err =>
      refine Shows.emit_bind_kept rfl (Shows.emit_bind rfl (Shows.pure fun _ _ => ?_))
      constructor
      · exact houtcome
      · simp [Enacting.failed, ActionIntent.invocation]
      · simp [Enacting.failed, hreport, ActionIntent.spoken]
      · simp [Enacting.failed, hreport, RunReport.attempts, ActionIntent.invocation]
        omega
  | express body =>
    have hafter : e.After [.express body] (e.expressed body) := by
      constructor
      · rfl
      · simp [Enacting.expressed, ActionIntent.invocation]
      · simp [Enacting.expressed, ActionIntent.spoken]
      · simp [Enacting.expressed, RunReport.attempts, ActionIntent.invocation]
    unfold enactIntent enactExpress
    refine Shows.emit_bind rfl ?_
    dsimp only
    split
    · exact Shows.emit_bind rfl (Shows.pure fun _ _ => hafter)
    · exact Shows.pure fun _ _ => hafter
  | conclude o =>
    refine Shows.pure fun _ _ => ?_
    constructor <;> simp [ActionIntent.concludes, ActionIntent.invocation, ActionIntent.spoken]

theorem enact_shows (e : Enacting) (intents : List ActionIntent) :
    Shows Action.invocation (fun _ => True) (L.enact e intents)
      (intents.filterMap ActionIntent.invocation) fun e' _ => e.After intents e' := by
  induction intents generalizing e with
  | nil => exact Shows.pure fun _ _ => .nil e
  | cons intent intents ih =>
    have htrace : (intent :: intents).filterMap ActionIntent.invocation =
        intent.invocation.toList ++ intents.filterMap ActionIntent.invocation := by
      cases hintent : intent.invocation <;> simp [hintent]
    rw [htrace]
    unfold enact
    refine Shows.bind (enactIntent_shows hP e intent) fun e' => ?_
    intro w he'
    obtain ⟨e'', w', hr, ht, hafter⟩ := ih e' w trivial
    exact ⟨e'', w', hr, ht, he'.cons hafter⟩

end Enact

end Loop

/-! ## The calls of the pipeline -/

namespace Loop

variable {W O : Type} {L : Loop W} {obs : Observations W O} {ctx : Context}

variable (L) in
def told : Except PipelineError Effected → Except String Value
  | .ok eff => .ok eff.result
  | .error e => .error (pipelineErrorMessage L.formats e)

variable (L) in
/-- The pipeline has been called for these, one after another, each call was reported when it
returned, and nothing else was done by the pipeline. -/
inductive Dispatches : List Action → List Invocation → Prop
  | start : Dispatches [] []
  | own {h is a} (hh : Dispatches h is) (hown : a.ofPipeline = false)
      (hinvocation : a.invocation = none) : Dispatches (h ++ [a]) is
  | call {h is} (hh : Dispatches h is) (i : Invocation) {w r w'}
      (hreturns : (L.dispatchInvoke i.capability i.args i.correlation w).2 = some (r, w')) :
      Dispatches (h ++ ((L.dispatchInvoke i.capability i.args i.correlation w).1 ++
        [.invoked i.capability i.args i.correlation (L.told r)])) (is ++ [i])

namespace Dispatches

variable {h : List Action} {is : List Invocation}

theorem append_own (hh : L.Dispatches h is) {t : List Action}
    (ht : ∀ a ∈ t, a.ofPipeline = false ∧ a.invocation = none) : L.Dispatches (h ++ t) is := by
  induction t generalizing h with
  | nil => rwa [List.append_nil]
  | cons a t ih =>
    rw [List.forall_mem_cons] at ht
    have htail := ih (hh.own ht.1.1 ht.1.2) ht.2
    rwa [List.append_assoc] at htail

/-- Each call is of what is reported. -/
theorem invocations (hh : L.Dispatches h is) : h.filterMap Action.invocation = is := by
  induction hh with
  | start => rfl
  | own hh hown hinvocation ih =>
    rw [List.filterMap_append, ih, List.filterMap_cons_none hinvocation]
    exact List.append_nil _
  | @call h is hh i w r w' hreturns ih =>
    have hsilent : (L.dispatchInvoke i.capability i.args i.correlation w).1.filterMap
        Action.invocation = [] := by
      refine List.filterMap_eq_nil_iff.mpr fun a ha => Action.invocation_of_silent ?_
      exact Action.silent_of_ofPipeline (ofPipeline_of_mem_dispatchInvoke a ha)
    rw [List.filterMap_append, List.filterMap_append, ih, hsilent]
    rfl

end Dispatches

theorem Moves.dispatches {p p' : Point} {o o' : O} {h t : List Action}
    (hm : L.Moves obs ctx p o t p' o') (hh : p ≠ .hung → ∃ is, L.Dispatches h is)
    (hp : p' ≠ .hung) : ∃ is, L.Dispatches (h ++ t) is := by
  have hown : ∀ {t}, p ≠ .hung → (∀ a ∈ t, a.ofPipeline = false ∧ a.invocation = none) →
      ∃ is, L.Dispatches (h ++ t) is := by
    intro t hp ht
    obtain ⟨is, his⟩ := hh hp
    exact ⟨is, his.append_own ht⟩
  cases hm with
  | effect hd =>
    obtain ⟨is, his⟩ := hh (by simp)
    exact ⟨_, his.call ⟨_, _, _⟩ hd⟩
  | fail hd =>
    rename_i s d capability args correlation todo e w err w'
    obtain ⟨is, his⟩ := hh (by simp)
    have hcalled := (his.call ⟨capability, args, correlation⟩ hd).own
      (a := .event (.pluginError capability (pipelineErrorMessage L.formats err))) rfl rfl
    rw [List.append_assoc, List.append_assoc] at hcalled
    exact ⟨_, hcalled⟩
  | hang => exact absurd rfl hp
  | express =>
    refine hown (by simp) ?_
    split <;> simp [Action.ofPipeline, Action.invocation]
  | _ => exact hown (by simp) (by simp [Action.ofPipeline, Action.invocation])

/-- A span that returns has called the pipeline for what it has invoked. -/
theorem dispatches_runSpan {fuel : ℕ} {w w' : W × O} {report : RunReport}
    (h : (L.runSpan obs ctx fuel w).2 = some (report, w')) :
    L.Dispatches (L.runSpan obs ctx fuel w).1
      ((L.runSpan obs ctx fuel w).1.filterMap Action.invocation) := by
  have hreaches : ∀ {p o h}, L.Reaches obs ctx w.2 p o h → p ≠ .hung → ∃ is, L.Dispatches h is :=
    Reaches.invariant (I := fun p _ h => p ≠ .hung → ∃ is, L.Dispatches h is)
      (fun _ => ⟨[], .start⟩) fun _ _ _ _ _ _ hh hm => hm.dispatches hh
  obtain ⟨is, his⟩ := hreaches (reaches_ended h) (by simp)
  rwa [his.invocations]

end Loop

/-! ## The rounds -/

/-- What `n` rounds of a decision add to the report. -/
structure RunReport.Ticked (d : Decision) (n : ℕ) (report report' : RunReport) : Prop where
  expressed : report'.expressed = report.expressed ++ (List.replicate n d.spoken).flatten
  attempts : report'.attempts = report.attempts + n * d.invocations.length

namespace RunReport.Ticked

variable {d : Decision} {n : ℕ} {report report' report'' : RunReport}

theorem once {e e' : Enacting} (h : e.After d.intents e') : Ticked d 1 e.report e'.report := by
  constructor
  · rw [h.expressed, List.replicate_one, List.flatten_singleton]
    rfl
  · rw [h.attempts, Nat.one_mul]
    rfl

theorem succ (h : Ticked d 1 report report') (h' : Ticked d n report' report'') :
    Ticked d (n + 1) report report'' := by
  constructor
  · rw [h'.expressed, h.expressed, List.append_assoc, List.replicate_one,
      List.flatten_singleton, List.replicate_succ, List.flatten_cons]
  · rw [h'.attempts, h.attempts, Nat.one_mul, Nat.add_mul, Nat.one_mul]
    omega

end RunReport.Ticked

theorem Decision.rounds_le (d : Decision) : 1 ≤ d.rounds ∧ d.rounds ≤ maxToolSteps := by
  unfold rounds
  split_ifs <;> decide

namespace Loop

variable {W : Type} {L : Loop W} {ctx : Context} {goal : Goal} {d : Decision} {s : State}

variable (L goal d) in
/-- Nothing comes between the provider, which decides `d` at once, and what it decides. -/
structure Unhindered : Prop where
  pipeline : L.pipeline.Responsive
  decide : ∀ ctx caps n w, L.provider.decide goal ctx caps n w = (some d, w)
  vetoSource : L.vetoSource = NoVeto W
  compactor : L.compactor = none
  evaluator : L.evaluator = none

variable (d s) in
/-- One round has been gone through, and the next one is due or there is none. -/
inductive Proceeds : State ⊕ RunReport → Prop
  | ends {report} : s.toolSteps + 1 = d.rounds → report.runEnd = some d.ending →
      RunReport.Ticked d 1 s.report report → Proceeds (.inr report)
  | again {s'} : s.toolSteps + 1 < d.rounds → s'.current = s.current →
      s'.toolSteps = s.toolSteps + 1 → RunReport.Ticked d 1 s.report s'.report →
      Proceeds (.inl s')

theorem advance_shows {e : Enacting} (hticked : RunReport.Ticked d 1 s.report e.report)
    (hs : s.toolSteps + 1 = d.rounds) (hending : d.ending = .streamExhausted) :
    Shows Action.invocation (fun w => w.2 = none) (L.advance (Once W) ctx e) [] fun r w =>
      Proceeds d s r ∧ w.2 = none := by
  unfold advance
  refine Shows.bind (t := []) (Q := fun r w => r = none ∧ w.2 = none) ?_ fun r => ?_
  · refine Shows.call ?_
    rintro ⟨w, o⟩ rfl
    exact ⟨none, (w, none), rfl, rfl, rfl⟩
  · rintro w ⟨rfl, hw⟩
    exact ⟨_, w, rfl, rfl, .ends hs (congrArg some hending.symm)
      ⟨hticked.expressed, hticked.attempts⟩, hw⟩

variable (hL : L.Unhindered goal d)

include hL

theorem compactIfOver_eq (c : Context) : L.compactIfOver c = pure c := by
  unfold compactIfOver
  rw [hL.compactor]

theorem select_decides {rounds : ℕ} (hrounds : 0 < rounds) (c : Context) (caps : List Capability)
    (w : W × Option Goal) :
    L.select (Once W) goal c caps rounds 0 w = ([], some (.decided d, w)) := by
  obtain ⟨m, rfl⟩ : ∃ m, rounds = m + 1 := ⟨rounds - 1, by omega⟩
  simp [select, bind_eq, Once, hL.vetoSource, NoVeto, onFst, hL.decide]

theorem conclude_shows {o : Outcome} {report : RunReport} :
    Shows Action.invocation (fun _ => True) (L.conclude s report o) [] fun report' _ =>
      report' = { report with runEnd := some (.concluded o) } := by
  have hevaluate : L.evaluate s report o = pure .satisfied := by
    unfold evaluate
    rw [hL.evaluator]
    cases o <;> rfl
  unfold conclude
  rw [hevaluate]
  refine Shows.bind (t := []) (Shows.pure (Q := fun eval _ => eval = .satisfied) fun _ _ => rfl)
    fun eval => Shows.emit_bind rfl ?_
  rintro w rfl
  exact ⟨_, w, rfl, rfl, rfl⟩

theorem feedBack_shows {e : Enacting} (hticked : RunReport.Ticked d 1 s.report e.report)
    (hs : s.toolSteps < d.rounds) (hrounds : d.rounds = maxToolSteps)
    (hending : d.ending = .stepLimit) :
    Shows Action.invocation (fun _ => True) (L.feedBack s e) [] fun r _ => Proceeds d s r := by
  unfold feedBack
  split
  · refine Shows.emit_bind rfl (Shows.pure fun _ _ => ?_)
    exact .ends (by omega) (congrArg some hending.symm) ⟨hticked.expressed, hticked.attempts⟩
  · rw [compactIfOver_eq hL]
    refine Shows.bind (t := []) (Shows.pure (Q := fun _ _ => True) fun _ _ => trivial)
      fun c => Shows.pure fun _ _ => ?_
    exact .again (by omega) rfl rfl ⟨hticked.expressed, hticked.attempts⟩

/-- One decision is enacted, and what follows it. -/
theorem afterDecide_shows (hs : s.toolSteps < d.rounds) :
    Shows Action.invocation (fun w => w.2 = none) (L.afterDecide (Once W) ctx s d) d.invocations
      fun r w => Proceeds d s r ∧ w.2 = none := by
  unfold afterDecide
  refine Shows.emit_bind rfl (Shows.emit_bind rfl ?_)
  rw [← List.append_nil d.invocations]
  refine Shows.bind (Shows.onFst (φ := fun e => Enacting.After ⟨none, [], s.report, s.stallDetector⟩
    d.intents e) (enact_shows hL.pipeline _ _) (fun o => o = none)) fun e => ?_
  refine Shows.emit_bind rfl ?_
  rintro w ⟨hafter, hw⟩
  have hticked : RunReport.Ticked d 1 s.report e.report := .once hafter
  have houtcome : e.outcome = d.outcome := by
    rw [hafter.outcome, Option.or_none]
    rfl
  have hquiet : e.toolResults = [] ↔ d.invocations = [] := by
    rw [hafter.quiet]
    exact and_iff_right rfl
  rw [houtcome]
  -- the three ways on: the end, the next goal, or the results fed back to the same goal
  cases hd : d.outcome with
  | some o =>
    have hrounds : d.rounds = 1 := by simp [Decision.rounds, hd]
    have hending : d.ending = .concluded o := by simp [Decision.ending, hd]
    refine Shows.bind (t := []) (Shows.onFst (conclude_shows hL) fun o => o = none)
      (fun report => Shows.pure ?_) w hw
    rintro w' ⟨rfl, hw'⟩
    exact ⟨.ends (by omega) (congrArg some hending.symm) ⟨hticked.expressed, hticked.attempts⟩, hw'⟩
  | none =>
    by_cases hinvocations : d.invocations = []
    · have hrounds : d.rounds = 1 := by simp [Decision.rounds, hinvocations]
      have hending : d.ending = .streamExhausted := by simp [Decision.ending, hd, hinvocations]
      have hempty : e.toolResults.isEmpty = true := by simp [hquiet, hinvocations]
      dsimp only
      rw [if_pos hempty]
      exact advance_shows hticked (by omega) hending w hw
    · have hrounds : d.rounds = maxToolSteps := by simp [Decision.rounds, hd, hinvocations]
      have hending : d.ending = .stepLimit := by simp [Decision.ending, hd, hinvocations]
      have hempty : ¬e.toolResults.isEmpty = true := by simp [hquiet, hinvocations]
      dsimp only
      rw [if_neg hempty]
      exact Shows.onFst (feedBack_shows hL hticked hs hrounds hending) (fun o => o = none) w hw

theorem iteration_shows {rounds : ℕ} (hrounds : 0 < rounds) (hgoal : s.current = goal)
    (hs : s.toolSteps < d.rounds) :
    Shows Action.invocation (fun w => w.2 = none) (L.iteration (Once W) ctx rounds s)
      d.invocations fun r w => Proceeds d s r ∧ w.2 = none := by
  unfold iteration
  refine Shows.emit_bind rfl (Shows.emit_bind rfl ?_)
  rw [hgoal]
  refine Shows.bind (t := []) (Q := fun selected w => selected = .decided d ∧ w.2 = none) ?_
    fun selected => ?_
  · intro w hw
    rw [select_decides hL hrounds]
    exact ⟨_, w, rfl, rfl, rfl, hw⟩
  · rintro w ⟨rfl, hw⟩
    exact afterDecide_shows hL hs w hw

/-- By induction on the rounds that are left. -/
theorem iterate_shows {rounds : ℕ} (hrounds : 0 < rounds) {k n : ℕ} (hgoal : s.current = goal)
    (hs : s.toolSteps + (k + 1) = d.rounds) (hn : k < n) :
    Shows Action.invocation (fun w => w.2 = none) (L.iterate (Once W) ctx rounds n s)
      (List.replicate (k + 1) d.invocations).flatten fun report _ =>
        report.runEnd = some d.ending ∧ RunReport.Ticked d (k + 1) s.report report := by
  induction k generalizing n s with
  | zero =>
    obtain ⟨n, rfl⟩ : ∃ m, n = m + 1 := ⟨n - 1, by omega⟩
    unfold iterate
    refine Shows.bind (iteration_shows hL hrounds hgoal (by omega)) fun r => ?_
    rintro w ⟨hr, hw⟩
    cases hr with
    | ends hsteps hend hticked => exact ⟨_, w, rfl, rfl, hend, hticked⟩
    | again hsteps => omega
  | succ k ih =>
    obtain ⟨n, rfl⟩ : ∃ m, n = m + 1 := ⟨n - 1, by omega⟩
    unfold iterate
    rw [List.replicate_succ, List.flatten_cons]
    refine Shows.bind (iteration_shows hL hrounds hgoal (by omega)) fun r => ?_
    rintro w ⟨hr, hw⟩
    cases hr with
    | ends hsteps => omega
    | again hsteps hcurrent hsteps' hticked =>
      obtain ⟨report, w', hreport, ht, hend, hticked'⟩ :=
        ih (n := n) (hcurrent.trans hgoal) (by omega) (by omega) w hw
      exact ⟨report, w', hreport, ht, hend, hticked.succ hticked'⟩

theorem runSpan_shows {fuel : ℕ} (hfuel : maxToolSteps ≤ fuel) :
    Shows Action.invocation (fun w => w.2 = some goal) (L.runSpan (Once W) ctx fuel)
      (List.replicate d.rounds d.invocations).flatten fun report _ =>
        report.runEnd = some d.ending ∧ RunReport.Ticked d d.rounds .empty report := by
  have hpos : 1 ≤ d.rounds ∧ d.rounds ≤ maxToolSteps := d.rounds_le
  obtain ⟨k, hk⟩ : ∃ k, d.rounds = k + 1 := ⟨d.rounds - 1, by omega⟩
  have htakeUp : Shows Action.invocation (fun w : W × Option Goal => w.2 = none)
      (onFst (L.takeUp ctx goal .empty L.stallDetector)) [] fun s w =>
        s = ⟨goal, ctx, 0, .empty, L.stallDetector⟩ ∧ w.2 = none := by
    refine Shows.onFst ?_ fun o => o = none
    unfold takeUp
    rw [compactIfOver_eq hL]
    exact Shows.emit_bind rfl (Shows.pure fun _ _ => rfl)
  unfold runSpan
  refine Shows.bind (t := []) (Q := fun r w => r = some goal ∧ w.2 = none) ?_ fun r => ?_
  · refine Shows.call ?_
    rintro ⟨w, o⟩ rfl
    exact ⟨some goal, (w, none), rfl, rfl, rfl⟩
  · rintro w ⟨rfl, hw⟩
    refine Shows.bind (t := []) htakeUp (fun s => ?_) w hw
    rintro w ⟨rfl, hw⟩
    rw [hk]
    exact iterate_shows hL (s := ⟨goal, ctx, 0, .empty, L.stallDetector⟩) (by omega) rfl
      (by dsimp only; omega) (by omega) w hw

end Loop

/-! ## The run of a reflex -/

/-- The stock builders make providers without a model. However the capabilities turn out, an agent
with such a provider calls the pipeline for just those of its decision, in order and round after
round, says what it has to say in each of them, and returns. -/
theorem reflex_serves {W : Type} (displayF64 : F64 → String) :
    (∀ entry ∈ reflexBuilders W displayF64, ∀ cfg, ∃ p d, entry.2 cfg = .ok p ∧ Modelless W p d ∧
      p.id = entry.1) ∧
    ∀ (agent : AssembledAgent W) (formats : Formats) (stream : Bool) (d : Goal → Decision),
      Modelless W agent.provider d → (∀ provider ∈ agent.toolbox.providers, provider.Responsive) →
      ∀ (goal : Goal) (ctx : Context) (fuel : ℕ), maxToolSteps ≤ fuel → ∀ w : W,
      let run := agent.serve formats stream goal ctx fuel w
      let invocations := (List.replicate (d goal).rounds (d goal).invocations).flatten
      ∃ report w', run.2 = some (report, w') ∧ report.runEnd = some (d goal).ending ∧
        (agent.served formats stream).Dispatches run.1 invocations ∧
        run.1.filterMap Action.invocation = invocations ∧
        report.expressed = (List.replicate (d goal).rounds (d goal).spoken).flatten ∧
        report.effected.length + report.failed.length =
          (d goal).rounds * (d goal).invocations.length := by
  refine ⟨fun entry hentry cfg => modelless_of_build hentry cfg, ?_⟩
  intro agent formats stream d hd hcomponents goal ctx fuel hfuel w run invocations
  have hL : (agent.served formats stream).Unhindered goal (d goal) :=
    ⟨AssembledAgent.served_responsive hcomponents formats stream, hd.reflex goal, rfl, rfl, rfl⟩
  obtain ⟨report, w', hr, ht, hend, hticked⟩ := Loop.runSpan_shows hL hfuel
    (w, some goal) rfl
  have hdispatches := Loop.dispatches_runSpan hr
  rw [ht] at hdispatches
  have hattempts := hticked.attempts
  refine ⟨report, w'.1, ?_, hend, hdispatches, ht, hticked.expressed, ?_⟩
  · unfold run AssembledAgent.serve
    dsimp only
    rw [hr]
    rfl
  · exact hattempts.trans (Nat.zero_add _)

/-- A guard with a tree that never succeeds: it may run a program, and there is no door. -/
def guardAgent : AssembledAgent Unit where
  name := "guard"
  instruction := ""
  scope := ⟨"persona.guard"⟩
  grants := [("persona.guard", ["cap.shell"])]
  provider := BehaviorTreeProvider Unit
    [.action "cap.door.close" .null, .action "cap.shell.run" (.object [])]
  toolbox := (Toolbox.empty.added shellComponent).2
  contextAssembler := none

/-- The guard tries the door eight times, and runs the program after each failure. -/
theorem reflex_serves_guard :
    let run := guardAgent.serve ⟨fun _ => "", id⟩ false (tickGoal "g" 0) ⟨[]⟩ 8 ()
    let tried := (List.replicate 8 [(⟨"cap.door.close", .null, none⟩ : Invocation),
      ⟨"cap.shell.run", .object [], none⟩]).flatten
    ∃ report w', run.2 = some (report, w') ∧ report.runEnd = some .stepLimit ∧
      (guardAgent.served ⟨fun _ => "", id⟩ false).Dispatches run.1 tried ∧
      run.1.filterMap Action.invocation = tried ∧
      report.effected.length + report.failed.length = 16 := by
  intro run tried
  have hcomponents : ∀ provider ∈ guardAgent.toolbox.providers, provider.Responsive := by
    intro provider hprovider
    have hshell : guardAgent.toolbox.providers = [shellComponent] := rfl
    rw [hshell, List.mem_singleton] at hprovider
    subst hprovider
    exact ⟨fun _ _ _ => rfl, fun _ _ _ _ => .returns⟩
  obtain ⟨report, w', hr, hend, hdispatches, hinvoked, -, hattempts⟩ :=
    (reflex_serves fun _ => "").2 guardAgent ⟨fun _ => "", id⟩ false _ (.tree _) hcomponents
      (tickGoal "g" 0) ⟨[]⟩ 8 (by decide) ()
  exact ⟨report, w', hr, hend, hdispatches, hinvoked, hattempts⟩

end Pan
