import Pan.Agents
import Pan.Governance

namespace Pan

open Eff

/-! ## The capability component -/

/-- `{:?}` of the end of a run. -/
def Outcome.debug : Outcome → String
  | .achieved => "Achieved"
  | .abandoned => "Abandoned"
  | .continue => "Continue"

def RunEnd.debug (formats : Formats) : RunEnd → String
  | concluded outcome => s!"Concluded({outcome.debug})"
  | abandoned => "Abandoned"
  | stepLimit => "StepLimit"
  | vetoed reason => "Vetoed \x7b reason: " ++ formats.debugStr reason ++ " \x7d"
  | unsatisfied reason => "Unsatisfied \x7b reason: " ++ formats.debugStr reason ++ " \x7d"
  | streamExhausted => "StreamExhausted"

def maxDelegationDepth : ℕ := 3

def delegationDepth (origin : String) : ℕ :=
  Text.countMatches ".delegated.".toList origin.toList + 1

def childOrigin (origin agent : String) : String := s!"{origin}.delegated.{agent}"

def delegateArgs (args : Value) : Except ExecError (String × String) := do
  let agent ← argStr args "agent"
  let objective ← argStr args "objective"
  return (agent, objective)

def delegatedGoal (nanos : ℕ) (objective : String) : Goal :=
  ⟨s!"delegate-{nanos}", 0, objective, .utterance "delegate" objective⟩

/-- What the parent gets to see of the child's run. -/
def delegateResult (formats : Formats) (report : RunReport) : Value :=
  let body := SortedMap.insert "expressed" (.array (report.expressed.map .string)) []
  let body := SortedMap.insert "results"
    (.array (report.results.map fun r => .array [.string r.1, r.2])) body
  .object (SortedMap.insert "end" (match report.runEnd with
    | some runEnd => .string (runEnd.debug formats)
    | none => .null) body)

def AssembledAgent.loop {W : Type} (agent : AssembledAgent W) (formats : Formats)
    (origin : String) : Loop W where
  provider := agent.provider
  pipeline := ⟨agent.toolbox.registry, ScopedGovernor W agent.grants,
    agent.toolbox.executor origin, []⟩
  scope := ⟨origin⟩
  tokenTx := false
  vetoSource := NoVeto W
  stallDetector := none
  compactor := none
  contextBudget := none
  evaluator := none
  formats := formats

/-- A span of an agent over a single goal, in an empty context. -/
def AssembledAgent.run {W : Type} (agent : AssembledAgent W) (formats : Formats)
    (origin : String) (goal : Goal) (fuel : ℕ) : Eff Action W RunReport := fun w =>
  let r := (agent.loop formats origin).runSpan (Once W) ⟨[]⟩ fuel (w, some goal)
  (r.1, r.2.map fun p => (p.1, p.2.1))

/-- `readManifest` reads and parses the file of an agent, `nanos` is the time since the epoch. -/
structure AgentCaps (W : Type) where
  registry : ComponentRegistry W
  readManifest : String → Call W (Except ManifestError AgentManifest)
  nanos : W → ℕ × W
  formats : Formats

namespace AgentCaps

variable {W : Type} (A : AgentCaps W)

def loadChild (name : String) : Eff Action W (Except String (AssembledAgent W)) := do
  match ← call (A.readManifest name) with
  | .error e => return .error s!"load {name}: {e.text}"
  | .ok manifest =>
    match manifest.validate with
    | .error e => return .error s!"load {name}: {e.text}"
    | .ok () =>
      return (assemble manifest A.registry).mapError fun e => s!"assemble {name}: {e.text}"

def capabilities : List Capability :=
  let property (type description : String) : Value :=
    .object [("description", .string description), ("type", .string type)]
  [{ id := "cap.agent.delegate"
     summary := "Delegate a goal to a child agent. The child is loaded from " ++
       "its Agent.toml and runs under a narrowed scope."
     argsSchema := .object [
       ("properties", .object [
         ("agent", property "string" "Child agent name (maps to \x7bagent\x7d.toml)"),
         ("input", property "object" "Structured input to pass as context"),
         ("objective", property "string" "The goal objective for the child")]),
       ("required", .array [.string "agent", .string "objective"]),
       ("type", .string "object")] }]

/-- `execute_with_invoker`, for an invoker that acts as `origin` and with `fuel` for the child. -/
def executeWithInvoker (fuel : ℕ) (origin : String) (args : Value) :
    Eff Action W (Except ExecError Value) :=
  match delegateArgs args with
  | .error e => return .error e
  | .ok (agent, objective) =>
    -- the depth is read off the origin, before the child's manifest is
    if maxDelegationDepth < delegationDepth origin then
      return .error
        ⟨s!"delegation depth {delegationDepth origin} exceeds max {maxDelegationDepth}"⟩
    else do
      match ← A.loadChild agent with
      | .error e => return .error ⟨e⟩
      | .ok child =>
        let nanos ← ask A.nanos
        let report ← child.run A.formats (childOrigin origin agent) (delegatedGoal nanos objective)
          fuel
        return .ok (delegateResult A.formats report)

/-- The component. What the child does is not part of the parent's own history. -/
def capabilityProvider (fuel : ℕ) : CapabilityProvider W where
  capabilities := capabilities
  execute _ _ w := some (.error
    ⟨"cap.agent.delegate requires a ScopedInvoker (cannot be invoked directly)"⟩, w)
  executeWithInvoker origin _ args w :=
    match (A.executeWithInvoker fuel origin args w).2 with
    | some (result, w') => .returns result w'
    | none => .hangs

end AgentCaps

/-! ## What a child can do -/

theorem AgentManifest.verdict_eq_allow {m : AgentManifest} {origin capability : String} :
    ScopedGovernor.verdict m.grants origin capability = .allow ↔
      origin = m.origin ∧ ∃ pre ∈ m.grantedPrefixes, prefixMatches pre capability = true := by
  rw [ScopedGovernor.verdict_eq_allow, AgentManifest.get_grants]
  by_cases horigin : origin = m.origin <;> simp [horigin]

namespace AssembledAgent

variable {W : Type} {agent : AssembledAgent W} {formats : Formats} {origin : String} {goal : Goal}
  {fuel : ℕ}

/-- Everything an agent executes is in its toolbox and granted to the origin it runs for. -/
theorem run_authorized {w : W} {a : Action} (ha : a ∈ (agent.run formats origin goal fuel w).1)
    {capability : String} {args : Value} (hexec : a.execution = some (capability, args)) :
    agent.toolbox.registry.Conforms capability args ∧
      ScopedGovernor.verdict agent.grants origin capability = .allow := by
  obtain ⟨p, o, hr⟩ := Loop.exists_reaches (agent.loop formats origin) (Once W) ⟨[]⟩ fuel
    (w, some goal)
  obtain ⟨pre, post, ht⟩ := List.append_of_mem ha
  obtain ⟨hconforms, -⟩ := hr.always_cleared pre a post ht capability args hexec
  obtain ⟨w₀, w₁, hallow⟩ := hr.permitted a ha capability args hexec
  exact ⟨hconforms, congrArg Prod.fst (Option.some.inj hallow)⟩

/-- An agent whose provider asks for a capability that it may have executes it. -/
theorem mem_run_scripted {capability : String} {args : Value} {w : W}
    (hprovider : agent.provider = ScriptedProvider W ⟨[.invoke capability args none]⟩)
    (hconforms : agent.toolbox.registry.Conforms capability args)
    (hallow : ScopedGovernor.verdict agent.grants origin capability = .allow) :
    .executeWithInvoker capability args ∈ (agent.run formats origin goal 1 w).1 := by
  -- from the dispatch outwards to the span
  have hdispatch : ∀ w, .executeWithInvoker capability args ∈
      ((agent.loop formats origin).dispatchInvoke capability args none w).1 := by
    intro w
    apply Pipeline.mem_dispatchWithInvoker hconforms rfl
    change some (ScopedGovernor.verdict agent.grants origin capability, w) = some (.allow, w)
    rw [hallow]
  have henact : ∀ s w, .executeWithInvoker capability args ∈
      ((agent.loop formats origin).enact s [.invoke capability args none] w).1 :=
    fun s w => mem_bind_left (mem_bind_left (hdispatch w))
  have hafter : ∀ s w, .executeWithInvoker capability args ∈
      ((agent.loop formats origin).afterDecide (Once W) ⟨[]⟩ s
        ⟨[.invoke capability args none]⟩ w).1 := by
    intro s w
    unfold Loop.afterDecide
    refine mem_bind_right rfl ?_
    refine mem_bind_right rfl ?_
    exact mem_bind_left (henact _ w.1)
  have hiteration : ∀ s w, .executeWithInvoker capability args ∈
      ((agent.loop formats origin).iteration (Once W) ⟨[]⟩ 1 s w).1 := by
    intro s w
    have hselect : ((agent.loop formats origin).select (Once W) s.current s.workingCtx
        (agent.loop formats origin).pipeline.registry.all 1 0 w).2 =
          some (.decided ⟨[.invoke capability args none]⟩, w) := by
      simp [Loop.select, bind_eq, AssembledAgent.loop, Once, NoVeto, hprovider, ScriptedProvider,
        onFst]
    unfold Loop.iteration
    refine mem_bind_right rfl ?_
    refine mem_bind_right rfl ?_
    exact mem_bind_right hselect (hafter s w)
  unfold AssembledAgent.run Loop.runSpan
  refine mem_bind_right rfl ?_
  refine mem_bind_right rfl ?_
  exact mem_bind_left (hiteration _ _)

end AssembledAgent

/-! ## What a delegation does -/

namespace AgentCaps

variable {W : Type} {A : AgentCaps W}

theorem loadChild_silent (name : String) (w : W) : (A.loadChild name w).1 = [] := by
  unfold loadChild
  rw [bind_eq, call_apply]
  rcases A.readManifest name w with _ | ⟨_ | manifest, w'⟩
  · rfl
  · rfl
  · dsimp only
    cases manifest.validate <;> rfl

theorem loadChild_eq_some {name : String} {w w' : W} {child : AssembledAgent W} :
    (A.loadChild name w).2 = some (.ok child, w') ↔
      ∃ manifest, A.readManifest name w = some (.ok manifest, w') ∧ manifest.validate = .ok () ∧
        assemble manifest A.registry = .ok child := by
  unfold loadChild
  rw [bind_eq, call_apply]
  rcases A.readManifest name w with _ | ⟨_ | manifest, w₁⟩
  · simp
  · simp
  · dsimp only
    cases hvalidate : manifest.validate with
    | error e => simp [hvalidate]
    | ok u =>
      cases hassemble : assemble manifest A.registry <;>
        simp [hassemble, hvalidate, Except.mapError, and_comm]

/-- What a delegation does is what the child does in its span. -/
theorem mem_executeWithInvoker {fuel : ℕ} {origin : String} {args : Value} {w : W} {a : Action}
    (ha : a ∈ (A.executeWithInvoker fuel origin args w).1) :
    ∃ agent objective child, delegateArgs args = .ok (agent, objective) ∧
      delegationDepth origin ≤ maxDelegationDepth ∧
      (∃ w₁, (A.loadChild agent w).2 = some (.ok child, w₁)) ∧
      ∃ goal w₂, a ∈ (child.run A.formats (childOrigin origin agent) goal fuel w₂).1 := by
  unfold executeWithInvoker at ha
  cases hargs : delegateArgs args with
  | error e => simp [hargs] at ha
  | ok p =>
    obtain ⟨agent, objective⟩ := p
    simp only [hargs] at ha
    split_ifs at ha with hdepth
    · simp at ha
    · rw [bind_eq, loadChild_silent] at ha
      rcases hload : (A.loadChild agent w).2 with _ | ⟨_ | child, w₁⟩
      · simp [hload] at ha
      · simp [hload] at ha
      · refine ⟨agent, objective, child, rfl, not_lt.mp hdepth, ⟨w₁, hload⟩,
          delegatedGoal (A.nanos w₁).1 objective, (A.nanos w₁).2, ?_⟩
        simp only [hload, List.nil_append, bind_eq, ask_apply] at ha
        generalize child.run A.formats (childOrigin origin agent)
          (delegatedGoal (A.nanos w₁).1 objective) fuel (A.nanos w₁).2 = r at ha ⊢
        rcases r with ⟨t, _ | ⟨report, w₂⟩⟩ <;> simpa using ha

theorem mem_executeWithInvoker_of_run {fuel : ℕ} {origin agent objective : String} {args : Value}
    {w w₁ : W} {child : AssembledAgent W} {a : Action}
    (hargs : delegateArgs args = .ok (agent, objective))
    (hdepth : delegationDepth origin ≤ maxDelegationDepth)
    (hload : (A.loadChild agent w).2 = some (.ok child, w₁))
    (ha : a ∈ (child.run A.formats (childOrigin origin agent)
      (delegatedGoal (A.nanos w₁).1 objective) fuel (A.nanos w₁).2).1) :
    a ∈ (A.executeWithInvoker fuel origin args w).1 := by
  unfold executeWithInvoker
  simp only [hargs, if_neg (not_lt.mpr hdepth)]
  refine mem_bind_right hload ?_
  exact mem_bind_right rfl (mem_bind_left ha)

end AgentCaps

/-! ## Attenuation -/

section Attenuation

variable {W : Type} (r : ComponentRegistry W) (manifest : AgentManifest) (parent : Governor W)
  (origin agent : String)

/-- Whatever the child's provider decides and whenever the delegation is made, everything the child
executes is something that the parent's governor allows the parent's own origin in every world. -/
def Attenuates : Prop :=
  ∀ (A : AgentCaps W) fuel args w w₁,
    A.registry.capabilityProviders = r.capabilityProviders →
    A.readManifest agent w = some (.ok manifest, w₁) → argStr args "agent" = .ok agent →
    ∀ a ∈ (A.executeWithInvoker fuel origin args w).1, ∀ capability childArgs,
      a.execution = some (capability, childArgs) →
        ∀ w', parent.Allows ⟨origin⟩ capability childArgs w'

/-- The child is run, and the label that it is given is the one that its manifest grants to. -/
def Collides : Prop :=
  manifest.validate = .ok () ∧ delegationDepth origin ≤ maxDelegationDepth ∧
    childOrigin origin agent = manifest.origin

/-- The capabilities and args that the manifest's grants let its components execute. -/
def MayExecute (capability : String) (args : Value) : Prop :=
  ∃ toolbox, assembleToolbox manifest r = .ok toolbox ∧
    toolbox.registry.Conforms capability args ∧
      ∃ pre ∈ manifest.grantedPrefixes, prefixMatches pre capability = true

variable {r manifest parent origin agent}

theorem agent_of_delegateArgs {args : Value} {objective : String}
    (h : delegateArgs args = .ok (agent, objective)) : argStr args "agent" = .ok agent := by
  obtain ⟨name, hname, h⟩ := Fallible.exists_of_bind_eq_ok h
  obtain ⟨text, -, h⟩ := Fallible.exists_of_bind_eq_ok h
  rw [hname, (Prod.mk.inj (Except.ok.inj h)).1]

/-- Only the capability components count for the toolbox. -/
theorem assembleToolbox_congr {r' : ComponentRegistry W}
    (h : r'.capabilityProviders = r.capabilityProviders) :
    assembleToolbox manifest r' = assembleToolbox manifest r := by
  have hbuild : r'.buildCapabilityProvider = r.buildCapabilityProvider := by
    unfold ComponentRegistry.buildCapabilityProvider
    rw [h]
  unfold assembleToolbox addComponent
  rw [hbuild]

/-- The child that is run has an authority exactly if its label collides. -/
theorem collides_of_execution {A : AgentCaps W} {fuel : ℕ} {args childArgs : Value} {w w₁ : W}
    {a : Action} {capability : String}
    (hr : A.registry.capabilityProviders = r.capabilityProviders)
    (hread : A.readManifest agent w = some (.ok manifest, w₁))
    (hagent : argStr args "agent" = .ok agent)
    (ha : a ∈ (A.executeWithInvoker fuel origin args w).1)
    (hexec : a.execution = some (capability, childArgs)) :
    Collides manifest origin agent ∧ MayExecute r manifest capability childArgs := by
  obtain ⟨name, objective, child, hargs, hdepth, ⟨w₂, hload⟩, goal, w₃, hrun⟩ :=
    AgentCaps.mem_executeWithInvoker ha
  obtain rfl : agent = name := Except.ok.inj (hagent.symm.trans (agent_of_delegateArgs hargs))
  obtain ⟨m, hm, hvalidate, hassemble⟩ := AgentCaps.loadChild_eq_some.mp hload
  obtain rfl : manifest = m := by
    rw [hread] at hm
    exact Except.ok.inj (Prod.mk.inj (Option.some.inj hm)).1
  -- the child's governor is the one its manifest asks for, and it has allowed the call
  obtain ⟨htoolbox, -, hgrants⟩ := assemble_eq_ok hassemble
  obtain ⟨hconforms, hallow⟩ := AssembledAgent.run_authorized hrun hexec
  rw [hgrants, AgentManifest.verdict_eq_allow] at hallow
  rw [assembleToolbox_congr hr] at htoolbox
  exact ⟨⟨hvalidate, hdepth, hallow.1⟩, child.toolbox, htoolbox, hconforms, hallow.2⟩

variable (r manifest) in
def scriptedCaps (capability : String) (args : Value) : AgentCaps W where
  registry :=
    { providers := [(manifest.persona.provider,
        fun _ => .ok (ScriptedProvider W ⟨[.invoke capability args none]⟩))]
      capabilityProviders := r.capabilityProviders
      contextAssemblers := match manifest.contextId with
        | some id => [(id, fun _ => .ok ⟨fun _ w => some (⟨[]⟩, w)⟩)]
        | none => [] }
  readManifest _ w := some (.ok manifest, w)
  nanos w := (0, w)
  formats := ⟨fun _ => "", id⟩

theorem assemble_scriptedCaps {toolbox : Toolbox W} (h : assembleToolbox manifest r = .ok toolbox)
    (capability : String) (args : Value) :
    ∃ child, assemble manifest (scriptedCaps r manifest capability args).registry = .ok child ∧
      child.provider = ScriptedProvider W ⟨[.invoke capability args none]⟩ ∧
      child.toolbox = toolbox ∧ child.grants = manifest.grants := by
  have htoolbox : assembleToolbox manifest (scriptedCaps r manifest capability args).registry =
      .ok toolbox := by
    rw [← h]
    exact assembleToolbox_congr rfl
  have hprovider : ((scriptedCaps r manifest capability args).registry.buildProvider
      manifest.providerConfig) = .ok (ScriptedProvider W ⟨[.invoke capability args none]⟩) := by
    have hid : manifest.providerConfig.id = manifest.persona.provider := rfl
    unfold ComponentRegistry.buildProvider ComponentRegistry.build scriptedCaps
    simp [hid, SortedMap.get]
  have hcontext : ∃ context, assembleContext manifest
      (scriptedCaps r manifest capability args).registry = .ok context := by
    unfold assembleContext ComponentRegistry.buildContextAssembler ComponentRegistry.build
      scriptedCaps
    cases manifest.contextId <;> simp [SortedMap.get, Except.mapError, Except.map]
  obtain ⟨context, hcontext⟩ := hcontext
  unfold assemble
  rw [hprovider, htoolbox, hcontext]
  exact ⟨_, rfl, rfl, rfl, rfl⟩

def delegationTo (agent : String) : Value :=
  .object [("agent", .string agent), ("objective", .string "")]

theorem delegateArgs_delegationTo (agent : String) :
    delegateArgs (delegationTo agent) = .ok (agent, "") := by
  simp [delegateArgs, argStr, delegationTo, Value.get, Value.asObject, SortedMap.get, Value.asStr,
    bind, Except.bind, pure, Except.pure]

/-- Some child of the manifest executes what it may execute. -/
theorem mem_scriptedCaps {capability : String} {args : Value} (w : W)
    (hcollides : Collides manifest origin agent) (hmay : MayExecute r manifest capability args) :
    .executeWithInvoker capability args ∈
      ((scriptedCaps r manifest capability args).executeWithInvoker 1 origin
        (delegationTo agent) w).1 := by
  obtain ⟨hvalidate, hdepth, horigin⟩ := hcollides
  obtain ⟨toolbox, htoolbox, hconforms, hgranted⟩ := hmay
  obtain ⟨child, hassemble, hprovider, rfl, hgrants⟩ :=
    assemble_scriptedCaps htoolbox capability args
  have hload : ((scriptedCaps r manifest capability args).loadChild agent w).2 =
      some (.ok child, w) :=
    AgentCaps.loadChild_eq_some.mpr ⟨manifest, rfl, hvalidate, hassemble⟩
  apply AgentCaps.mem_executeWithInvoker_of_run (delegateArgs_delegationTo agent) hdepth hload
  apply AssembledAgent.mem_run_scripted hprovider hconforms
  rw [hgrants, AgentManifest.verdict_eq_allow]
  exact ⟨horigin, hgranted⟩

end Attenuation

/-- Delegation to a child attenuates authority exactly if the child's label does not collide with
the one its manifest grants to, or the parent may do all that the child's manifest lets it do. -/
theorem delegation_attenuates_iff {W : Type} (r : ComponentRegistry W) (manifest : AgentManifest)
    (parent : Governor W) (origin agent : String) :
    Attenuates r manifest parent origin agent ↔
      (Collides manifest origin agent → ∀ capability args, MayExecute r manifest capability args →
        ∀ w, parent.Allows ⟨origin⟩ capability args w) := by
  constructor
  · intro h hcollides capability args hmay w
    have hagent := agent_of_delegateArgs (delegateArgs_delegationTo agent)
    exact h (scriptedCaps r manifest capability args) 1 (delegationTo agent) w w rfl rfl hagent _
      (mem_scriptedCaps w hcollides hmay) capability args rfl w
  · intro h A fuel args w w₁ hr hread hagent a ha capability childArgs hexec w'
    obtain ⟨hcollides, hmay⟩ := collides_of_execution hr hread hagent ha hexec
    exact h hcollides capability childArgs hmay w'

def shellComponent : CapabilityProvider Unit where
  capabilities := [⟨"cap.shell.run", "run a command", .object [("type", .string "object")]⟩]
  execute _ _ w := some (.ok .null, w)
  executeWithInvoker _ _ _ w := .returns (.ok .null) w

def shellRegistry : ComponentRegistry Unit := ⟨[], [("cap.shell", fun _ => .ok shellComponent)], []⟩

/-- A helper whose label is the one that it gets from its parent. -/
def helperManifest : AgentManifest :=
  ⟨⟨"helper", some "assistant.delegated.helper"⟩, ⟨"", "provider.echo", none, []⟩,
    ⟨[("shell", true)], ["cap.shell"], []⟩⟩

def assistantGovernor : Governor Unit := ScopedGovernor Unit [("persona.assistant", ["cap.agent"])]

theorem helper_runs_shell :
    .executeWithInvoker "cap.shell.run" (.object []) ∈
      ((scriptedCaps shellRegistry helperManifest "cap.shell.run" (.object [])).executeWithInvoker 1
        "persona.assistant" (delegationTo "helper") ()).1 ∧
    assistantGovernor.govern ⟨"persona.assistant"⟩ "cap.shell.run" (.object []) () = some
      (.deny "origin `persona.assistant` is not granted capability `cap.shell.run`", ()) ∧
    ¬Attenuates shellRegistry helperManifest assistantGovernor "persona.assistant" "helper" := by
  have hcollides : Collides helperManifest "persona.assistant" "helper" :=
    ⟨by rfl, by decide, by decide⟩
  have hmay : MayExecute shellRegistry helperManifest "cap.shell.run" (.object []) :=
    ⟨_, rfl, ⟨_, rfl, rfl⟩, "cap.shell", by decide, by decide⟩
  have hruns := mem_scriptedCaps () hcollides hmay
  have hdenied : assistantGovernor.govern ⟨"persona.assistant"⟩ "cap.shell.run" (.object []) () =
      some (.deny "origin `persona.assistant` is not granted capability `cap.shell.run`", ()) := by
    decide
  refine ⟨hruns, hdenied, fun h => ?_⟩
  have hagent := agent_of_delegateArgs (delegateArgs_delegationTo "helper")
  obtain ⟨w, hallow⟩ := h _ 1 _ () () rfl rfl hagent _ hruns _ _ rfl ()
  rw [hdenied] at hallow
  cases hallow

end Pan
