import Pan.DelegationDepth

namespace Pan

open Eff

/-! ## The delegate handler of the gateway -/

inductive StatusCode where
  | notFound
  | internalServerError
deriving DecidableEq

structure DelegateRequest where
  agent : String
  objective : String
  stream : Bool

structure GatewayResponse where
  expressed : List String
  results : List Value
  ending : String

def toGatewayResponse (report : RunReport) : GatewayResponse where
  expressed := report.expressed
  results := report.results.map Prod.snd
  ending := match report.runEnd with
    | some (.concluded .achieved) => "achieved"
    | some (.concluded _) => "abandoned"
    | some .stepLimit => "step_limit"
    | some .abandoned => "abandoned"
    | some (.vetoed _) => "vetoed"
    | some (.unsatisfied _) => "unsatisfied"
    | some .streamExhausted => "exhausted"
    | none => "unknown"

structure AgentPool (W : Type) where
  agents : List (String × AssembledAgent W)
  sourceDir : Option String

/-- `readManifest` reads and parses the file of an agent in a directory, `nanos` is the time since
the epoch. -/
structure GatewayState (W : Type) where
  pool : AgentPool W
  registry : ComponentRegistry W
  readManifest : String → String → Call W (Except ManifestError AgentManifest)
  nanos : W → ℕ × W
  formats : Formats

/-- The loop in which the gateway runs an agent, under the scope of the agent. -/
def AssembledAgent.served {W : Type} (agent : AssembledAgent W) (formats : Formats)
    (stream : Bool) : Loop W :=
  { agent.loop formats agent.scope.origin with tokenTx := stream }

namespace GatewayState

variable {W : Type} (G : GatewayState W)

/-- The child of a request, under the scope that the handler gives it, and its goal. -/
def delegateChild (parentName : String) (req : DelegateRequest) :
    Eff Action W (Except StatusCode (AssembledAgent W × Goal)) :=
  match SortedMap.get parentName G.pool.agents with
  | none => return .error .notFound
  | some parent =>
    match G.pool.sourceDir with
    | none => return .error .internalServerError
    | some agentDir => do
      match ← call (G.readManifest agentDir req.agent) with
      | .error _ => return .error .notFound
      | .ok manifest =>
        match manifest.validate with
        | .error _ => return .error .notFound
        | .ok () =>
          -- assembled anew, with the grants that its own manifest names
          match assemble manifest G.registry with
          | .error _ => return .error .internalServerError
          | .ok child =>
            let nanos ← ask G.nanos
            return .ok ({ child with scope := ⟨childOrigin parent.scope.origin req.agent⟩ },
              ⟨s!"delegate-{nanos}", 0, req.objective, .utterance parentName req.objective⟩)

/-- The handler, with `fuel` for the child. -/
def agentDelegate (fuel : ℕ) (parentName : String) (req : DelegateRequest) :
    Eff Action W (Except StatusCode GatewayResponse) :=
  (G.delegateChild parentName req).andThen fun p => fun w =>
    let r := (p.1.served G.formats req.stream).runSpan (Once W) ⟨[]⟩ fuel (w, some p.2)
    (r.1, r.2.map fun q => (.ok (toGatewayResponse q.1), q.2.1))

end GatewayState

/-! ## The govern stage of a child -/

namespace Pipeline

variable {W : Type} {P : Pipeline W}

/-- A request that conforms passes the stages before execution exactly if it is allowed. -/
theorem clear_eq_ok_iff {request : EffectRequest} {w : W}
    (hconforms : P.registry.Conforms request.capability request.args) :
    (∃ governed w', (P.clear request w).2 = some (.ok governed, w')) ↔
      P.governor.Allows request.scope request.capability request.args w := by
  obtain ⟨cap, hcap, hcheck⟩ := id hconforms
  have hresolve := resolve_of_some hcap
  have hvalidate := validate_of_ok (P := P) ⟨request, cap.argsSchema, cap, hcap, rfl⟩ hconforms
    hcheck
  constructor
  · rintro ⟨governed, w', hclear⟩
    unfold clear at hclear
    rw [hresolve] at hclear
    rcases hgovern : P.governor.govern request.scope request.capability request.args w with
      _ | ⟨_ | reason | reason, w''⟩
    · simp [Eff.andThen, bind_eq, hvalidate, record, govern, hgovern] at hclear
    · exact ⟨w'', hgovern⟩
    · simp [Eff.andThen, bind_eq, hvalidate, record, govern, hgovern] at hclear
    · simp [Eff.andThen, bind_eq, hvalidate, record, govern, hgovern] at hclear
  · rintro ⟨w', hallow⟩
    exact ⟨_, w', clear_of_allow hconforms hallow⟩

end Pipeline

/-- Every request for a capability of a granted family that conforms passes the govern stage. -/
def Loop.UsesGrants {W : Type} (manifest : AgentManifest) (L : Loop W) : Prop :=
  ∀ (family tool : String) args correlation w, (family, true) ∈ manifest.caps.grant →
    L.pipeline.registry.Conforms s!"cap.{family}.{tool}" args →
      ∃ governed w', (L.pipeline.clear
        ⟨s!"cap.{family}.{tool}", args, correlation, L.scope⟩ w).2 = some (.ok governed, w')

/-- The toolbox has a capability of a granted family, and there are args for it. -/
def Toolbox.HasGranted {W : Type} (manifest : AgentManifest) (toolbox : Toolbox W) : Prop :=
  ∃ (family tool : String) (args : Value), (family, true) ∈ manifest.caps.grant ∧
    toolbox.registry.Conforms s!"cap.{family}.{tool}" args

theorem AgentManifest.granted_of_family {manifest : AgentManifest} {family : String}
    (h : (family, true) ∈ manifest.caps.grant) (tool : String) :
    ∃ pre ∈ manifest.grantedPrefixes, prefixMatches pre s!"cap.{family}.{tool}" = true := by
  refine ⟨s!"cap.{family}", ?_, ?_⟩
  · exact List.mem_map.mpr ⟨(family, true), List.mem_filter.mpr ⟨h, rfl⟩, rfl⟩
  · have htext : s!"cap.{family}.{tool}" = s!"cap.{family}" ++ ("." ++ tool) := by
      rw [← String.toList_inj]
      simp [ToString.toString]
    unfold prefixMatches
    rw [htext, Text.stripPrefix_append]
    simp

/-- An agent that is run for an origin can use its grants exactly if they are for this origin, or
there is nothing to use them on. -/
theorem usesGrants_iff {W : Type} [Inhabited W] {manifest : AgentManifest} {L : Loop W}
    {agent : AssembledAgent W} {origin : String} (hgrants : agent.grants = manifest.grants)
    (hregistry : L.pipeline.registry = agent.toolbox.registry)
    (hgovernor : L.pipeline.governor = ScopedGovernor W agent.grants)
    (hscope : L.scope = ⟨origin⟩) :
    L.UsesGrants manifest ↔
      (agent.toolbox.HasGranted manifest → origin = manifest.origin) := by
  have hallows : ∀ capability args w, L.pipeline.governor.Allows L.scope capability args w ↔
      origin = manifest.origin ∧
        ∃ pre ∈ manifest.grantedPrefixes, prefixMatches pre capability = true := by
    intro capability args w
    rw [← AgentManifest.verdict_eq_allow, ← hgrants, hgovernor, hscope]
    simp [Governor.Allows, ScopedGovernor]
  constructor
  · rintro huses ⟨family, tool, args, hfamily, hconforms⟩
    rw [← hregistry] at hconforms
    have hpasses := huses family tool args none default hfamily hconforms
    exact ((hallows _ _ _).mp ((Pipeline.clear_eq_ok_iff hconforms).mp hpasses)).1
  · intro horigin family tool args correlation w hfamily hconforms
    have hhas : agent.toolbox.HasGranted manifest := by
      rw [hregistry] at hconforms
      exact ⟨family, tool, args, hfamily, hconforms⟩
    apply (Pipeline.clear_eq_ok_iff hconforms).mpr
    exact (hallows _ _ _).mpr ⟨horigin hhas, AgentManifest.granted_of_family hfamily tool⟩

/-! ## The two ways to run a child -/

section Delegated

variable {W : Type} (r : ComponentRegistry W) (manifest : AgentManifest) (origin agent : String)

/-- In every span that `cap.agent.delegate` runs for the child, its grants can be used. -/
def DelegateUsesGrants : Prop :=
  ∀ (A : AgentCaps W) args w w₁ w₂ child origin' goal,
    A.registry.capabilityProviders = r.capabilityProviders →
    A.readManifest agent w = some (.ok manifest, w₁) → argStr args "agent" = .ok agent →
    (A.spawn origin args w).2 = some (.ok (child, origin', goal), w₂) →
      (child.loop A.formats origin').UsesGrants manifest

/-- In every span that the gateway's handler runs for the child, its grants can be used. -/
def GatewayUsesGrants : Prop :=
  ∀ (G : GatewayState W) parentName parent agentDir (req : DelegateRequest) w w₁ w₂ child goal,
    G.registry.capabilityProviders = r.capabilityProviders →
    SortedMap.get parentName G.pool.agents = some parent → parent.scope = ⟨origin⟩ →
    G.pool.sourceDir = some agentDir → req.agent = agent →
    G.readManifest agentDir agent w = some (.ok manifest, w₁) →
    (G.delegateChild parentName req w).2 = some (.ok (child, goal), w₂) →
      (child.served G.formats req.stream).UsesGrants manifest

/-- The manifest has something to grant: the toolbox of its components has a capability of a
granted family, and there are args for it. -/
def AgentManifest.GrantsSomething : Prop :=
  ∃ toolbox, assembleToolbox manifest r = .ok toolbox ∧ toolbox.HasGranted manifest

variable {r manifest origin agent}

theorem AgentCaps.spawn_of_manifest {A : AgentCaps W} {args : Value} {w w₁ w₂ : W}
    {child : AssembledAgent W} {origin' : String} {goal : Goal}
    (hread : A.readManifest agent w = some (.ok manifest, w₁))
    (hagent : argStr args "agent" = .ok agent)
    (hspawn : (A.spawn origin args w).2 = some (.ok (child, origin', goal), w₂)) :
    delegationDepth origin ≤ maxDelegationDepth ∧ manifest.validate = .ok () ∧
      assemble manifest A.registry = .ok child ∧ childOrigin origin agent = origin' := by
  obtain ⟨name, objective, w₃, hargs, hdepth, hload, horigin, -⟩ := spawn_eq_ok.mp hspawn
  obtain rfl : agent = name := Except.ok.inj (hagent.symm.trans (agent_of_delegateArgs hargs))
  obtain ⟨m, hm, hvalidate, hassemble⟩ := loadChild_eq_some.mp hload
  obtain rfl : manifest = m := by
    rw [hread] at hm
    exact Except.ok.inj (Prod.mk.inj (Option.some.inj hm)).1
  exact ⟨hdepth, hvalidate, hassemble, horigin⟩

theorem GatewayState.delegateChild_eq_ok {G : GatewayState W} {parentName agentDir : String}
    {parent : AssembledAgent W} {req : DelegateRequest} {w w₁ w₂ : W} {child : AssembledAgent W}
    {goal : Goal} (hparent : SortedMap.get parentName G.pool.agents = some parent)
    (hdir : G.pool.sourceDir = some agentDir)
    (hread : G.readManifest agentDir req.agent w = some (.ok manifest, w₁)) :
    (G.delegateChild parentName req w).2 = some (.ok (child, goal), w₂) ↔
      manifest.validate = .ok () ∧ ∃ assembled, assemble manifest G.registry = .ok assembled ∧
        { assembled with scope := ⟨childOrigin parent.scope.origin req.agent⟩ } = child ∧
        ⟨s!"delegate-{(G.nanos w₁).1}", 0, req.objective,
          .utterance parentName req.objective⟩ = goal ∧ (G.nanos w₁).2 = w₂ := by
  unfold delegateChild
  simp only [hparent, hdir, bind_eq, call_apply, hread]
  cases hvalidate : manifest.validate with
  | error e => simp
  | ok u =>
    cases hassemble : assemble manifest G.registry with
    | error e => simp
    | ok assembled =>
      simp [bind_eq, and_assoc]

/-- A child of the manifest can use its grants exactly if it is run for the manifest's own origin,
or its components have nothing that it is granted. -/
theorem child_usesGrants_iff [Inhabited W] {r' : ComponentRegistry W} {child : AssembledAgent W}
    {L : Loop W} (hr : r'.capabilityProviders = r.capabilityProviders)
    (hassemble : assemble manifest r' = .ok child)
    (hregistry : L.pipeline.registry = child.toolbox.registry)
    (hgovernor : L.pipeline.governor = ScopedGovernor W child.grants)
    (hscope : L.scope = ⟨origin⟩) :
    L.UsesGrants manifest ↔ (manifest.GrantsSomething r → origin = manifest.origin) := by
  obtain ⟨htoolbox, -, hgrants⟩ := assemble_eq_ok hassemble
  rw [assembleToolbox_congr hr] at htoolbox
  rw [usesGrants_iff hgrants hregistry hgovernor hscope]
  have hiff : manifest.GrantsSomething r ↔ child.toolbox.HasGranted manifest := by
    unfold AgentManifest.GrantsSomething
    rw [htoolbox]
    simp
  rw [hiff]

theorem delegateUsesGrants_iff [Inhabited W] : DelegateUsesGrants r manifest origin agent ↔
    (delegationDepth origin ≤ maxDelegationDepth → manifest.validate = .ok () →
      manifest.GrantsSomething r → childOrigin origin agent = manifest.origin) := by
  constructor
  · intro h hdepth hvalidate hhas
    obtain ⟨toolbox, htoolbox, -⟩ := id hhas
    -- some child can be assembled, and it is run
    obtain ⟨child, hassemble, -⟩ := assemble_scriptedCaps htoolbox "" .null
    let A : AgentCaps W := scriptedCaps r manifest "" .null
    have hload : (A.loadChild agent default).2 = some (.ok child, default) :=
      AgentCaps.loadChild_eq_some.mpr ⟨manifest, rfl, hvalidate, hassemble⟩
    have hargs := delegateArgs_delegationTo agent
    have hspawn : (A.spawn origin (delegationTo agent) default).2 =
        some (.ok (child, childOrigin origin agent, delegatedGoal 0 ""), default) :=
      AgentCaps.spawn_eq_ok.mpr ⟨agent, "", default, hargs, hdepth, hload, rfl, rfl, rfl⟩
    have huses := h A _ _ _ _ _ _ _ rfl rfl (agent_of_delegateArgs hargs) hspawn
    exact (child_usesGrants_iff rfl hassemble rfl rfl rfl).mp huses hhas
  · intro h A args w w₁ w₂ child origin' goal hr hread hagent hspawn
    obtain ⟨hdepth, hvalidate, hassemble, rfl⟩ := AgentCaps.spawn_of_manifest hread hagent hspawn
    exact (child_usesGrants_iff hr hassemble rfl rfl rfl).mpr (h hdepth hvalidate)

theorem gatewayUsesGrants_iff [Inhabited W] : GatewayUsesGrants r manifest origin agent ↔
    (manifest.validate = .ok () → manifest.GrantsSomething r →
      childOrigin origin agent = manifest.origin) := by
  constructor
  · intro h hvalidate hhas
    obtain ⟨toolbox, htoolbox, -⟩ := id hhas
    obtain ⟨child, hassemble, -⟩ := assemble_scriptedCaps htoolbox "" .null
    -- the child serves as its own parent, under the origin in question
    let parent : AssembledAgent W := { child with scope := ⟨origin⟩ }
    let G : GatewayState W := ⟨⟨[("", parent)], some ""⟩,
      (scriptedCaps r manifest "" .null).registry, fun _ _ w => some (.ok manifest, w),
      fun w => (0, w), ⟨fun _ => "", id⟩⟩
    have hparent : SortedMap.get "" G.pool.agents = some parent := by simp [G, SortedMap.get]
    let req : DelegateRequest := ⟨agent, "", false⟩
    have hread : G.readManifest "" req.agent default = some (.ok manifest, default) := rfl
    have hchild := (GatewayState.delegateChild_eq_ok hparent rfl hread).mpr
      ⟨hvalidate, child, hassemble, rfl, rfl, rfl⟩
    have huses := h G _ _ _ req default _ _ _ _ rfl hparent rfl rfl rfl hread hchild
    exact (child_usesGrants_iff rfl hassemble rfl rfl rfl).mp huses hhas
  · intro h G parentName parent agentDir req w w₁ w₂ child goal hr hparent hscope hdir hreq hread
      hchild
    subst hreq
    obtain ⟨hvalidate, assembled, hassemble, rfl, -⟩ :=
      (GatewayState.delegateChild_eq_ok hparent hdir hread).mp hchild
    rw [hscope]
    exact (child_usesGrants_iff hr hassemble rfl rfl rfl).mpr (h hvalidate)

end Delegated

/-- Along both ways, a child can use its grants exactly if it is not run, or there is nothing that
it could use them on, or the label that it is given is the one that its manifest grants to. -/
theorem delegated_grants_usable_iff {W : Type} [Inhabited W] (r : ComponentRegistry W)
    (manifest : AgentManifest) (origin agent : String) :
    (DelegateUsesGrants r manifest origin agent ↔
      (delegationDepth origin ≤ maxDelegationDepth → manifest.validate = .ok () →
        manifest.GrantsSomething r → childOrigin origin agent = manifest.origin)) ∧
    (GatewayUsesGrants r manifest origin agent ↔
      (manifest.validate = .ok () → manifest.GrantsSomething r →
        childOrigin origin agent = manifest.origin)) :=
  ⟨delegateUsesGrants_iff, gatewayUsesGrants_iff⟩

/-- A helper of the usual kind: it has a label of its own, and is granted what it has. -/
def sharedHelperManifest : AgentManifest :=
  ⟨⟨"helper", some "assistant"⟩, ⟨"", "provider.llm", none, []⟩,
    ⟨[("shell", true)], ["cap.shell"], []⟩⟩

/-- It is denied its own capability, whichever way it is run. -/
theorem helper_denied_shell :
    ScopedGovernor.verdict sharedHelperManifest.grants (childOrigin "persona.assistant" "helper")
        "cap.shell.run" =
      .deny "origin `persona.assistant.delegated.helper` has no capability grants" ∧
    ¬DelegateUsesGrants shellRegistry sharedHelperManifest "persona.assistant" "helper" ∧
    ¬GatewayUsesGrants shellRegistry sharedHelperManifest "persona.assistant" "helper" := by
  have hgrants : sharedHelperManifest.GrantsSomething shellRegistry :=
    ⟨_, rfl, "shell", "run", .object [], by decide, _, rfl, rfl⟩
  have horigin : childOrigin "persona.assistant" "helper" ≠ sharedHelperManifest.origin := by
    decide
  refine ⟨by decide, fun h => horigin ?_, fun h => horigin ?_⟩
  · exact delegateUsesGrants_iff.mp h (by decide) rfl hgrants
  · exact gatewayUsesGrants_iff.mp h rfl hgrants

end Pan
