import Pan.Agents

namespace Pan

/-- A built-in context assembler, by what it is configured with. -/
inductive BuiltContext where
  | rollingHistory (maxTurns : ℕ)
  | memoryRetrieval (statePath : String)
  | session (path : String) (maxTurns : ℕ)

def buildRollingHistory : Factory BuiltContext := fun cfg =>
  .ok (.rollingHistory (((cfg.settings.get "max_turns").bind Value.asU64).getD 20))

def buildMemoryRetrieval : Factory BuiltContext := fun cfg =>
  match (cfg.settings.get "state_path").bind Value.asStr with
  | some path => .ok (.memoryRetrieval path)
  | none => .error (.construction cfg.id
      "context.memory_retrieval requires `state_path` setting (path to cap.state's JSON file)")

def buildSession : Factory BuiltContext := fun cfg =>
  match (cfg.settings.get "path").bind Value.asStr with
  | some path => .ok (.session path (((cfg.settings.get "max_turns").bind Value.asU64).getD 100))
  | none => .error (.construction cfg.id
      "context.session requires a `path` setting (session file path)")

/-- What `register_assemblers` registers. -/
def contextFactories : List (String × Factory BuiltContext) :=
  [("context.memory_retrieval", buildMemoryRetrieval),
    ("context.rolling_history", buildRollingHistory), ("context.session", buildSession)]

section

variable {W : Type}

/-- The registry with the built-in context assemblers; `realize` is what each of them does. -/
def ComponentRegistry.withContexts (r : ComponentRegistry W)
    (realize : BuiltContext → ContextAssembler W) : ComponentRegistry W :=
  { r with
    contextAssemblers := contextFactories.map fun p => (p.1, fun cfg => (p.2 cfg).map realize) }

variable (m : AgentManifest) (r : ComponentRegistry W) (global : Option Config)

def AgentManifest.personaSettings (m : AgentManifest) : Value :=
  .object (insertSettings [] m.persona.settings)

/-- The persona names a context assembler, whose factory makes `built` of the persona's settings. -/
def Supplies (built : BuiltContext) : Prop :=
  ∃ id factory, m.contextId = some id ∧ SortedMap.get id contextFactories = some factory ∧
    factory ⟨id, m.personaSettings⟩ = .ok built

structure RestBuilds : Prop where
  provider : ∃ p, r.buildProvider m.providerConfig = .ok p
  toolbox : ∃ t, assembleToolbox m r = .ok t
  mergedProvider : ∃ p, r.buildProvider
    ⟨m.persona.provider, mergeProviderSettings global m⟩ = .ok p
  mergedToolbox : ∃ t, m.caps.enable.foldlM (addMergedComponent m r global) .empty = .ok t

/-- Both assemblies succeed, with the context assembler that is so configured. -/
def Receives (built : BuiltContext) : Prop :=
  ∀ realize : BuiltContext → ContextAssembler W,
    (∃ agent, assemble m (r.withContexts realize) = .ok agent ∧
      agent.contextAssembler = some (realize built)) ∧
    ∃ agent, assembleWithConfig m (r.withContexts realize) global = .ok agent ∧
      agent.contextAssembler = some (realize built)

/-- The persona keeps a rolling history of the default length. -/
def KeepsDefaultHistory : Prop :=
  m.contextId = some "context.rolling_history" ∧
    ∀ n, (m.personaSettings.get "max_turns").bind Value.asU64 = some n → n = 20

variable {m r global}

/-- An assembly that comes to the context assembler has the one that is built. -/
theorem exists_agent_iff {context : Except AssembleError (Option (ContextAssembler W))}
    {c : ContextAssembler W} (agent : Option (ContextAssembler W) → AssembledAgent W)
    (hagent : ∀ built, (agent built).contextAssembler = built) :
    (∃ a, (context >>= fun built => pure (agent built)) = Except.ok a ∧
      a.contextAssembler = some c) ↔ context = .ok (some c) := by
  cases context with
  | error e => exact iff_of_false (fun ⟨a, ha, _⟩ => nomatch ha) (fun h => nomatch h)
  | ok built =>
    constructor
    · rintro ⟨a, ha, hc⟩
      obtain rfl : agent built = a := Except.ok.inj ha
      rw [hagent] at hc
      rw [hc]
    · intro h
      obtain rfl := Except.ok.inj h
      exact ⟨agent (some c), rfl, hagent _⟩

theorem assemble_receives_iff (h : RestBuilds m r global)
    (realize : BuiltContext → ContextAssembler W) (c : ContextAssembler W) :
    (∃ agent, assemble m (r.withContexts realize) = .ok agent ∧
      agent.contextAssembler = some c) ↔
    assembleContext m (r.withContexts realize) = .ok (some c) := by
  obtain ⟨p, hp⟩ := h.provider
  obtain ⟨t, ht⟩ := h.toolbox
  have hp' : (r.withContexts realize).buildProvider m.providerConfig = .ok p := hp
  have ht' : assembleToolbox m (r.withContexts realize) = .ok t := ht
  unfold assemble
  rw [hp', ht']
  exact exists_agent_iff _ fun _ => rfl

theorem assembleWithConfig_receives_iff (h : RestBuilds m r global)
    (realize : BuiltContext → ContextAssembler W) (c : ContextAssembler W) :
    (∃ agent, assembleWithConfig m (r.withContexts realize) global = .ok agent ∧
      agent.contextAssembler = some c) ↔
    assembleContext m (r.withContexts realize) = .ok (some c) := by
  obtain ⟨p, hp⟩ := h.mergedProvider
  obtain ⟨t, ht⟩ := h.mergedToolbox
  have hp' : (r.withContexts realize).buildProvider
      ⟨m.persona.provider, mergeProviderSettings global m⟩ = .ok p := hp
  have ht' : m.caps.enable.foldlM (addMergedComponent m (r.withContexts realize) global) .empty =
      .ok t := ht
  unfold assembleWithConfig
  rw [hp', ht']
  exact exists_agent_iff _ fun _ => rfl

/-- The factory that the persona names is handed no settings. -/
theorem assembleContext_eq_ok_iff {id : String} {factory : Factory BuiltContext}
    (hid : m.contextId = some id) (hfactory : SortedMap.get id contextFactories = some factory)
    (realize : BuiltContext → ContextAssembler W) (c : ContextAssembler W) :
    assembleContext m (r.withContexts realize) = .ok (some c) ↔
      ∃ b, factory ⟨id, .null⟩ = .ok b ∧ realize b = c := by
  have hget : SortedMap.get id (r.withContexts realize).contextAssemblers =
      some fun cfg => (factory cfg).map realize := by
    change SortedMap.get id
      (contextFactories.map fun p => (p.1, fun cfg => (p.2 cfg).map realize)) = _
    rw [SortedMap.get_map fun (f : Factory BuiltContext) cfg => (f cfg).map realize, hfactory]
    rfl
  unfold assembleContext ComponentRegistry.buildContextAssembler ComponentRegistry.build
  rw [hid]
  dsimp only
  rw [hget]
  dsimp only
  cases factory ⟨id, .null⟩ with
  | error e => simp [Except.map, Except.mapError]
  | ok b => simp [Except.map, Except.mapError]

def stuckContext : ContextAssembler W := ⟨fun _ _ => none⟩

def emptyContext : ContextAssembler W := ⟨fun _ w => some (⟨[]⟩, w)⟩

theorem stuckContext_ne_emptyContext [Inhabited W] :
    (stuckContext : ContextAssembler W) ≠ emptyContext := by
  intro h
  have hassemble := congrArg
    (fun c : ContextAssembler W => c.assemble ⟨"", 0, "", .tick 0⟩ default) h
  cases hassemble

theorem receives_iff [Inhabited W] (h : RestBuilds m r global) {id : String}
    {factory : Factory BuiltContext} (hid : m.contextId = some id)
    (hfactory : SortedMap.get id contextFactories = some factory) (built : BuiltContext) :
    Receives m r global built ↔ factory ⟨id, .null⟩ = .ok built := by
  classical
  unfold Receives
  simp only [assemble_receives_iff h, assembleWithConfig_receives_iff h,
    assembleContext_eq_ok_iff hid hfactory, and_self]
  constructor
  · intro hreceives
    obtain ⟨b, hb, heq⟩ := hreceives fun b => if b = built then stuckContext else emptyContext
    rw [if_pos rfl] at heq
    by_cases hbuilt : b = built
    · rw [hb, hbuilt]
    · rw [if_neg hbuilt] at heq
      exact absurd heq.symm stuckContext_ne_emptyContext
  · intro hbuilt realize
    exact ⟨built, hbuilt, rfl⟩

/-- Both assemblies configure the context assembler by the persona's settings exactly if it is a
rolling history and these leave it at its default. -/
theorem receives_settings_iff [Inhabited W] {built : BuiltContext} (h : RestBuilds m r global)
    (hsupplies : Supplies m built) :
    Receives m r global built ↔ KeepsDefaultHistory m := by
  obtain ⟨id, factory, hid, hfactory, hbuilt⟩ := hsupplies
  rw [receives_iff h hid hfactory, KeepsDefaultHistory, hid]
  simp only [contextFactories, SortedMap.get_cons, SortedMap.get_nil] at hfactory
  split_ifs at hfactory with hmemory hrolling hsession
  · subst hmemory
    obtain rfl := Option.some.inj hfactory
    have hbare : buildMemoryRetrieval ⟨"context.memory_retrieval", .null⟩ ≠ .ok built := by
      intro hok
      cases hok
    exact iff_of_false hbare (by simp)
  · subst hrolling
    obtain rfl := Option.some.inj hfactory
    obtain rfl := Except.ok.inj hbuilt
    have hbare : buildRollingHistory ⟨"context.rolling_history", .null⟩ =
        .ok (.rollingHistory 20) := rfl
    rw [hbare, Except.ok.injEq, BuiltContext.rollingHistory.injEq, eq_self, true_and]
    cases (m.personaSettings.get "max_turns").bind Value.asU64 with
    | none => simp
    | some n => simp [eq_comm]
  · subst hsession
    obtain rfl := Option.some.inj hfactory
    have hbare : buildSession ⟨"context.session", .null⟩ ≠ .ok built := by
      intro hok
      cases hok
    exact iff_of_false hbare (by simp)

end

/-! ## Two personas -/

def silentRegistry : ComponentRegistry Unit where
  providers := [("provider.none", fun _ => .ok ⟨"provider.none", fun _ _ _ _ w => (none, w)⟩)]
  capabilityProviders := []
  contextAssemblers := []

def personaWith (settings : TomlTable) : AgentManifest where
  metaInfo := ⟨"a", none⟩
  persona := ⟨"", "provider.none", none, settings⟩
  caps := ⟨[], [], []⟩

theorem restBuilds_personaWith (settings : TomlTable) :
    RestBuilds (personaWith settings) silentRegistry none where
  provider := ⟨_, rfl⟩
  toolbox := ⟨_, rfl⟩
  mergedProvider := ⟨_, rfl⟩
  mergedToolbox := ⟨_, rfl⟩

theorem receives_settings_iff_twenty :
    Receives (personaWith [("context", .string "context.rolling_history"),
        ("max_turns", .integer 20)]) silentRegistry none (.rollingHistory 20) ↔
      KeepsDefaultHistory (personaWith [("context", .string "context.rolling_history"),
        ("max_turns", .integer 20)]) :=
  receives_settings_iff (restBuilds_personaWith _) ⟨_, buildRollingHistory, rfl, rfl, rfl⟩

/-- A session with a path is not built. -/
theorem session_not_received :
    Supplies (personaWith [("context", .string "context.session"), ("path", .string "s.jsonl")])
      (.session "s.jsonl" 100) ∧
    ¬Receives (personaWith [("context", .string "context.session"), ("path", .string "s.jsonl")])
      silentRegistry none (.session "s.jsonl" 100) := by
  refine ⟨⟨_, buildSession, rfl, rfl, rfl⟩, fun h => ?_⟩
  have hsession : SortedMap.get "context.session" contextFactories = some buildSession := rfl
  have hbare := (receives_iff (restBuilds_personaWith _) rfl hsession _).mp h
  cases hbare

end Pan
