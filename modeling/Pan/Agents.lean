import Pan.Governors
import Pan.Library.Fallible
import Pan.Toml
import Pan.Toolbox

namespace Pan

/-! ## Factories -/

structure ComponentConfig where
  id : String
  settings : Value

inductive ComponentError where
  | unknown (family id : String)
  | construction (id reason : String)
deriving DecidableEq

def ComponentError.text : ComponentError → String
  | unknown family id => s!"no {family} component registered under id `{id}`"
  | construction id reason => s!"component `{id}` failed to build: {reason}"

abbrev Factory (α : Type) := ComponentConfig → Except ComponentError α

structure ContextAssembler (W : Type) where
  assemble : Goal → Call W Context

structure ComponentRegistry (W : Type) where
  providers : List (String × Factory (Provider W))
  capabilityProviders : List (String × Factory (CapabilityProvider W))
  contextAssemblers : List (String × Factory (ContextAssembler W))

namespace ComponentRegistry

def build {α : Type} (family : String) (table : List (String × Factory α))
    (cfg : ComponentConfig) : Except ComponentError α :=
  match SortedMap.get cfg.id table with
  | some factory => factory cfg
  | none => .error (.unknown family cfg.id)

variable {W : Type} (r : ComponentRegistry W)

def buildProvider : Factory (Provider W) := build "provider" r.providers

def buildCapabilityProvider : Factory (CapabilityProvider W) :=
  build "capability" r.capabilityProviders

def buildContextAssembler : Factory (ContextAssembler W) :=
  build "context_assembler" r.contextAssemblers

end ComponentRegistry

/-! ## Manifests -/

structure Meta where
  name : String
  persona : Option String

/-- `settings` are the other keys of the table. -/
structure Persona where
  instruction : String
  provider : String
  model : Option String
  settings : TomlTable

structure Caps where
  grant : List (String × Bool)
  enable : List String
  settings : TomlTable

structure AgentManifest where
  metaInfo : Meta
  persona : Persona
  caps : Caps

inductive ManifestError where
  | io (message : String)
  | parse (message : String)
  | invalid (message : String)
deriving DecidableEq

def ManifestError.text : ManifestError → String
  | io e => s!"reading Agent.toml: {e}"
  | parse e => s!"parsing Agent.toml: {e}"
  | invalid e => s!"invalid Agent.toml: {e}"

/-- The white space of Unicode. -/
def isWhitespace (c : Char) : Bool :=
  let n := c.toNat
  (9 ≤ n && n ≤ 13) || n == 0x20 || n == 0x85 || n == 0xA0 || n == 0x1680 ||
    (0x2000 ≤ n && n ≤ 0x200A) || n == 0x2028 || n == 0x2029 || n == 0x202F || n == 0x205F ||
    n == 0x3000

/-- `trim().is_empty()`. -/
def isBlank (s : String) : Bool := s.toList.all isWhitespace

def insertSettings (settings : List (String × Value)) (table : TomlTable) :
    List (String × Value) :=
  table.foldl (fun s p => SortedMap.insert p.1 p.2.toJson s) settings

theorem insertSettings_eq (settings : List (String × Value)) (table : TomlTable) :
    insertSettings settings table = (table.map fun p => (p.1, p.2.toJson)).foldl
      (fun m p => SortedMap.insert p.1 p.2 m) settings := by
  rw [insertSettings, List.foldl_map]

theorem insertSettings_nil (table : TomlTable) :
    insertSettings [] table = SortedMap.ofList (table.map fun p => (p.1, p.2.toJson)) :=
  insertSettings_eq [] table

theorem ascending_insertSettings {settings : List (String × Value)}
    (h : SortedMap.Ascending settings) (table : TomlTable) :
    SortedMap.Ascending (insertSettings settings table) := by
  rw [insertSettings_eq]
  exact SortedMap.ascending_foldl_insert _ h

theorem get_insertSettings (key : String) (settings : List (String × Value)) (table : TomlTable) :
    SortedMap.get key (insertSettings settings table) =
      ((SortedMap.last key table).map Toml.toJson).or (SortedMap.get key settings) := by
  rw [insertSettings_eq, SortedMap.get_foldl_insert, SortedMap.last_map]

namespace AgentManifest

/-- The label of the persona: the name if there is none. -/
def personaLabel (m : AgentManifest) : String := m.metaInfo.persona.getD m.metaInfo.name

def origin (m : AgentManifest) : String := s!"persona.{m.personaLabel}"

def grantedPrefixes (m : AgentManifest) : List String :=
  (m.caps.grant.filter fun p => p.2).map fun p => s!"cap.{p.1}"

def validate (m : AgentManifest) : Except ManifestError Unit :=
  if isBlank m.metaInfo.name then .error (.invalid "meta.name must not be empty")
  else if isBlank m.persona.provider then
    .error (.invalid "persona.provider must name a component")
  else .ok ()

def providerConfig (m : AgentManifest) : ComponentConfig :=
  let settings := SortedMap.insert "instruction" (.string m.persona.instruction) []
  let settings := match m.persona.model with
    | some model => SortedMap.insert "model" (.string model) settings
    | none => settings
  ⟨m.persona.provider, .object (insertSettings settings m.persona.settings)⟩

def capConfig (m : AgentManifest) (id : String) : ComponentConfig :=
  ⟨id, ((SortedMap.get id m.caps.settings).map Toml.toJson).getD .null⟩

/-- The grants of the persona, and nobody else's. -/
def grants (m : AgentManifest) : Grants := Grants.grant [] m.origin m.grantedPrefixes

def contextId (m : AgentManifest) : Option String :=
  (SortedMap.get "context" m.persona.settings).bind Toml.asStr

end AgentManifest

/-! ## The assembler -/

structure AssembledAgent (W : Type) where
  name : String
  instruction : String
  scope : Scope
  grants : Grants
  provider : Provider W
  toolbox : Toolbox W
  contextAssembler : Option (ContextAssembler W)

inductive AssembleError where
  | provider (e : ComponentError)
  | capability (e : ComponentError)
  | capabilityConflict (e : ConflictError)
  | contextAssembler (e : ComponentError)
deriving DecidableEq

def AssembleError.text : AssembleError → String
  | provider e => s!"assembling provider: {e.text}"
  | capability e => s!"assembling capability: {e.text}"
  | capabilityConflict e => s!"capability conflict: {e.text}"
  | contextAssembler e => s!"context assembler: {e.text}"

section Assemble

variable {W : Type} (m : AgentManifest) (r : ComponentRegistry W)

def addComponent (t : Toolbox W) (id : String) : Except AssembleError (Toolbox W) := do
  let component ← (r.buildCapabilityProvider (m.capConfig id)).mapError .capability
  (t.add component).mapError .capabilityConflict

def assembleToolbox : Except AssembleError (Toolbox W) :=
  m.caps.enable.foldlM (addComponent m r) .empty

def assembleContext : Except AssembleError (Option (ContextAssembler W)) :=
  match m.contextId with
  | some id => ((r.buildContextAssembler ⟨id, .null⟩).mapError .contextAssembler).map some
  | none => .ok none

def assemble : Except AssembleError (AssembledAgent W) := do
  let provider ← (r.buildProvider m.providerConfig).mapError .provider
  let toolbox ← assembleToolbox m r
  let contextAssembler ← assembleContext m r
  return {
    name := m.metaInfo.name
    instruction := m.persona.instruction
    scope := ⟨m.origin⟩
    grants := m.grants
    provider
    toolbox
    contextAssembler }

end Assemble

/-! ## With a global config -/

structure Config where
  plugin : List (String × TomlTable)

/-- The global settings of a component, with those of the agent over them. -/
def mergeGlobal (global : Config) (id : String) (agentSettings : TomlTable) : Value :=
  .object (insertSettings
    (insertSettings [] ((SortedMap.get id global.plugin).getD [])) agentSettings)

def mergeSettings (global : Option Config) (id : String) (agentTable : TomlTable) : Value :=
  match global with
  | some cfg => mergeGlobal cfg id agentTable
  | none => .object (insertSettings [] agentTable)

def mergeProviderSettings (global : Option Config) (m : AgentManifest) : Value :=
  let agentTable := SortedMap.insert "instruction" (.string m.persona.instruction) []
  let agentTable := match m.persona.model with
    | some model => SortedMap.insert "model" (.string model) agentTable
    | none => agentTable
  mergeSettings global m.persona.provider
    (m.persona.settings.foldl (fun s p => SortedMap.insert p.1 p.2 s) agentTable)

/-- Settings that are no table count for nothing. -/
def mergeCapSettings (global : Option Config) (m : AgentManifest) (capId : String) : Value :=
  mergeSettings global capId (((SortedMap.get capId m.caps.settings).bind Toml.asTable).getD [])

section AssembleWithConfig

variable {W : Type} (m : AgentManifest) (r : ComponentRegistry W) (global : Option Config)

def addMergedComponent (t : Toolbox W) (id : String) : Except AssembleError (Toolbox W) := do
  let cfg : ComponentConfig := ⟨id, mergeCapSettings global m id⟩
  let component ← (r.buildCapabilityProvider cfg).mapError .capability
  (t.add component).mapError .capabilityConflict

def assembleWithConfig : Except AssembleError (AssembledAgent W) := do
  let provider ← (r.buildProvider
    ⟨m.persona.provider, mergeProviderSettings global m⟩).mapError .provider
  let toolbox ← m.caps.enable.foldlM (addMergedComponent m r global) .empty
  let contextAssembler ← assembleContext m r
  return {
    name := m.metaInfo.name
    instruction := m.persona.instruction
    scope := ⟨m.origin⟩
    grants := m.grants
    provider
    toolbox
    contextAssembler }

end AssembleWithConfig

/-! ## What is assembled -/

section Assembled

variable {W : Type} {m : AgentManifest} {r : ComponentRegistry W} {agent : AssembledAgent W}

/-- The grants of a manifest are for its own origin. -/
theorem AgentManifest.get_grants (origin : String) :
    SortedMap.get origin m.grants = if origin = m.origin then some m.grantedPrefixes else none :=
  SortedMap.get_insert _ _ _ _

theorem assemble_eq_ok (h : assemble m r = .ok agent) :
    assembleToolbox m r = .ok agent.toolbox ∧ agent.scope = ⟨m.origin⟩ ∧
      agent.grants = m.grants := by
  obtain ⟨provider, -, h⟩ := Fallible.exists_of_bind_eq_ok h
  obtain ⟨toolbox, htoolbox, h⟩ := Fallible.exists_of_bind_eq_ok h
  obtain ⟨contextAssembler, -, h⟩ := Fallible.exists_of_bind_eq_ok h
  obtain rfl := Except.ok.inj h
  exact ⟨htoolbox, rfl, rfl⟩

/-- Whatever the global config says, it does not reach the scope and the grants. -/
theorem assembleWithConfig_eq_ok {global : Option Config}
    (h : assembleWithConfig m r global = .ok agent) :
    agent.scope = ⟨m.origin⟩ ∧ agent.grants = m.grants := by
  obtain ⟨provider, -, h⟩ := Fallible.exists_of_bind_eq_ok h
  obtain ⟨toolbox, -, h⟩ := Fallible.exists_of_bind_eq_ok h
  obtain ⟨contextAssembler, -, h⟩ := Fallible.exists_of_bind_eq_ok h
  obtain rfl := Except.ok.inj h
  exact ⟨rfl, rfl⟩

end Assembled

end Pan
