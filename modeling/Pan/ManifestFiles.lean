import Pan.Confinement
import Pan.DelegatedGrants

namespace Pan

open Eff

variable {W : Type}

/-! ## Manifests out of files -/

/-- Read a manifest and parse it, by the parser of the crate. -/
def AgentManifest.fromFile (fs : FileSystem W) (fromStr : String → Except String AgentManifest)
    (path : String) : Sys W (Except ManifestError AgentManifest) := do
  match ← fs.readToString path with
  | .error e => return .error (.io e)
  | .ok text => return (fromStr text).mapError .parse

def AgentCaps.over (A : AgentCaps W) (fs : FileSystem W)
    (fromStr : String → Except String AgentManifest) (agentsDir : String) : AgentCaps W :=
  { A with readManifest := fun name =>
      AgentManifest.fromFile fs fromStr (Path.join agentsDir s!"{name}.toml") }

def GatewayState.over (G : GatewayState W) (fs : FileSystem W)
    (fromStr : String → Except String AgentManifest) : GatewayState W :=
  { G with readManifest := fun agentDir name =>
      AgentManifest.fromFile fs fromStr (Path.join agentDir s!"{name}.toml") }

/-! ## Names that stay in the directory -/

/-- A delegation to this name is the same whatever the files hold that are not in the directory of
the agents. -/
def DelegateConfined (name : String) : Prop :=
  ∀ (W : Type) (A : AgentCaps W) (fs fs' : FileSystem W)
    (fromStr : String → Except String AgentManifest) (agentsDir : String) (fuel : ℕ)
    (origin : String) (args : Value), argStr args "agent" = .ok name →
      FileSystem.AgreeOn (DirectlyIn agentsDir) fs fs' →
        (A.over fs fromStr agentsDir).executeWithInvoker fuel origin args =
          (A.over fs' fromStr agentsDir).executeWithInvoker fuel origin args

def GatewayConfined (name : String) : Prop :=
  ∀ (W : Type) (G : GatewayState W) (fs fs' : FileSystem W)
    (fromStr : String → Except String AgentManifest) (agentDir : String) (fuel : ℕ)
    (parentName : String) (req : DelegateRequest), G.pool.sourceDir = some agentDir →
      req.agent = name → FileSystem.AgreeOn (DirectlyIn agentDir) fs fs' →
        (G.over fs fromStr).agentDelegate fuel parentName req =
          (G.over fs' fromStr).agentDelegate fuel parentName req

theorem fromFile_agree {own : String → Prop} {fs fs' : FileSystem W} {path : String}
    (fromStr : String → Except String AgentManifest) (hagree : FileSystem.AgreeOn own fs fs')
    (hown : own path) :
    AgentManifest.fromFile fs fromStr path = AgentManifest.fromFile fs' fromStr path := by
  unfold AgentManifest.fromFile
  rw [hagree.readToString _ hown]

theorem SingleName.delegateConfined {name : String} (hname : SingleName (name ++ ".toml")) :
    DelegateConfined name := by
  intro W A fs fs' fromStr agentsDir fuel origin args hagent hagree
  have hfile := fromFile_agree fromStr hagree (hname.directlyIn agentsDir)
  unfold AgentCaps.executeWithInvoker
  cases hargs : delegateArgs args with
  | error e => rfl
  | ok p =>
    obtain ⟨agent, objective⟩ := p
    obtain rfl : name = agent := Except.ok.inj (hagent.symm.trans (agent_of_delegateArgs hargs))
    have hload : (A.over fs fromStr agentsDir).loadChild name =
        (A.over fs' fromStr agentsDir).loadChild name := by
      unfold AgentCaps.loadChild AgentCaps.over
      dsimp only
      rw [show s!"{name}.toml" = name ++ ".toml" from rfl, hfile]
    dsimp only
    rw [hload]
    rfl

theorem SingleName.gatewayConfined {name : String} (hname : SingleName (name ++ ".toml")) :
    GatewayConfined name := by
  intro W G fs fs' fromStr agentDir fuel parentName req hdir hreq hagree
  subst hreq
  have hfile := fromFile_agree fromStr hagree (hname.directlyIn agentDir)
  have hchild : (G.over fs fromStr).delegateChild parentName req =
      (G.over fs' fromStr).delegateChild parentName req := by
    unfold GatewayState.delegateChild GatewayState.over
    dsimp only
    rw [hdir]
    dsimp only
    rw [show s!"{req.agent}.toml" = req.agent ++ ".toml" from rfl, hfile]
  unfold GatewayState.agentDelegate
  rw [hchild]
  rfl

/-! ## Names that leave it -/

/-- A manifest that is read but names components that nobody has registered. -/
def strandedManifest : AgentManifest :=
  ⟨⟨"a", none⟩, ⟨"", "provider.none", none, []⟩, ⟨[], [], []⟩⟩

def bareRegistry : ComponentRegistry Unit := ⟨[], [], []⟩

def bareCaps : AgentCaps Unit :=
  ⟨bareRegistry, fun _ _ => none, fun w => (0, w), ⟨fun _ => "", id⟩⟩

def bareParent : AssembledAgent Unit where
  name := ""
  instruction := ""
  scope := ⟨""⟩
  grants := []
  provider := ScriptedProvider Unit ⟨[]⟩
  toolbox := .empty
  contextAssembler := none

def bareGateway (agentDir : String) : GatewayState Unit :=
  ⟨⟨[("", bareParent)], some agentDir⟩, bareRegistry, fun _ _ _ => none, fun w => (0, w),
    ⟨fun _ => "", id⟩⟩

theorem validate_strandedManifest : strandedManifest.validate = .ok () := rfl

theorem assemble_strandedManifest : assemble strandedManifest bareRegistry =
    .error (.provider (.unknown "provider" "provider.none")) := rfl

theorem fromFile_ofFiles (files : String → Option String) (path : String) :
    AgentManifest.fromFile (.ofFiles files) (fun _ => .ok strandedManifest) path () =
      some ((files path).elim (.error (.io "permission denied")) fun _ => .ok strandedManifest,
        ()) := by
  have hread : (FileSystem.ofFiles files).readToString path () =
      some ((files path).elim (.error "permission denied") .ok, ()) := rfl
  change ((FileSystem.ofFiles files).readToString path >>= _ : Sys Unit _).run () = _
  rw [StateT.run_bind]
  change ((FileSystem.ofFiles files).readToString path () >>= _) = _
  rw [hread]
  cases files path <;> rfl

/-- The file of a stranded manifest is told from one that cannot be read. -/
theorem executeWithInvoker_ofFiles (files : String → Option String) (agentsDir name : String) :
    (∃ e : String, e.toList.head? = some 'a' ∧
      ((bareCaps.over (.ofFiles files) (fun _ => .ok strandedManifest) agentsDir).executeWithInvoker
        0 "" (delegationTo name) ()).2 = some (.error ⟨e⟩, ())) ↔
      (files (Path.join agentsDir (name ++ ".toml"))).isSome := by
  have hdepth : ¬maxDelegationDepth < delegationDepth "" := by decide
  have hfile : s!"{name}.toml" = name ++ ".toml" := rfl
  unfold AgentCaps.executeWithInvoker AgentCaps.loadChild AgentCaps.over bareCaps
  rw [delegateArgs_delegationTo]
  dsimp only
  rw [if_neg hdepth, hfile, bind_eq, bind_eq, call_apply, fromFile_ofFiles]
  cases files (Path.join agentsDir (name ++ ".toml")) with
  | none =>
    -- the text of the error begins with the word for the step that failed
    dsimp only [Option.elim]
    refine iff_of_false ?_ (by simp)
    rintro ⟨e, he, hresult⟩
    cases hresult
    simp [ToString.toString] at he
  | some text =>
    dsimp only [Option.elim]
    rw [validate_strandedManifest, assemble_strandedManifest]
    refine iff_of_true ⟨s!"assemble {name}: " ++ AssembleError.text _, ?_, rfl⟩ rfl
    simp [ToString.toString]

theorem agentDelegate_ofFiles (files : String → Option String) (agentDir name : String) :
    (((bareGateway agentDir).over (.ofFiles files) fun _ => .ok strandedManifest).agentDelegate 0 ""
        ⟨name, "", false⟩ ()).2 = some (.error .internalServerError, ()) ↔
      (files (Path.join agentDir (name ++ ".toml"))).isSome := by
  have hfile : s!"{name}.toml" = name ++ ".toml" := rfl
  have hparent : SortedMap.get "" (bareGateway agentDir).pool.agents = some bareParent := rfl
  unfold GatewayState.agentDelegate GatewayState.delegateChild GatewayState.over Eff.andThen
  dsimp only
  rw [hparent]
  dsimp only
  rw [bind_eq, show (bareGateway agentDir).pool.sourceDir = some agentDir from rfl]
  dsimp only
  rw [hfile, bind_eq, call_apply, fromFile_ofFiles]
  cases files (Path.join agentDir (name ++ ".toml")) with
  | none => simp
  | some text =>
    simp [validate_strandedManifest, bareGateway, assemble_strandedManifest]

/-- A directory that a name leaves if it is not single. -/
theorem notDirectlyIn_otherName {s : String} (hs : ¬SingleName s) :
    ¬DirectlyIn (.ofList (otherName s)) (Path.join (.ofList (otherName s)) s) := by
  have hlocation : location (.ofList (otherName s)) = [] ++ [.normal (otherName s)] := by
    rw [location_of_relative (by rw [head_otherName]; decide), below_otherName]
    rfl
  exact not_directlyIn hs hlocation (by rw [hlocation]; simp) (normal_otherName_notMem_below s)

theorem DelegateConfined.singleName {name : String} (h : DelegateConfined name) :
    SingleName (name ++ ".toml") := by
  by_contra hname
  refine notDirectlyIn_otherName hname (own_of_depends
    (fun files => executeWithInvoker_ofFiles files _ name) fun files files' hown hread => ?_)
  rwa [h Unit bareCaps _ _ _ _ 0 "" (delegationTo name) rfl (FileSystem.ofFiles_agreeOn hown)]
    at hread

theorem GatewayConfined.singleName {name : String} (h : GatewayConfined name) :
    SingleName (name ++ ".toml") := by
  by_contra hname
  refine notDirectlyIn_otherName hname (own_of_depends
    (fun files => agentDelegate_ofFiles files _ name) fun files files' hown hread => ?_)
  rwa [h Unit (bareGateway _) _ _ _ _ 0 "" ⟨name, "", false⟩ rfl rfl
    (FileSystem.ofFiles_agreeOn hown)] at hread

/-- Both ways stay in the directory of the agents for the same names. -/
theorem delegation_confined_iff (name : String) :
    (DelegateConfined name ↔ SingleName (name ++ ".toml")) ∧
      (GatewayConfined name ↔ SingleName (name ++ ".toml")) :=
  ⟨⟨DelegateConfined.singleName, SingleName.delegateConfined⟩,
    ⟨GatewayConfined.singleName, SingleName.gatewayConfined⟩⟩

/-- An absolute name replaces the directory. -/
theorem delegation_leaves_directory :
    ¬DelegateConfined "/tmp/evil" ∧ ¬GatewayConfined "/tmp/evil" := by
  have habsolute : ¬SingleName ("/tmp/evil" ++ ".toml") := fun h => h.1 (by decide)
  exact ⟨fun h => habsolute h.singleName, fun h => habsolute h.singleName⟩

end Pan
