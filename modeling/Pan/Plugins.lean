import Pan.LoopEngine

namespace Pan

/-- An executor that leaves the invoker alone: the default `execute_with_invoker`. -/
def Executor.ofExecute {W : Type} (execute : String → Value → Call W (Except ExecError Value)) :
    Executor W where
  execute := execute
  executeWithInvoker capability args w :=
    match execute capability args w with
    | some (result, w') => .returns result w'
    | none => .hangs

def AllowAll (W : Type) : Governor W where
  govern _ _ _ w := some (.allow, w)

def echo (capability : String) (args : Value) : Value :=
  .object (SortedMap.insert "args" args (SortedMap.insert "executed" (.string capability) []))

def EchoExecutor (W : Type) : Executor W :=
  .ofExecute fun capability args w => some (.ok (echo capability args), w)

def NoVeto (W : Type) : VetoSource W where
  vetoed _ w := (none, w)

/-- A single discrete goal. -/
def Once (W : Type) : Observations W (Option Goal) where
  nextGoal w := some (w.2, (w.1, none))
  superseded _ _ w := (none, w)

def ScriptedProvider (W : Type) (decision : Decision) : Provider W where
  id := "provider.scripted"
  decide _ _ _ _ w := (some decision, w)

def Loop.ofProvider {W : Type} (registry : CapabilityRegistry) (provider : Provider W)
    (formats : Formats) : Loop W where
  provider := provider
  pipeline := ⟨registry, AllowAll W, EchoExecutor W, []⟩
  scope := ⟨"pan"⟩
  tokenTx := false
  vetoSource := NoVeto W
  stallDetector := none
  compactor := none
  contextBudget := none
  evaluator := none
  formats := formats

/-- A loop that echoes once for every goal and calls it achieved. -/
def echoLoop : Loop Unit :=
  .ofProvider (CapabilityRegistry.empty.insert ⟨"cap.echo", "echo", .null⟩)
    (ScriptedProvider Unit ⟨[.invoke "cap.echo" .null none, .conclude .achieved]⟩)
    ⟨fun _ => "", id⟩

def restlessLoop : Loop Unit :=
  .ofProvider (CapabilityRegistry.empty.insert ⟨"cap.echo", "echo", .null⟩)
    (ScriptedProvider Unit ⟨[.invoke "cap.echo" .null none]⟩) ⟨fun _ => "", id⟩

/-- A loop that knows no capability, with one decision for every goal. -/
def scriptedLoop (decision : Decision) : Loop Unit :=
  .ofProvider .empty (ScriptedProvider Unit decision) ⟨fun _ => "", id⟩

def tickGoal (id : String) (revision : ℕ) : Goal := ⟨id, revision, "tick", .tick 0⟩

end Pan
