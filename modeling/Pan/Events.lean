import Pan.Schema

namespace Pan

inductive StageStatus where
  | ok
  | denied
  | error
deriving DecidableEq

inductive EventKind where
  | runStarted (goalId : String) (revision : ℕ)
  | decided (provider : String) (intents : ℕ)
  | dispatchStarted (capability : String) (correlation : Option String)
  | stageCompleted (stage capability : String) (status : StageStatus)
  | effected (capability : String) (result : Value)
  | expressed (body : String)
  | abandoned (goalId : String) (supersededBy : ℕ)
  | runConcluded (goalId : String) (outcome : Outcome)
  | pluginError (plugin message : String)

inductive Verdict where
  | allow
  | deny (reason : String)
  | requireApproval (reason : String)
deriving DecidableEq

/-- The verdict as `{:?}` prints it. -/
def Verdict.debug (formats : Formats) : Verdict → String
  | allow => "Allow"
  | deny reason => "Deny \x7b reason: " ++ formats.debugStr reason ++ " \x7d"
  | requireApproval reason =>
    "RequireApproval \x7b reason: " ++ formats.debugStr reason ++ " \x7d"

inductive Action where
  /-- An event was emitted. -/
  | event (kind : EventKind)
  /-- The governor was asked and gave this verdict. -/
  | govern (scope : Scope) (capability : String) (args : Value) (verdict : Verdict)
  /-- The hook's `pre_invoke` was called and gave this answer. -/
  | preInvoke (hook : String) (scope : Scope) (capability : String) (args : Value)
      (answer : Except String Unit)
  /-- `Executor::execute` was called. -/
  | execute (capability : String) (args : Value)
  /-- `Executor::execute_with_invoker` was called. -/
  | executeWithInvoker (capability : String) (args : Value)
  /-- The hook's `post_invoke` was called. -/
  | postInvoke (hook : String) (scope : Scope) (capability : String) (args : Value)
      (result : Except String Value)
  /-- The loop took up a goal that the source handed over. -/
  | observed (goal : Goal)
  /-- `Provider::decide` was called. -/
  | decide (goal : Goal) (ctx : Context)
  /-- A newer revision won the race and the `decide` was dropped. -/
  | superseded (goal newer : Goal)
  /-- The veto won the race and the `decide` was dropped. -/
  | vetoed (goal : Goal)
  /-- The `decide` ran to completion. -/
  | decided (goal : Goal) (decision : Decision)
  /-- An `Invoke` has been enacted: it was effected with a result, or failed with a message. -/
  | invoked (capability : String) (args : Value) (correlation : Option String)
      (result : Except String Value)
  /-- All intents of the decision have been enacted. -/
  | enacted (goal : Goal) (decision : Decision)
  /-- An expressed body was sent on the token channel. -/
  | token (body : String)

namespace Action

def execution : Action → Option (String × Value)
  | execute capability args => some (capability, args)
  | executeWithInvoker capability args => some (capability, args)
  | _ => none

end Action

end Pan
