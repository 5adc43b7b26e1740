import Mathlib.Algebra.GroupWithZero.Nat
import Pan.Json

namespace Pan

/-- Why a step is happening. -/
inductive Trigger where
  | utterance (sender content : String)
  | tick (sequence : ℕ)
  | event (topic : String) (payload : Value)
  | signal (name : String) (value : F64)

structure Goal where
  id : String
  revision : ℕ
  objective : String
  trigger : Trigger

/-- `other` has the identity of `g` and a strictly newer revision. -/
def Goal.supersededBy (g other : Goal) : Bool :=
  g.id == other.id && decide (g.revision < other.revision)

theorem Goal.supersededBy_iff {g other : Goal} :
    g.supersededBy other = true ↔ g.id = other.id ∧ g.revision < other.revision := by
  simp [Goal.supersededBy]

/-- Who is asking. -/
structure Scope where
  origin : String
deriving DecidableEq

structure Fragment where
  channel : String
  body : String
deriving DecidableEq

structure Context where
  fragments : List Fragment
deriving DecidableEq

structure Capability where
  id : String
  summary : String
  argsSchema : Value

inductive Outcome where
  | achieved
  | abandoned
  | continue
deriving DecidableEq

inductive ActionIntent where
  | invoke (capability : String) (args : Value) (correlation : Option String)
  | express (body : String)
  | conclude (outcome : Outcome)

namespace ActionIntent

/-- The outcome a `Conclude` declares. -/
def concludes : ActionIntent → Option Outcome
  | conclude o => some o
  | _ => none

end ActionIntent

structure Decision where
  intents : List ActionIntent

/-- The outcome of the last `Conclude`, if there is one. -/
def Decision.outcome (d : Decision) : Option Outcome :=
  d.intents.reverse.findSome? ActionIntent.concludes

structure ContextBudget where
  maxTokens : ℕ

/-- A quarter of the bytes of the bodies. -/
def ContextBudget.estimateTokens (ctx : Context) : ℕ :=
  (ctx.fragments.map fun f => f.body.utf8ByteSize).sum / 4

inductive GoalEval where
  | satisfied
  | unsatisfied (reason : String)
  | cannotJudge (reason : String)
deriving DecidableEq

end Pan
