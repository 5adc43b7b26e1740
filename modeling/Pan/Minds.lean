import Pan.Wire

namespace Pan

/-! ## Comparing doubles -/

def F64.magnitude (x : F64) : ℕ := (x.bits &&& 0x7fffffffffffffff).toNat

def F64.isNaN (x : F64) : Bool := decide (0x7ff0000000000000 < x.magnitude)

/-- Numbers are ordered as their magnitudes with the sign; both zeros are 0. -/
def F64.signed (x : F64) : ℤ :=
  if x.bits < 0x8000000000000000 then x.magnitude else -x.magnitude

/-- `x > y`, which is false of a NaN. -/
def F64.gt (x y : F64) : Bool := !x.isNaN && !y.isNaN && decide (y.signed < x.signed)

/-! ## Rules -/

structure Rule where
  whenSignalOver : Option (String × F64)
  whenEventTopic : Option String
  thenInvoke : String × Value

structure RulesProvider where
  rules : List Rule

namespace RulesProvider

/-- The first rule whose condition matches the trigger. Rules do not react to a tick or to what
is said. -/
def matchRule (p : RulesProvider) (goal : Goal) : Option Rule :=
  match goal.trigger with
  | .signal name value => p.rules.find? fun r =>
    match r.whenSignalOver with
    | some (n, t) => n == name && value.gt t
    | none => false
  | .event topic _ => p.rules.find? fun r => r.whenEventTopic == some topic
  | .tick _ => none
  | .utterance _ _ => none

def decide (p : RulesProvider) (goal : Goal) : Decision :=
  match p.matchRule goal with
  | some r => ⟨[.invoke r.thenInvoke.1 r.thenInvoke.2 none, .conclude .achieved]⟩
  | none => ⟨[.conclude .continue]⟩

end RulesProvider

/-! ## Rules out of the birth-state -/

/-- The condition `{"name": .., "threshold": ..}`. -/
def parseWhenSignalOver (entry : Value) : Option (String × F64) := do
  let s ← entry.get "when_signal_over"
  let name ← (s.get "name").bind Value.asStr
  let threshold ← (s.get "threshold").bind Value.asF64
  return (name, threshold)

/-- The action `{"capability": .., "args": ..}`, without args an empty object. -/
def parseThenInvoke (entry : Value) : Option (String × Value) := do
  let t ← entry.get "then_invoke"
  let capability ← (t.get "capability").bind Value.asStr
  return (capability, (t.get "args").getD (.object []))

/-- An entry without an action is left out. -/
def parseRulesFromSoul (soul : Value) : List Rule :=
  match (soul.get "rules").bind Value.asArray with
  | none => []
  | some entries => entries.filterMap fun entry =>
    (parseThenInvoke entry).map fun thenInvoke =>
      ⟨parseWhenSignalOver entry, (entry.get "when_event_topic").bind Value.asStr, thenInvoke⟩

/-! ## Souls -/

abbrev LlmAnswer := Goal → Context → List Capability → Decision

inductive Mind where
  | rules (p : RulesProvider)
  | llm
  /-- A mind that the daemon cannot host. -/
  | noProvider

def Mind.decide (answer : LlmAnswer) (m : Mind) (goal : Goal) (ctx : Context)
    (caps : List Capability) : Decision :=
  match m with
  | rules p => p.decide goal
  | llm => answer goal ctx caps
  | noProvider => ⟨[.conclude .continue]⟩

structure SoulState where
  mind : MindKind
  soul : Value
  rules : List Rule

def SoulState.fromBody (body : InstantiateSoulBody) : SoulState where
  mind := body.mind
  soul := body.soul
  rules := if body.mind = .rules then parseRulesFromSoul body.soul else []

/-- The mind of the soul; `llmResolved` says whether an inference endpoint is configured. -/
def SoulState.provider (llmResolved : Bool) (s : SoulState) : Mind :=
  match s.mind with
  | .rules => .rules ⟨s.rules⟩
  | .llm => if llmResolved then .llm else .noProvider
  | .behaviorTree => .noProvider

def advertisedMinds (llmResolved : Bool) : List MindKind :=
  .rules :: if llmResolved then [.llm] else []

end Pan
