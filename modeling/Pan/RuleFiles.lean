import Pan.Agents
import Pan.Minds
import Pan.Pipeline

namespace Pan

/-- The reader of the agents: an action without args has null for them. -/
def parseRule (entry : Value) : Option Rule := do
  let thenInvoke ← entry.get "then_invoke"
  let capability ← (← thenInvoke.get "capability").asStr
  let args := (thenInvoke.get "args").getD .null
  let whenSignalOver := do
    let s ← entry.get "when_signal_over"
    let name ← (← s.get "name").asStr
    let threshold ← (← s.get "threshold").asF64
    return (name, threshold)
  let whenEventTopic := (entry.get "when_event_topic").bind Value.asStr
  return ⟨whenSignalOver, whenEventTopic, (capability, args)⟩

def buildRules : Factory RulesProvider := fun cfg =>
  match (cfg.settings.get "rules").bind Value.asArray with
  | some entries => .ok ⟨entries.filterMap parseRule⟩
  | none => .ok ⟨[]⟩

def soulRule (entry : Value) : Option Rule :=
  (parseThenInvoke entry).map fun thenInvoke =>
    ⟨parseWhenSignalOver entry, (entry.get "when_event_topic").bind Value.asStr, thenInvoke⟩

def ruleEntries (file : Value) : List Value := ((file.get "rules").bind Value.asArray).getD []

theorem parseRulesFromSoul_eq (file : Value) :
    parseRulesFromSoul file = (ruleEntries file).filterMap soulRule := by
  unfold parseRulesFromSoul ruleEntries
  cases (file.get "rules").bind Value.asArray <;> rfl

theorem buildRules_eq (id : String) (file : Value) :
    buildRules ⟨id, file⟩ = .ok ⟨(ruleEntries file).filterMap parseRule⟩ := by
  unfold buildRules ruleEntries
  cases (file.get "rules").bind Value.asArray <;> rfl

/-- The capability that an entry names, and its args if it has any. -/
def namedAction (entry : Value) : Option (String × Option Value) := do
  let t ← entry.get "then_invoke"
  let capability ← (t.get "capability").bind Value.asStr
  return (capability, t.get "args")

/-- The rule of an entry, where `args` stands for those that are not given. -/
def ruleWith (args : Value) (entry : Value) : Option Rule :=
  (namedAction entry).map fun action =>
    ⟨parseWhenSignalOver entry, (entry.get "when_event_topic").bind Value.asStr,
      (action.1, action.2.getD args)⟩

theorem soulRule_eq (entry : Value) : soulRule entry = ruleWith (.object []) entry := by
  unfold soulRule ruleWith parseThenInvoke namedAction
  cases entry.get "then_invoke" with
  | none => rfl
  | some t => cases h : (t.get "capability").bind Value.asStr <;> simp [h]

theorem parseRule_eq (entry : Value) : parseRule entry = ruleWith .null entry := by
  have hsignal : (do
      let s ← entry.get "when_signal_over"
      let name ← (← s.get "name").asStr
      let threshold ← (← s.get "threshold").asF64
      return (name, threshold)) = parseWhenSignalOver entry := by
    simp only [parseWhenSignalOver, Option.bind_eq_bind, Option.bind_assoc]
  unfold parseRule ruleWith namedAction
  rw [hsignal]
  cases entry.get "then_invoke" with
  | none => rfl
  | some t => cases h : t.get "capability" <;> simp [h]

/-! ## Actions without args -/

def objectSchema : Value := .object [("type", .string "object")]

/-- The args of a rule that an entry without args is read as are an object. -/
def ArgsPass (read : Value → Option Rule) (entry : Value) : Prop :=
  ∀ capability, namedAction entry = some (capability, none) →
    ∀ rule ∈ read entry, minimalSchemaCheck objectSchema rule.thenInvoke.2 = .ok ()

/-- The file means the same to both hosts, and actions without args can be taken in both. -/
structure SameRules (file : Value) : Prop where
  rules : ∀ id, buildRules ⟨id, file⟩ = .ok ⟨parseRulesFromSoul file⟩
  agents : ∀ entry ∈ ruleEntries file, ArgsPass parseRule entry
  daemon : ∀ entry ∈ ruleEntries file, ArgsPass soulRule entry

/-- Each action that names a capability has args. -/
def ActionsHaveArgs (file : Value) : Prop :=
  ∀ entry ∈ ruleEntries file, ∀ capability, namedAction entry ≠ some (capability, none)

theorem argsPass_soulRule (entry : Value) : ArgsPass soulRule entry := by
  intro capability hnamed rule hrule
  rw [soulRule_eq, ruleWith, hnamed] at hrule
  cases hrule
  rfl

theorem ruleWith_eq_iff (entry : Value) : ruleWith .null entry = ruleWith (.object []) entry ↔
    ∀ capability, namedAction entry ≠ some (capability, none) := by
  unfold ruleWith
  cases h : namedAction entry with
  | none => simp
  | some action =>
    obtain ⟨capability, args⟩ := action
    cases args <;> simp

/-- Readers that take the same entries agree on a list exactly if they agree on each of them. -/
theorem filterMap_eq_iff {α β : Type} {f g : α → Option β}
    (hfg : ∀ x, (f x).isSome = (g x).isSome) {l : List α} :
    l.filterMap f = l.filterMap g ↔ ∀ x ∈ l, f x = g x := by
  induction l with
  | nil => simp
  | cons x l ih =>
    have hx := hfg x
    cases hf : f x with
    | none =>
      have hg : g x = none := by simpa [hf] using hx
      simp [hf, hg, ih]
    | some a =>
      obtain ⟨b, hg⟩ : ∃ b, g x = some b :=
        Option.isSome_iff_exists.mp (by simpa [hf] using hx.symm)
      simp [hf, hg, ih]

/-- The two hosts have the same rules from exactly the files in which every action has args. -/
theorem buildRules_eq_iff (id : String) (file : Value) :
    buildRules ⟨id, file⟩ = .ok ⟨parseRulesFromSoul file⟩ ↔ ActionsHaveArgs file := by
  have hsome : ∀ entry, (parseRule entry).isSome = (soulRule entry).isSome := by
    intro entry
    rw [parseRule_eq, soulRule_eq, ruleWith, ruleWith, Option.isSome_map, Option.isSome_map]
  rw [buildRules_eq, parseRulesFromSoul_eq, Except.ok.injEq, RulesProvider.mk.injEq,
    filterMap_eq_iff hsome]
  simp only [parseRule_eq, soulRule_eq, ruleWith_eq_iff, ActionsHaveArgs]

theorem sameRules_iff (file : Value) : SameRules file ↔ ActionsHaveArgs file := by
  constructor
  · intro h
    exact (buildRules_eq_iff "provider.rules" file).mp (h.rules "provider.rules")
  · intro h
    exact {
      rules := fun id => (buildRules_eq_iff id file).mpr h
      agents := fun entry hentry capability hnamed => absurd hnamed (h entry hentry capability)
      daemon := fun entry _ => argsPass_soulRule entry }

def wavingFile : Value :=
  .object [("rules", .array [.object [("then_invoke", .object [("capability", .string "npc.wave")]),
    ("when_event_topic", .string "crew_saved")]])]

/-- The daemon waves with an empty object; the agent's null is no object. -/
theorem waving_not_sameRules : ¬SameRules wavingFile := by
  intro h
  have hpass := h.agents _ (List.mem_singleton.mpr rfl) "npc.wave" rfl _ rfl
  cases hpass

end Pan
