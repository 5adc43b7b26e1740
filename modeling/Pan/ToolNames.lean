import Pan.Anthropic
import Pan.Feedback
import Pan.OpenAi

namespace Pan

/-! ## Ids with one name -/

/-- The ids are the same up to dots and underscores. -/
def NamedAlike (a b : String) : Prop :=
  List.Forall₂ (fun c d => c = d ∨ c ∈ ['.', '_'] ∧ d ∈ ['.', '_']) a.toList b.toList

theorem underscored_eq_iff {a b : String} : underscored a = underscored b ↔ NamedAlike a b := by
  have hchar : ∀ c d : Char, (if c = '.' then '_' else c) = (if d = '.' then '_' else d) ↔
      c = d ∨ c ∈ ['.', '_'] ∧ d ∈ ['.', '_'] := by
    intro c d
    split_ifs with hc hd hd <;> simp [hc, hd, eq_comm]
    all_goals grind
  unfold underscored NamedAlike
  rw [String.ofList_inj, ← List.forall₂_eq_eq_eq, List.forall₂_map_left_iff,
    List.forall₂_map_right_iff]
  simp only [hchar]

theorem nodup_underscored {caps : List Capability} :
    (caps.map fun cap => underscored cap.id).Nodup ↔
      caps.Pairwise fun cap cap' => ¬NamedAlike cap.id cap'.id := by
  rw [List.Nodup, List.pairwise_map]
  simp only [ne_eq, underscored_eq_iff]

theorem resolveName_underscored {caps : List Capability}
    (h : (caps.map fun cap => underscored cap.id).Nodup) {cap : Capability} (hcap : cap ∈ caps) :
    resolveName (nameTable caps) (underscored cap.id) = cap.id := by
  have hkeys : ((caps.map fun cap => (underscored cap.id, cap.id)).map Prod.fst).Nodup := by
    rw [List.map_map]
    exact h
  have hmem : (underscored cap.id, cap.id) ∈ caps.map fun cap => (underscored cap.id, cap.id) :=
    List.mem_map_of_mem hcap
  unfold resolveName nameTable
  rw [SortedMap.get_ofList, SortedMap.last_of_nodup hkeys hmem, Option.getD_some]

/-! ## The calls of a response -/

namespace OpenAi

def toolName (tool : Value) : Option String := (tool.field "function").str "name"

def toolCalls (response : Value) : List Value :=
  match response.get "error" with
  | some _ => []
  | none => (((((response.field "choices").item 0).field "message").get "tool_calls").bind
      Value.asArray).getD []

def calledName (call : Value) : String := ((call.field "function").str "name").getD ""

theorem toolName_tool (cap : Capability) : toolName (tool cap) = some (underscored cap.id) := by
  have hfunction : (tool cap).field "function" = .ofFields [
      ("name", .string (sanitize cap.id)), ("description", .string cap.summary),
      ("parameters", cap.argsSchema)] := by
    simp [tool, Value.field, Value.get_ofFields, SortedMap.last]
  rw [toolName, hfunction, Value.str, Value.get_ofFields]
  simp [SortedMap.last, Value.asStr, sanitize]

theorem invocations_interpret (J : JsonText) (nameToId : List (String × String))
    (response : Value) : (interpret J nameToId response).invocations.map Invocation.capability =
      ((toolCalls response).map calledName).map (resolveName nameToId) := by
  have hspoken : ∀ message, (spoken message).filterMap ActionIntent.invocation = [] := by
    intro message
    unfold spoken
    split <;> rfl
  rw [List.map_map]
  unfold interpret toolCalls Decision.invocations
  cases response.get "error" with
  | some e => rfl
  | none =>
    dsimp only
    generalize ((response.field "choices").item 0).field "message" = message
    cases (message.get "tool_calls").bind Value.asArray with
    | none => simp [hspoken, ActionIntent.invocation]
    | some calls =>
      cases calls with
      | nil => simp [hspoken, ActionIntent.invocation]
      | cons call calls =>
        simp only [List.filterMap_append, hspoken, List.nil_append, List.filterMap_map,
          Option.getD_some]
        rw [List.map_filterMap, ← List.filterMap_eq_map]
        exact List.filterMap_congr fun _ _ => rfl

/-- The names that are advertised are distinct, and a call of one of them becomes an `Invoke` of
the capability that it was advertised for. -/
structure NamesIdentify (J : JsonText) (caps : List Capability) : Prop where
  distinct : ((toolSchema caps).1.map toolName).Nodup
  mapsBack : ∀ response (i : ℕ), ∀ cap ∈ caps,
    ((toolCalls response).map calledName)[i]? = toolName (tool cap) →
    ((interpret J (toolSchema caps).2 response).invocations.map Invocation.capability)[i]? =
      some cap.id

end OpenAi

namespace Anthropic

def toolName (tool : Value) : Option String := tool.str "name"

def toolUses (response : Value) : List Value :=
  match response.get "error" with
  | some _ => []
  | none => (((response.get "content").bind Value.asArray).getD []).filter isToolUse

def usedName (block : Value) : String := (block.str "name").getD ""

theorem toolName_tool (cap : Capability) : toolName (tool cap) = some (underscored cap.id) := by
  rw [toolName, Value.str, tool, Value.get_ofFields]
  simp [SortedMap.last, Value.asStr, sanitize]

theorem invocations_interpret (nameToId : List (String × String)) (response : Value) :
    (interpret nameToId response).invocations.map Invocation.capability =
      ((toolUses response).map usedName).map (resolveName nameToId) := by
  rw [List.map_map]
  unfold interpret toolUses Decision.invocations
  cases response.get "error" with
  | some e => rfl
  | none =>
    cases (response.get "content").bind Value.asArray with
    | none => rfl
    | some content =>
      have hexpress : ∀ text : Option String, (text.map ActionIntent.express).toList.filterMap
          ActionIntent.invocation = [] := by
        intro text
        cases text <;> rfl
      have hconclude : (if content.any isToolUse then [] else
          [ActionIntent.conclude .achieved]).filterMap ActionIntent.invocation = [] := by
        split <;> rfl
      simp only [List.filterMap_append, hexpress, hconclude, List.nil_append, List.append_nil,
        List.filterMap_map, Option.getD_some]
      rw [List.map_filterMap, ← List.filterMap_eq_map]
      exact List.filterMap_congr fun _ _ => rfl

/-- The names that are advertised are distinct, and a use of one of them becomes an `Invoke` of
the capability that it was advertised for. -/
structure NamesIdentify (caps : List Capability) : Prop where
  distinct : ((toolSchema caps).1.map toolName).Nodup
  mapsBack : ∀ response (i : ℕ), ∀ cap ∈ caps,
    ((toolUses response).map usedName)[i]? = toolName (tool cap) →
    ((interpret (toolSchema caps).2 response).invocations.map Invocation.capability)[i]? =
      some cap.id

end Anthropic

/-! ## When names identify capabilities -/

theorem nodup_advertised {toolName : Value → Option String} {tool : Capability → Value}
    (htool : ∀ cap, toolName (tool cap) = some (underscored cap.id)) (caps : List Capability) :
    ((caps.map tool).map toolName).Nodup ↔
      caps.Pairwise fun cap cap' => ¬NamedAlike cap.id cap'.id := by
  have hnames : (caps.map tool).map toolName =
      (caps.map fun cap => underscored cap.id).map some := by
    rw [List.map_map, List.map_map]
    exact List.map_congr_left fun cap _ => htool cap
  rw [hnames, List.nodup_map_iff (Option.some_injective _), nodup_underscored]

/-- If calls are resolved by the names they give, then names are distinct and map back exactly if no
two ids are the same up to dots and underscores. -/
theorem identify_iff {toolName : Value → Option String} {tool : Capability → Value}
    (htool : ∀ cap, toolName (tool cap) = some (underscored cap.id)) {caps : List Capability}
    {called invoked : Value → List String}
    (hinvoked : ∀ response, invoked response =
      (called response).map (resolveName (nameTable caps))) :
    (((caps.map tool).map toolName).Nodup ∧ ∀ response (i : ℕ), ∀ cap ∈ caps,
        (called response)[i]? = toolName (tool cap) → (invoked response)[i]? = some cap.id) ↔
      caps.Pairwise fun cap cap' => ¬NamedAlike cap.id cap'.id := by
  rw [nodup_advertised htool]
  refine and_iff_left_of_imp fun h response i cap hcap hi => ?_
  rw [hinvoked, List.getElem?_map, hi, htool, Option.map_some,
    resolveName_underscored (nodup_underscored.mpr h) hcap]

/-- Both providers advertise distinct names, and map them back, exactly if no two ids are the same
up to dots and underscores. -/
theorem names_identify_iff (J : JsonText) (caps : List Capability) :
    (OpenAi.NamesIdentify J caps ↔
        caps.Pairwise fun cap cap' => ¬NamedAlike cap.id cap'.id) ∧
      (Anthropic.NamesIdentify caps ↔
        caps.Pairwise fun cap cap' => ¬NamedAlike cap.id cap'.id) := by
  constructor
  · have hiff := identify_iff OpenAi.toolName_tool (OpenAi.invocations_interpret J (nameTable caps))
    exact ⟨fun h => hiff.mp ⟨h.distinct, h.mapsBack⟩, fun h => ⟨(hiff.mpr h).1, (hiff.mpr h).2⟩⟩
  · have hiff := identify_iff Anthropic.toolName_tool
      (Anthropic.invocations_interpret (nameTable caps))
    exact ⟨fun h => hiff.mp ⟨h.distinct, h.mapsBack⟩, fun h => ⟨(hiff.mpr h).1, (hiff.mpr h).2⟩⟩

def dottedCap : Capability := ⟨"cap.a.b", "does cap.a.b", .object []⟩

def underscoredCap : Capability := ⟨"cap.a_b", "does cap.a_b", .object []⟩

/-- Two distinct ids with one name. -/
theorem dotted_cap_not_identified :
    ([dottedCap, underscoredCap].map Capability.id).Nodup ∧
      ¬OpenAi.NamesIdentify ⟨fun _ => "", fun _ => none⟩ [dottedCap, underscoredCap] ∧
      ¬Anthropic.NamesIdentify [dottedCap, underscoredCap] := by
  have hnames : underscored dottedCap.id = underscored underscoredCap.id := by decide
  refine ⟨by decide, fun h => ?_, fun h => ?_⟩
  · have hdistinct := h.distinct
    simp [OpenAi.toolSchema, OpenAi.toolName_tool, hnames] at hdistinct
  · have hdistinct := h.distinct
    simp [Anthropic.toolSchema, Anthropic.toolName_tool, hnames] at hdistinct

end Pan
