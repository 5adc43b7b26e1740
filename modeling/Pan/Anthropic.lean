import Pan.Transcript

namespace Pan.Anthropic

def sanitize (capabilityId : String) : String := underscored capabilityId

def userTurn (J : JsonText) (displayF64 : F64 → String) (trigger : Trigger) : String :=
  triggerToText J displayF64 trigger

/-! ## The transcript -/

def toolUseBlock (e : Exchange) : Value :=
  .ofFields [
    ("type", .string "tool_use"),
    ("id", .string e.id),
    ("name", .string e.name),
    ("input", .string e.arguments)]

def toolResultBlock (e : Exchange) : Value :=
  .ofFields [
    ("type", .string "tool_result"),
    ("tool_use_id", .string e.id),
    ("content", .string e.content)]

def assistantMessage (e : Exchange) : Value :=
  .ofFields [("role", .string "assistant"), ("content", .array [toolUseBlock e])]

def toolResultMessage (e : Exchange) : Value :=
  .ofFields [("role", .string "user"), ("content", .array [toolResultBlock e])]

/-- The call and its result, of a fragment that records an exchange; nothing if the code panics. -/
def replayToolExchange (J : JsonText) (body : String) : Option (Option (Value × Value)) :=
  (parseExchange J "toolu_0" 32768 body).map fun exchange =>
    exchange.map fun e => (assistantMessage e, toolResultMessage e)

/-- A turn of a history keeps its role and its text. -/
def historyMessage (turn : Value) : Value :=
  .ofFields [
    ("role", .string (if turn.str "role" = some "user" then "user" else "assistant")),
    ("content", .string ((turn.str "content").getD ""))]

def buildMessages (J : JsonText) (displayF64 : F64 → String) (instruction : String) (goal : Goal)
    (ctx : Context) : Option (String × List Value) := do
  let system := systemPrompt instruction goal ctx
  let user := Value.ofFields
    [("role", .string "user"), ("content", .string (userTurn J displayF64 goal.trigger))]
  let exchanges ← replayFragments (replayToolExchange J) ctx.fragments
  return (system, (historyTurns J ctx).map historyMessage ++ user :: exchanges)

/-! ## The tools -/

def tool (cap : Capability) : Value :=
  .ofFields [
    ("name", .string (sanitize cap.id)),
    ("description", .string cap.summary),
    ("input_schema", cap.argsSchema)]

/-- The tools, and the map of their names back to the capabilities. -/
def toolSchema (caps : List Capability) : List Value × List (String × String) :=
  (caps.map tool, nameTable caps)

/-! ## Responses -/

def isToolUse (block : Value) : Bool := block.str "type" == some "tool_use"

def useIntent (nameToId : List (String × String)) (block : Value) : ActionIntent :=
  let name := (block.str "name").getD ""
  let input := (block.get "input").getD .null
  .invoke (resolveName nameToId name) input (block.str "id")

/-- What has been said so far, with the text of one more block. -/
def expressBlock (expressText : Option String) (block : Value) : Option String :=
  if block.str "type" = some "text" then
    match ((block.str "text").map trim).filter fun s => !s.isEmpty with
    | some trimmed =>
      let prev := expressText.getD ""
      some (if prev.isEmpty then trimmed else s!"{prev} {trimmed}")
    | none => expressText
  else expressText

def interpret (nameToId : List (String × String)) (response : Value) : Decision :=
  match response.get "error" with
  | some _ => abandoned
  | none =>
    match (response.get "content").bind Value.asArray with
    | none => abandoned
    | some content =>
      let expressText := content.foldl expressBlock none
      let invokes := (content.filter isToolUse).map (useIntent nameToId)
      ⟨(expressText.map ActionIntent.express).toList ++ invokes ++
        if content.any isToolUse then [] else [.conclude .achieved]⟩

end Pan.Anthropic
