import Pan.Transcript

namespace Pan.OpenAi

def sanitize (capabilityId : String) : String := underscored capabilityId

def MAX_TOOL_OUTPUT_CHARS : ℕ := 32768

def userTurn (J : JsonText) (displayF64 : F64 → String) (trigger : Trigger) : String :=
  triggerToText J displayF64 trigger

/-! ## The transcript -/

def assistantMessage (e : Exchange) : Value :=
  .ofFields [
    ("role", .string "assistant"),
    ("content", .string ""),
    ("tool_calls", .array [.ofFields [
      ("id", .string e.id),
      ("type", .string "function"),
      ("function", .ofFields [("name", .string e.name), ("arguments", .string e.arguments)])]])]

def toolMessage (e : Exchange) : Value :=
  .ofFields [
    ("role", .string "tool"),
    ("tool_call_id", .string e.id),
    ("content", .string e.content)]

/-- The call and its result, of a fragment that records an exchange; nothing if the code panics. -/
def replayExchange (J : JsonText) (body : String) : Option (Option (Value × Value)) :=
  (parseExchange J "call_0" MAX_TOOL_OUTPUT_CHARS body).map fun exchange =>
    exchange.map fun e => (assistantMessage e, toolMessage e)

def buildMessages (J : JsonText) (displayF64 : F64 → String) (instruction : String) (goal : Goal)
    (ctx : Context) : Option (List Value) := do
  let system := Value.ofFields
    [("role", .string "system"), ("content", .string (systemPrompt instruction goal ctx))]
  let user := Value.ofFields
    [("role", .string "user"), ("content", .string (userTurn J displayF64 goal.trigger))]
  let exchanges ← replayFragments (replayExchange J) ctx.fragments
  return system :: historyTurns J ctx ++ user :: exchanges

/-! ## The tools -/

def tool (cap : Capability) : Value :=
  .ofFields [
    ("type", .string "function"),
    ("function", .ofFields [
      ("name", .string (sanitize cap.id)),
      ("description", .string cap.summary),
      ("parameters", cap.argsSchema)])]

/-- The tools, and the map of their names back to the capabilities. -/
def toolSchema (caps : List Capability) : List Value × List (String × String) :=
  (caps.map tool, nameTable caps)

/-! ## Responses -/

def callIntent (J : JsonText) (nameToId : List (String × String)) (call : Value) : ActionIntent :=
  let function := call.field "function"
  let sentName := (function.str "name").getD ""
  let args := ((function.str "arguments").bind J.fromStr).getD (.object [])
  .invoke (resolveName nameToId sentName) args (call.str "id")

def spoken (message : Value) : List ActionIntent :=
  match ((message.str "content").map trim).filter fun s => !s.isEmpty with
  | some text => [.express text]
  | none => []

def interpret (J : JsonText) (nameToId : List (String × String)) (response : Value) : Decision :=
  match response.get "error" with
  | some _ => abandoned
  | none =>
    let message := ((response.field "choices").item 0).field "message"
    match (message.get "tool_calls").bind Value.asArray with
    | some (call :: calls) => ⟨spoken message ++ (call :: calls).map (callIntent J nameToId)⟩
    | _ => ⟨spoken message ++ [.conclude .achieved]⟩

end Pan.OpenAi
