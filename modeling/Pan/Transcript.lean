import Mathlib.Data.List.DropRight
import Pan.Agents
import Pan.JsonText
import Pan.LoopEngine

namespace Pan

namespace Value

/-- `v[key]`: a member that is missing is null. -/
def field (v : Value) (key : String) : Value := (v.get key).getD null

/-- `v[i]`: an element that is missing is null. -/
def item (v : Value) (i : ℕ) : Value := ((v.asArray.getD [])[i]?).getD null

/-- `v.get(key).and_then(|s| s.as_str())` -/
def str (v : Value) (key : String) : Option String := (v.get key).bind asStr

/-- `json!({ .. })` -/
def ofFields (fields : List (String × Value)) : Value := object (SortedMap.ofList fields)

def chatMessage (role content : String) : Value :=
  ofFields [("role", .string role), ("content", .string content)]

theorem get_ofFields (fields : List (String × Value)) (key : String) :
    (ofFields fields).get key = SortedMap.last key fields :=
  SortedMap.get_ofList key fields

end Value

/-- `serde_json::from_str` -/
def JsonText.fromStr (J : JsonText) (text : String) : Option Value :=
  (J.read text).map Value.collect

/-- `trim()` -/
def trim (s : String) : String :=
  String.ofList ((s.toList.dropWhile isWhitespace).rdropWhile isWhitespace)

def abandoned : Decision := ⟨[.conclude .abandoned]⟩

def triggerToText (J : JsonText) (displayF64 : F64 → String) : Trigger → String
  | .utterance sender content => s!"{sender}: {content}"
  | .event topic payload => s!"(event: {topic} {J.write payload})"
  | .tick _ => "(a quiet moment passes)"
  | .signal name value => s!"(signal: {name} = {displayF64 value})"

/-! ## Prompt and history -/

def historyChannel : String := "history"

def pushSection (system title body : String) : String :=
  (if system.isEmpty then system else system ++ "\n\n") ++ s!"[{title}]\n{body}"

def systemPrompt (instruction : String) (goal : Goal) (ctx : Context) : String :=
  let sections := ctx.fragments.filter fun f =>
    f.channel ≠ toolResultChannel ∧ f.channel ≠ historyChannel
  let system := sections.foldl (fun system f => pushSection system f.channel f.body)
    (trim instruction)
  if isBlank goal.objective then system else pushSection system "objective" (trim goal.objective)

def isTurn (turn : Value) : Bool :=
  turn.str "role" == some "user" || turn.str "role" == some "assistant"

def fragmentTurns (J : JsonText) (f : Fragment) : List Value :=
  (((J.fromStr f.body).bind Value.asArray).getD []).filter isTurn

def historyTurns (J : JsonText) (ctx : Context) : List Value :=
  (ctx.fragments.filter fun f => f.channel = historyChannel).flatMap (fragmentTurns J)

/-! ## Exchanges -/

/-- `&s[..n]`, which panics inside a character. -/
def takeBytes (n : ℕ) : List Char → Option (List Char)
  | [] => if n = 0 then some [] else none
  | c :: cs =>
    if n = 0 then some []
    else if n < c.utf8Size then none
    else (takeBytes (n - c.utf8Size) cs).map (c :: ·)

/-- The text, or its first `limit` bytes with a marker. -/
def clip (limit : ℕ) (s : String) : Option String :=
  if limit < s.utf8ByteSize then
    (takeBytes limit s.toList).map fun front =>
      String.ofList front ++ s!"...[truncated: {s.utf8ByteSize} total chars]"
  else some s

structure Exchange where
  id : String
  name : String
  arguments : String
  content : String
deriving DecidableEq

/-- Capability ids have dots, which names of functions may not have. -/
def underscored (capabilityId : String) : String :=
  String.ofList (capabilityId.toList.map fun c => if c = '.' then '_' else c)

/-- What a fragment says came of the call; nothing if the code panics. -/
def exchangeContent (J : JsonText) (limit : ℕ) (parsed : Value) : Option String :=
  match parsed.get "result", parsed.get "error" with
  -- a result counts before an error
  | some result, _ => clip limit (J.write result)
  | none, some error => some s!"error: {J.write error}"
  | none, none => some "null"

/-- The exchange that a fragment records, if it has the expected shape; nothing if the code
panics. -/
def parseExchange (J : JsonText) (defaultId : String) (limit : ℕ) (body : String) :
    Option (Option Exchange) :=
  match J.fromStr body with
  | none => some none
  | some parsed =>
    match parsed.str "capability" with
    | none => some none
    | some capability =>
      (exchangeContent J limit parsed).map fun content => some {
        id := (parsed.str "correlation").getD defaultId
        name := underscored capability
        arguments := ((parsed.get "args").map J.write).getD "\x7b\x7d"
        content }

def replayFragments (replay : String → Option (Option (Value × Value))) :
    List Fragment → Option (List Value)
  | [] => some []
  | f :: fragments => do
    let pair ← if f.channel ≠ toolResultChannel then some none else replay f.body
    let messages ← replayFragments replay fragments
    match pair with
    | some (call, result) => return call :: result :: messages
    | none => return messages

/-! ## Names -/

/-- `name_to_id` -/
def nameTable (caps : List Capability) : List (String × String) :=
  SortedMap.ofList (caps.map fun cap => (underscored cap.id, cap.id))

/-- The capability of a name; a name that is not known is passed through. -/
def resolveName (nameToId : List (String × String)) (sentName : String) : String :=
  (SortedMap.get sentName nameToId).getD sentName

end Pan
