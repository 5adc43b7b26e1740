import Pan.JsonText
import Pan.Server

namespace Pan

/-! ## Parts -/

def decodeNat (bound : ℕ) : Value → Option ℕ
  | .number (.posInt n) => if n < bound then some n else none
  | _ => none

theorem lt_of_decodeNat {bound n : ℕ} {v : Value} (h : decodeNat bound v = some n) : n < bound := by
  unfold decodeNat at h
  split at h
  · split_ifs at h with hn
    cases h
    exact hn
  · cases h

def decodeU32 : Value → Option ℕ := decodeNat (2 ^ 32)

def decodeU64 : Value → Option ℕ := decodeNat (2 ^ 64)

def decodeVec {α : Type} (decode : Value → Option α) : Value → Option (List α)
  | .array xs => xs.mapM decode
  | _ => none

def decodeOption {α : Type} (decode : Value → Option α) : Value → Option (Option α)
  | .null => some none
  | v => (decode v).map some

/-- The name of a variant without fields, which may also stand as the key of a null. -/
def unitVariant : Value → Option String
  | .string name => some name
  | .object [(name, .null)] => some name
  | _ => none

/-- The same among the fields of an enum with a tag, where an empty object stands for a null. -/
def bufferedUnitVariant : Value → Option String
  | .object [(name, .object [])] => some name
  | v => unitVariant v

def structFields (names : List String) : Value → Option (List Value)
  | .object members => names.mapM fun name => SortedMap.get name members
  | .array xs => if xs.length = names.length then some xs else none
  | _ => none

/-- The tag of an enum, and what the fields of the variant are taken from. No field has the name of
the tag, so that the tag may stay in the object. -/
def taggedContent (tag : String) : Value → Option (String × Value)
  | .object members => do return (← (← SortedMap.get tag members).asStr, .object members)
  | .array (name :: xs) => do return (← name.asStr, .array xs)
  | _ => none

def natTree (n : ℕ) : Value := .number (.posInt n)

/-- What is not finite is written as null. -/
def floatTree (x : F64) : Value :=
  if x.magnitude < 0x7ff0000000000000 then .number (.float x) else .null

/-! ## The vocabulary -/

namespace Trigger

def toTree : Trigger → Value
  | utterance sender content =>
    .object [("kind", .string "utterance"), ("from", .string sender), ("content", .string content)]
  | tick sequence => .object [("kind", .string "tick"), ("sequence", natTree sequence)]
  | event topic payload =>
    .object [("kind", .string "event"), ("topic", .string topic), ("payload", payload)]
  | signal name value =>
    .object [("kind", .string "signal"), ("name", .string name), ("value", floatTree value)]

def decode (v : Value) : Option Trigger := do
  let (kind, content) ← taggedContent "kind" v
  match kind with
  | "utterance" =>
    let [sender, content] ← structFields ["from", "content"] content | none
    return .utterance (← sender.asStr) (← content.asStr)
  | "tick" =>
    let [sequence] ← structFields ["sequence"] content | none
    return .tick (← decodeU64 sequence)
  | "event" =>
    let [topic, payload] ← structFields ["topic", "payload"] content | none
    return .event (← topic.asStr) payload
  | "signal" =>
    let [name, value] ← structFields ["name", "value"] content | none
    return .signal (← name.asStr) (← value.asF64)
  | _ => none

end Trigger

namespace Goal

def toTree (g : Goal) : Value :=
  .object [("id", .string g.id), ("revision", natTree g.revision),
    ("objective", .string g.objective), ("trigger", g.trigger.toTree)]

def decode (v : Value) : Option Goal := do
  let [id, revision, objective, trigger] ←
    structFields ["id", "revision", "objective", "trigger"] v | none
  return ⟨← id.asStr, ← decodeU64 revision, ← objective.asStr, ← Trigger.decode trigger⟩

end Goal

namespace Fragment

def toTree (f : Fragment) : Value :=
  .object [("channel", .string f.channel), ("body", .string f.body)]

def decode (v : Value) : Option Fragment := do
  let [channel, body] ← structFields ["channel", "body"] v | none
  return ⟨← channel.asStr, ← body.asStr⟩

end Fragment

namespace Context

def toTree (ctx : Context) : Value :=
  .object [("fragments", .array (ctx.fragments.map Fragment.toTree))]

def decode (v : Value) : Option Context := do
  let [fragments] ← structFields ["fragments"] v | none
  return ⟨← decodeVec Fragment.decode fragments⟩

end Context

namespace Capability

def toTree (cap : Capability) : Value :=
  .object [("id", .string cap.id), ("summary", .string cap.summary),
    ("args_schema", cap.argsSchema)]

def decode (v : Value) : Option Capability := do
  let [id, summary, argsSchema] ← structFields ["id", "summary", "args_schema"] v | none
  return ⟨← id.asStr, ← summary.asStr, argsSchema⟩

end Capability

namespace Outcome

def asStr : Outcome → String
  | achieved => "achieved"
  | abandoned => "abandoned"
  | .continue => "continue"

def ofStr : String → Option Outcome
  | "achieved" => some achieved
  | "abandoned" => some abandoned
  | "continue" => some .continue
  | _ => none

end Outcome

namespace ActionIntent

def toTree : ActionIntent → Value
  | invoke capability args (some correlation) =>
    .object [("intent", .string "invoke"), ("capability", .string capability), ("args", args),
      ("correlation", .string correlation)]
  | invoke capability args none =>
    .object [("intent", .string "invoke"), ("capability", .string capability), ("args", args)]
  | express body => .object [("intent", .string "express"), ("body", .string body)]
  | conclude outcome =>
    .object [("intent", .string "conclude"), ("outcome", .string outcome.asStr)]

/-- The correlation may be left out. -/
def invokeFields : Value → Option (Value × Value × Value)
  | .object members => do
    let correlation := (SortedMap.get "correlation" members).getD .null
    return (← SortedMap.get "capability" members, ← SortedMap.get "args" members, correlation)
  | .array [capability, args] => some (capability, args, .null)
  | .array [capability, args, correlation] => some (capability, args, correlation)
  | _ => none

def decode (v : Value) : Option ActionIntent := do
  let (intent, content) ← taggedContent "intent" v
  match intent with
  | "invoke" =>
    let (capability, args, correlation) ← invokeFields content
    return .invoke (← capability.asStr) args (← decodeOption Value.asStr correlation)
  | "express" =>
    let [body] ← structFields ["body"] content | none
    return .express (← body.asStr)
  | "conclude" =>
    let [outcome] ← structFields ["outcome"] content | none
    return .conclude (← (← bufferedUnitVariant outcome) |> Outcome.ofStr)
  | _ => none

end ActionIntent

namespace Decision

def toTree (d : Decision) : Value :=
  .object [("intents", .array (d.intents.map ActionIntent.toTree))]

def decode (v : Value) : Option Decision := do
  let [intents] ← structFields ["intents"] v | none
  return ⟨← decodeVec ActionIntent.decode intents⟩

end Decision

/-! ## The enumerations of the wire -/

namespace MindKind

def asStr : MindKind → String
  | rules => "rules"
  | behaviorTree => "behavior_tree"
  | llm => "llm"

def ofStr : String → Option MindKind
  | "rules" => some rules
  | "behavior_tree" => some behaviorTree
  | "llm" => some llm
  | _ => none

def decode (v : Value) : Option MindKind := (unitVariant v).bind ofStr

end MindKind

namespace ErrorCode

def asStr : ErrorCode → String
  | badFrame => "bad_frame"
  | unknownType => "unknown_type"
  | versionUnsupported => "version_unsupported"
  | unknownSoul => "unknown_soul"
  | unknownCapability => "unknown_capability"
  | invalidArgs => "invalid_args"
  | providerFailure => "provider_failure"
  | superseded => "superseded"

def ofStr : String → Option ErrorCode
  | "bad_frame" => some badFrame
  | "unknown_type" => some unknownType
  | "version_unsupported" => some versionUnsupported
  | "unknown_soul" => some unknownSoul
  | "unknown_capability" => some unknownCapability
  | "invalid_args" => some invalidArgs
  | "provider_failure" => some providerFailure
  | "superseded" => some superseded
  | _ => none

def decode (v : Value) : Option ErrorCode := (unitVariant v).bind ofStr

end ErrorCode

namespace MessageType

def asStr : MessageType → String
  | hello => "hello"
  | welcome => "welcome"
  | registerCapabilities => "register_capabilities"
  | instantiateSoul => "instantiate_soul"
  | releaseSoul => "release_soul"
  | perceive => "perceive"
  | decision => "decision"
  | ack => "ack"
  | error => "error"
  | shutdown => "shutdown"

def fromWire : String → Option MessageType
  | "hello" => some hello
  | "welcome" => some welcome
  | "register_capabilities" => some registerCapabilities
  | "instantiate_soul" => some instantiateSoul
  | "release_soul" => some releaseSoul
  | "perceive" => some perceive
  | "decision" => some decision
  | "ack" => some ack
  | "error" => some error
  | "shutdown" => some shutdown
  | _ => none

def decode (v : Value) : Option MessageType := (unitVariant v).bind fromWire

end MessageType

/-! ## Bodies -/

namespace Body

def toTree : Body → Value
  | hello b => .object [("protocol_version", natTree b.protocolVersion),
      ("profile", .string b.profile), ("client", .string b.client)]
  | welcome b => .object [("protocol_version", natTree b.protocolVersion),
      ("server", .string b.server),
      ("minds", .array (b.minds.map fun mind => .string mind.asStr))]
  | registerCapabilities b =>
    .object [("capabilities", .array (b.capabilities.map Capability.toTree))]
  | instantiateSoul b => .object [("soul_id", .string b.soulId), ("mind", .string b.mind.asStr),
      ("soul", b.soul)]
  | releaseSoul b => .object [("soul_id", .string b.soulId)]
  | perceive b => .object [("soul_id", .string b.soulId), ("goal", b.goal.toTree),
      ("context", b.context.toTree)]
  | decision b => .object [("soul_id", .string b.soulId), ("goal_id", .string b.goalId),
      ("goal_revision", natTree b.goalRevision), ("decision", b.decision.toTree)]
  | ack => .object []
  | error b => .object [("code", .string b.code.asStr), ("message", .string b.message)]
  | shutdown => .object []

def fromValue (ty : MessageType) (v : Value) : Option Body :=
  match ty with
  | .hello => do
    let [protocolVersion, profile, client] ←
      structFields ["protocol_version", "profile", "client"] v | none
    return .hello ⟨← decodeU32 protocolVersion, ← profile.asStr, ← client.asStr⟩
  | .welcome => do
    let [protocolVersion, server, minds] ←
      structFields ["protocol_version", "server", "minds"] v | none
    return .welcome ⟨← decodeU32 protocolVersion, ← server.asStr,
      ← decodeVec MindKind.decode minds⟩
  | .registerCapabilities => do
    let [capabilities] ← structFields ["capabilities"] v | none
    return .registerCapabilities ⟨← decodeVec Capability.decode capabilities⟩
  | .instantiateSoul => do
    let [soulId, mind, soul] ← structFields ["soul_id", "mind", "soul"] v | none
    return .instantiateSoul ⟨← soulId.asStr, ← MindKind.decode mind, soul⟩
  | .releaseSoul => do
    let [soulId] ← structFields ["soul_id"] v | none
    return .releaseSoul ⟨← soulId.asStr⟩
  | .perceive => do
    let [soulId, goal, context] ← structFields ["soul_id", "goal", "context"] v | none
    return .perceive ⟨← soulId.asStr, ← Goal.decode goal, ← Context.decode context⟩
  | .decision => do
    let [soulId, goalId, goalRevision, decided] ←
      structFields ["soul_id", "goal_id", "goal_revision", "decision"] v | none
    return .decision ⟨← soulId.asStr, ← goalId.asStr, ← decodeU64 goalRevision,
      ← Decision.decode decided⟩
  | .ack => do
    let [] ← structFields [] v | none
    return .ack
  | .error => do
    let [code, message] ← structFields ["code", "message"] v | none
    return .error ⟨← ErrorCode.decode code, ← message.asStr⟩
  | .shutdown => do
    let [] ← structFields [] v | none
    return .shutdown

end Body

/-! ## Envelopes -/

namespace Envelope

/-- `re` is left out when there is none. -/
def toTree (env : Envelope) : Value :=
  .object ([("v", natTree env.v), ("seq", natTree env.seq)] ++
    (env.re.map fun re => ("re", natTree re)).toList ++
    [("type", .string env.ty.asStr), ("body", env.body.toTree)])

structure Fields where
  v : Option ℕ
  seq : Option ℕ
  re : Option (Option ℕ)
  ty : Option MessageType
  body : Option Value

/-- One member of the object; unknown keys are ignored. -/
def Fields.read (f : Fields) (member : String × Value) : Option Fields :=
  match member.1 with
  | "v" => do return { f with v := some (← decodeU32 member.2) }
  | "seq" => do return { f with seq := some (← decodeU64 member.2) }
  | "re" => do return { f with re := some (← decodeOption decodeU64 member.2) }
  | "type" => do return { f with ty := some (← MessageType.decode member.2) }
  | "body" => some { f with body := some member.2.collect }
  | _ => some f

def decode : Value → Option Envelope
  | .object members => do
    let f ← members.foldlM Fields.read ⟨none, none, none, none, none⟩
    let v ← f.v
    let seq ← f.seq
    let re := f.re.getD none
    let ty ← f.ty
    let body ← Body.fromValue ty (← f.body)
    return ⟨v, seq, re, ty, body⟩
  | _ => none

def toNdjson (J : JsonText) (env : Envelope) : String := J.write env.toTree

def fromNdjson (J : JsonText) (line : String) : Option Envelope := (J.read line).bind decode

end Envelope

def Server.ofJson (daemon : Daemon) (J : JsonText) : Server where
  daemon
  parse := Envelope.fromNdjson J

end Pan
