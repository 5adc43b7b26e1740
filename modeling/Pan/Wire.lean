import Pan.Schema

namespace Pan

def PROTOCOL_VERSION : ℕ := 0

def SERVER_IDENTITY : String := "pan-serve/0.1.0"

inductive MindKind where
  | rules
  | behaviorTree
  | llm
deriving DecidableEq

/-- The closed set of error codes. -/
inductive ErrorCode where
  | badFrame
  | unknownType
  | versionUnsupported
  | unknownSoul
  | unknownCapability
  | invalidArgs
  | providerFailure
  | superseded
deriving DecidableEq

inductive MessageType where
  | hello
  | welcome
  | registerCapabilities
  | instantiateSoul
  | releaseSoul
  | perceive
  | decision
  | ack
  | error
  | shutdown
deriving DecidableEq

structure HelloBody where
  protocolVersion : ℕ
  profile : String
  client : String

structure WelcomeBody where
  protocolVersion : ℕ
  server : String
  minds : List MindKind

structure RegisterCapabilitiesBody where
  capabilities : List Capability

structure InstantiateSoulBody where
  soulId : String
  mind : MindKind
  /-- The opaque birth-state. -/
  soul : Value

structure ReleaseSoulBody where
  soulId : String

structure PerceiveBody where
  soulId : String
  goal : Goal
  context : Context

structure DecisionBody where
  soulId : String
  goalId : String
  goalRevision : ℕ
  decision : Decision

structure ErrorBody where
  code : ErrorCode
  message : String

inductive Body where
  | hello (b : HelloBody)
  | welcome (b : WelcomeBody)
  | registerCapabilities (b : RegisterCapabilitiesBody)
  | instantiateSoul (b : InstantiateSoulBody)
  | releaseSoul (b : ReleaseSoulBody)
  | perceive (b : PerceiveBody)
  | decision (b : DecisionBody)
  | ack
  | error (b : ErrorBody)
  | shutdown

namespace Body

def ty : Body → MessageType
  | hello _ => .hello
  | welcome _ => .welcome
  | registerCapabilities _ => .registerCapabilities
  | instantiateSoul _ => .instantiateSoul
  | releaseSoul _ => .releaseSoul
  | perceive _ => .perceive
  | decision _ => .decision
  | ack => .ack
  | error _ => .error
  | shutdown => .shutdown

/-- The code of an `error`. -/
def errorCode : Body → Option ErrorCode
  | error b => some b.code
  | _ => none

end Body

structure Envelope where
  v : ℕ
  seq : ℕ
  re : Option ℕ
  ty : MessageType
  body : Body

def Envelope.outgoing (seq : ℕ) (re : Option ℕ) (body : Body) : Envelope :=
  ⟨PROTOCOL_VERSION, seq, re, body.ty, body⟩

end Pan
