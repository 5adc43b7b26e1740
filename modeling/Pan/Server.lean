import Pan.Conversation

namespace Pan

def MAX_LINE_BYTES : ℕ := 1024 * 1024

/-- `parse` is the decoding of an envelope from a line of JSON. -/
structure Server where
  daemon : Daemon
  parse : String → Option Envelope

/-- A line feed at the end is taken off and then a carriage return. -/
def trimLine (line : String) : String :=
  let chars := line.toList
  let chars := if chars.getLast? = some '\n' then chars.dropLast else chars
  let chars := if chars.getLast? = some '\r' then chars.dropLast else chars
  String.ofList chars

inductive Reader where
  | idle
  /-- Writing these envelopes, the last of them before the connection is closed if `close`. -/
  | writing (outs : List Envelope) (close : Bool)
  | closed

def Reader.write (outs : List Envelope) (close : Bool) : Reader :=
  match outs with
  | [] => if close then closed else idle
  | out :: outs => writing (out :: outs) close

/-- A spawned perceive: its mind is at work, or its reply is to be written. -/
inductive Task where
  | deciding (job : PerceiveJob)
  | writing (outs : List Envelope)

namespace Server

open Eff

variable (server : Server)

def parseEnvelope (line : String) : Except (ErrorCode × String) Envelope :=
  match server.parse line with
  | some env => .ok env
  | none => .error (.badFrame, s!"bad JSON line: {line}")

/-- What the read loop does with one line, up to the writing: the session it leaves, how it goes on
and the task it spawns. -/
def drive (answer : LlmAnswer) (session : Session) (line : String) :
    Eff Action Unit (Session × Reader × Option Task) := do
  let line := trimLine line
  if line.isEmpty then
    return (session, .idle, none)
  else if MAX_LINE_BYTES < line.utf8ByteSize then
    let (out, session) :=
      session.out none (.error ⟨.badFrame, s!"line exceeds {MAX_LINE_BYTES} bytes"⟩)
    return (session, .write [out] false, none)
  else
    match server.parseEnvelope line with
    | .error (code, message) =>
      -- whatever is wrong with the line, the connection stays open
      let (out, session) := session.out none (.error ⟨code, message⟩)
      return (session, .write [out] false, none)
    | .ok env =>
      if env.ty = .perceive then
        match session.beginPerceive server.daemon env.seq env.body with
        | (.error replies, session) => return (session, .write replies false, none)
        -- the task is spawned and the next line is read while it decides
        | (.ok job, session) => return (session, .idle, some (.deciding job))
      else
        match ← session.handle server.daemon answer env with
        | (.ok responses, session) =>
          return (session, .write responses (env.ty = .shutdown), none)
        | (.error (.versionUnsupported client ours), session) =>
          let (out, session) := session.out none (.error ⟨.versionUnsupported,
            s!"protocol_version mismatch: client={client}, daemon={ours}"⟩)
          -- the one error that closes the connection
          return (session, .write [out] true, none)
        | (.error _, session) => return (session, .closed, none)

end Server

/-! ## The connection -/

structure Connection where
  session : Session
  reader : Reader
  tasks : List Task
  wire : List Envelope

inductive ConnectionEvent where
  /-- The reader gets a line; the endpoint would answer so. -/
  | line (line : String) (answer : LlmAnswer)
  /-- The end of the input, or an error on it. -/
  | eof
  /-- The reader writes its next envelope. -/
  | write
  /-- The mind of the task has decided, and its job is finished. -/
  | finish (i : ℕ) (answer : LlmAnswer)
  /-- The task writes its next envelope. -/
  | writeTask (i : ℕ)

namespace Connection

def start : Connection := ⟨.new, .idle, [], []⟩

variable (server : Server)

def step (c : Connection) : ConnectionEvent → Connection
  | .line line answer =>
    match c.reader with
    | .idle =>
      match (server.drive answer c.session line ()).2 with
      | none => c
      | some ((session, reader, task), ()) =>
        { c with session, reader, tasks := c.tasks ++ task.toList }
    | _ => c
  | .eof =>
    match c.reader with
    | .idle => { c with reader := .closed }
    | _ => c
  | .write =>
    match c.reader with
    | .writing (out :: outs) close =>
      { c with reader := .write outs close, wire := c.wire ++ [out] }
    | _ => c
  | .finish i answer =>
    match c.tasks[i]? with
    | some (.deciding job) =>
      match (Session.runJob server.daemon answer job ()).2 with
      | none => c
      | some (outcome, ()) =>
        let (outs, session) := c.session.finishPerceiveWithOutcome job outcome
        { c with session, tasks := c.tasks.set i (.writing outs) }
    | _ => c
  | .writeTask i =>
    match c.tasks[i]? with
    | some (.writing (out :: outs)) =>
      { c with tasks := c.tasks.set i (.writing outs), wire := c.wire ++ [out] }
    | _ => c

end Connection

def connection (server : Server) : Machine Connection ConnectionEvent :=
  ⟨.start, Connection.step server⟩

end Pan
