import Pan.Delegation
import Pan.Library.Machine

namespace Pan

/-- `split_whitespace()` -/
def splitWhitespace (s : String) : List String :=
  ((s.toList.splitOnP isWhitespace).filter fun l => !l.isEmpty).map String.ofList

inductive Mode where
  | build
  | plan
deriving DecidableEq

structure Message where
  role : String
  content : String
deriving DecidableEq

inductive KeyCode where
  | char (c : Char)
  | tab
  | up
  | down
  | pageUp
  | pageDown
  | backspace
  | enter
  | esc
  | other

/-! ## Spans -/

structure SpanTask (W : Type) where
  loop : Loop W
  goal : Goal
  /-- The world, with all that it has in store for the span. -/
  world : W
  fuel : ℕ
  /-- How many of its actions it has performed. -/
  performed : ℕ
  /-- The tokens that it has sent and nobody has received yet. -/
  tokens : List String
  /-- What it has sent on its completion channel, with which it ends. -/
  report : Option RunReport

namespace SpanTask

variable {W : Type} (span : SpanTask W)

def run : List Action × Option (RunReport × (W × Option Goal)) :=
  span.loop.runSpan (Once W) ⟨[]⟩ span.fuel (span.world, some span.goal)

def nextAction : Option Action := span.run.1[span.performed]?

def act : SpanTask W :=
  match span.nextAction with
  | some (.token body) =>
    { span with performed := span.performed + 1, tokens := span.tokens ++ [body] }
  | some _ => { span with performed := span.performed + 1 }
  | none => span

def finish : SpanTask W :=
  if span.performed = span.run.1.length then
    { span with report := span.report.or (span.run.2.map Prod.fst) }
  else span

end SpanTask

/-! ## The state -/

structure App where
  mode : Mode
  messages : List Message
  input : String
  inputHistory : List String
  historyIdx : Option ℕ
  scroll : ℕ
  /-- What was last sent on `veto_tx`. -/
  veto : Bool
  running : Bool
  tokenCount : ℕ
  messageCount : ℕ
  /-- The message that is being streamed. -/
  msgIdx : Option ℕ
  /-- The span whose tokens are received. -/
  tokenRx : Option ℕ
  /-- The span whose completion is awaited. -/
  completionRx : Option ℕ

def App.new : App :=
  ⟨.build, [], "", [], none, 0, false, false, 0, 0, none, none, none⟩

structure TuiState (W : Type) where
  app : App
  /-- All spans that were spawned, in order. -/
  spans : List (SpanTask W)
  /-- Whether the main loop runs. -/
  isOpen : Bool

structure Tui (W : Type) where
  agent : AssembledAgent W
  planGovernor : Option Grants
  formats : Formats

structure Outside (W : Type) where
  nanos : ℕ
  world : W
  fuel : ℕ
  /-- `dispatch_capability` -/
  answer : String → Value → Except String Value

namespace App

variable (app : App)

def pushMessage (role content : String) : App :=
  { app with messages := app.messages ++ [⟨role, content⟩] }

def clear : App := { app with messages := [], messageCount := 0, tokenCount := 0 }

/-! ## Slash commands -/

def helpText : String :=
  "Slash commands:\n" ++
  "  /undo <path> [snapshot_id]   — restore file from snapshot\n" ++
  "  /undo list <path>            — list snapshots for a file\n" ++
  "  /help                        — this help\n" ++
  "  /clear  or Ctrl+L            — clear conversation\n" ++
  "  /quit  or Ctrl+C             — cancel running / Esc to quit"

def snapshotLine (s : Value) : String :=
  let id := ((s.get "id").bind Value.asStr).getD "?"
  let ts := ((s.get "timestamp").bind Value.asU64).getD 0
  s!"  {id}  (t={ts})"

def undoList (path : String) (answer : String → Value → Except String Value) : App :=
  if path.isEmpty then app.pushMessage "error" "usage: /undo list <path>"
  else
    let args := Value.object (SortedMap.ofList [("path", .string path), ("_list", .bool true)])
    match answer "cap.fs.undo" args with
    | .ok val =>
      let lines := (((val.get "snapshots").bind Value.asArray).getD []).map snapshotLine
      let snapshots := String.intercalate "\n" lines
      app.pushMessage "assistant" s!"[undo] snapshots for `{path}`:\n{snapshots}"
    | .error e => app.pushMessage "error" s!"[undo] {e}"

def undo (formats : Formats) (path : String) (snapshotId : Option String)
    (answer : String → Value → Except String Value) : App :=
  if path.isEmpty then app.pushMessage "error" "usage: /undo <path> [snapshot_id]"
  else
    let args := SortedMap.insert "path" (.string path) []
    let args := match snapshotId with
      | some id => SortedMap.insert "snapshot_id" (.string id) args
      | none => args
    match answer "cap.fs.undo" (.object args) with
    | .ok val =>
      let id := formats.debugStr (((val.get "snapshot_id").bind Value.asStr).getD "?")
      app.pushMessage "assistant" s!"[undo] restored `{path}` (snapshot: {id})"
    | .error e => app.pushMessage "error" s!"[undo] {e}"

def handleSlashCommand (formats : Formats) (input : String)
    (answer : String → Value → Except String Value) : App :=
  match splitWhitespace input with
  -- a command begins with a slash, so there is a first part
  | [] => app
  | "/undo" :: parts =>
    let sub := parts[0]?.getD ""
    if sub = "list" then app.undoList (parts[1]?.getD "") answer
    else app.undo formats sub parts[1]? answer
  | "/help" :: _ => app.pushMessage "assistant" helpText
  | "/?" :: _ => app.pushMessage "assistant" helpText
  | "/clear" :: _ => app.clear
  | "/quit" :: _ => app
  | "/exit" :: _ => app
  | command :: _ => app.pushMessage "error" s!"unknown command `{command}` — type /help"

/-! ## Editing -/

def historyUp : App :=
  match app.inputHistory with
  | [] => app
  | _ :: _ =>
    let idx := app.historyIdx.getD app.inputHistory.length - 1
    { app with historyIdx := some idx, input := app.inputHistory[idx]?.getD app.input }

def historyDown : App :=
  match app.historyIdx with
  | none => app
  | some idx =>
    match app.inputHistory[idx + 1]? with
    | some input => { app with historyIdx := some (idx + 1), input := input }
    | none => { app with historyIdx := none, input := "" }

def toggleMode (planGovernor : Option Grants) : App :=
  if planGovernor.isSome ∧ app.running = false then
    { app with mode := match app.mode with
      | .build => .plan
      | .plan => .build }
  else app

/-! ## What a span sends -/

def receive (token : String) : App :=
  match app.msgIdx with
  | some idx =>
    if idx < app.messages.length then
      { app with
        messages := app.messages.modify idx fun m => { m with content := m.content ++ token }
        tokenCount := app.tokenCount + 1 }
    else app
  | none => app

def updateAssistant (content : String) : List Message → List Message
  | [] => []
  | m :: messages =>
    if messages.any fun m => m.role = "assistant" then m :: updateAssistant content messages
    else if m.role = "assistant" then { m with content := content } :: messages
    else m :: messages

def finalizeSpan (report : RunReport) : App :=
  { app with
    msgIdx := none
    tokenRx := none
    completionRx := none
    messages := if report.expressed.isEmpty then app.messages
      else updateAssistant (String.intercalate "\n" report.expressed) app.messages
    running := false }

end App

namespace Tui

variable {W : Type} (tui : Tui W)

/-- The loop of a span: it streams its tokens, and its veto source never fires. -/
def spanLoop (mode : Mode) : Loop W :=
  let grants := match mode with
    | .build => tui.agent.grants
    | .plan => tui.planGovernor.getD tui.agent.grants
  let base := tui.agent.loop tui.formats tui.agent.scope.origin
  { base with
    pipeline := { base.pipeline with governor := ScopedGovernor W grants }
    tokenTx := true
    vetoSource := NoVeto W }

def runAgent (s : TuiState W) (input : String) (outside : Outside W) : TuiState W :=
  let goal : Goal := ⟨s!"tui-{outside.nanos}", 0, input, .utterance "user" ""⟩
  let span : SpanTask W :=
    ⟨tui.spanLoop s.app.mode, goal, outside.world, outside.fuel, 0, [], none⟩
  { s with
    app := { s.app.pushMessage "assistant" "" with
      running := true
      veto := false
      msgIdx := some s.app.messages.length
      tokenRx := some s.spans.length
      completionRx := some s.spans.length }
    spans := s.spans ++ [span] }

def submit (s : TuiState W) (outside : Outside W) : TuiState W :=
  let msg := s.app.input
  let app := { s.app with
    input := ""
    inputHistory := s.app.inputHistory ++ [msg]
    historyIdx := none
    messageCount := s.app.messageCount + 1
    messages := s.app.messages ++ [⟨"user", msg⟩] }
  if msg.toList.head? = some '/' then
    { s with app := app.handleSlashCommand tui.formats msg outside.answer }
  else tui.runAgent { s with app := app } msg outside

/-- Ctrl+C: abort the current run. -/
def cancel (s : TuiState W) : TuiState W :=
  { s with app := { s.app with veto := true, running := false } }

def handleKey (s : TuiState W) (code : KeyCode) (control : Bool) (outside : Outside W) :
    TuiState W :=
  match code with
  | .char c =>
    if control ∧ c ∈ ['c', 'C'] then cancel s
    else if control ∧ c ∈ ['l', 'L'] then { s with app := s.app.clear }
    else if s.app.running then s
    else { s with app := { s.app with input := s.app.input.push c, historyIdx := none } }
  | .tab => { s with app := s.app.toggleMode tui.planGovernor }
  | .up => { s with app := s.app.historyUp }
  | .down => { s with app := s.app.historyDown }
  | .pageUp => { s with app := { s.app with scroll := min (s.app.scroll + 5) 65535 } }
  | .pageDown => { s with app := { s.app with scroll := s.app.scroll - 5 } }
  | .backspace =>
    { s with app := { s.app with input := String.ofList s.app.input.toList.dropLast } }
  | .enter =>
    if s.app.running = false ∧ s.app.input.isEmpty = false then tui.submit s outside else s
  | .esc => { s with isOpen := false }
  | .other => s

end Tui

inductive TuiStep (W : Type) where
  | key (code : KeyCode) (control : Bool) (outside : Outside W)
  | token
  | completion
  | act (i : ℕ)
  | finish (i : ℕ)

namespace TuiState

variable {W : Type} (s : TuiState W)

def receiveToken : TuiState W :=
  match s.app.tokenRx with
  | none => s
  | some i =>
    match s.spans[i]?.map SpanTask.tokens with
    | some (token :: tokens) =>
      { s with
        app := s.app.receive token
        spans := s.spans.modify i fun span => { span with tokens := tokens } }
    | _ => s

def receiveCompletion : TuiState W :=
  match (s.app.completionRx.bind fun i => s.spans[i]?).bind SpanTask.report with
  | some report => { s with app := s.app.finalizeSpan report }
  | none => s

end TuiState

/-- The terminal and its spans, each step of which may come at any time. -/
def Tui.terminal {W : Type} (tui : Tui W) : Machine (TuiState W) (TuiStep W) where
  init := ⟨.new, [], true⟩
  step s
    | .key code control outside => if s.isOpen then tui.handleKey s code control outside else s
    | .token => if s.isOpen then s.receiveToken else s
    | .completion => if s.isOpen then s.receiveCompletion else s
    | .act i => { s with spans := s.spans.modify i SpanTask.act }
    | .finish i => { s with spans := s.spans.modify i SpanTask.finish }

end Pan
