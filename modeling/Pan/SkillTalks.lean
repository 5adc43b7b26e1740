import Pan.SkillClient
import Pan.FileSystem
import Pan.Library.Scheduling

namespace Pan

/-! ## Lines in a pipe -/

def hasLine (text : String) : Bool := text.toList.contains '\n'

/-- `readline` keeps the line feed. -/
def readline (text : String) : String :=
  String.ofList (text.toList.takeWhile (· ≠ '\n') ++ ['\n'])

/-- What is left in the pipe behind the first line. -/
def afterLine (text : String) : String :=
  String.ofList (text.toList.dropWhile (· ≠ '\n')).tail

theorem hasLine_line (line more : String) : hasLine (line ++ "\n" ++ more) = true := by
  simp [hasLine]

theorem length_afterLine_lt {text : String} (h : hasLine text = true) :
    (afterLine text).length < text.length := by
  have hmem : '\n' ∈ text.toList := by simpa [hasLine] using h
  have hdrop : text.toList.dropWhile (· ≠ '\n') ≠ [] := by
    intro hnil
    have hall := List.dropWhile_eq_nil_iff.mp hnil '\n' hmem
    simp at hall
  have hle := (List.dropWhile_suffix (· ≠ '\n') (l := text.toList)).length_le
  have hpos := List.length_pos_iff.mpr hdrop
  rw [afterLine, String.length_ofList, List.length_tail, ← String.length_toList]
  omega

section OneLine

variable {line : String} (h : '\n' ∉ line.toList) (more : String)

include h

theorem takeWhile_line : (line ++ "\n" ++ more).toList.takeWhile (· ≠ '\n') = line.toList := by
  have hall : ∀ c ∈ line.toList, decide (c ≠ '\n') = true := fun c hc =>
    decide_eq_true fun heq => h (heq ▸ hc)
  rw [String.toList_append, String.toList_append, List.append_assoc,
    List.takeWhile_append_of_pos hall]
  exact List.append_nil _

theorem readline_line : readline (line ++ "\n" ++ more) = line ++ "\n" := by
  rw [readline, takeWhile_line h]
  apply String.ext
  simp

theorem afterLine_line : afterLine (line ++ "\n" ++ more) = more := by
  have hall : ∀ c ∈ line.toList, decide (c ≠ '\n') = true := fun c hc =>
    decide_eq_true fun heq => h (heq ▸ hc)
  rw [afterLine, String.toList_append, String.toList_append, List.append_assoc,
    List.dropWhile_append_of_pos hall]
  exact String.ofList_toList

end OneLine

namespace PanClient.Agrees

variable {client : PanClient} {J : JsonText} {obj : Value} (h : client.Agrees J obj)
  (more : String)

include h

theorem getLast_ne_cr : (client.dumps obj).toList.getLast? ≠ some '\r' := by
  obtain ⟨inner, hinner⟩ := h.braces
  rw [hinner, List.getLast?_concat]
  decide

theorem nextLine_append : nextLine (client.dumps obj ++ "\n" ++ more) = client.dumps obj := by
  rw [nextLine, takeWhile_line h.oneLine, if_neg h.getLast_ne_cr, String.ofList_toList]

theorem lines_append :
    lines (client.dumps obj ++ "\n" ++ more) = client.dumps obj :: lines more := by
  have htext : client.dumps obj ++ "\n" ++ more =
      String.ofList ((client.dumps obj).toList ++ '\n' :: more.toList) := by
    apply String.ext
    simp
  rw [htext, Pan.lines_append h.oneLine h.getLast_ne_cr, String.ofList_toList,
    String.ofList_toList]

end PanClient.Agrees

/-! ## The skill -/

namespace PanClient

variable (client : PanClient)

def returnMessage (value : Value) : Value :=
  .object [("type", .string "return"), ("value", value)]

/-- Return a value to the host. The process goes on. -/
def done (value : Value) : Eff String PanState PUnit := client.send (returnMessage value)

/-- What a call makes of the line that it reads. -/
def answered (rid : ℕ) (line : String) : Except PanException Value :=
  match client.loads line with
  | .ok resp => client.receive rid resp
  | .error e => .error (.jsonDecodeError e)

def hostClosed : Except PanException Value := .error (.eofError "pan host closed the connection")

/-- A call writes its message and makes its result of the next line. -/
theorem invoke_apply (capability : String) (args : Value) (n : ℕ) (stdin : List String) :
    client.invoke capability args ⟨n, stdin⟩ =
      ([client.dumps (invokeMessage (n + 1) capability args) ++ "\n"], some (match stdin with
        | [] => (hostClosed, ⟨n + 1, []⟩)
        | line :: stdin => (client.answered (n + 1) line, ⟨n + 1, stdin⟩))) := by
  unfold invoke send recv
  rw [Eff.bind_of_some rfl, Eff.bind_of_some rfl]
  cases stdin with
  | nil => rfl
  | cons line stdin =>
    rw [Eff.bind_eq]
    unfold answered
    rcases hloads : client.loads line with e | resp <;> simp [hloads]

end PanClient

/-- What a call writes before it waits for anything. -/
def PanClient.text {α : Type} (call : Eff String PanState α) (n : ℕ) : String :=
  String.join (call ⟨n, []⟩).1

theorem PanClient.text_done (client : PanClient) (value : Value) (n : ℕ) :
    text (client.done value) n = client.dumps (returnMessage value) ++ "\n" :=
  String.empty_append

theorem PanClient.text_invoke (client : PanClient) (capability : String) (args : Value) (n : ℕ) :
    text (client.invoke capability args) n =
      client.dumps (invokeMessage (n + 1) capability args) ++ "\n" := by
  rw [text, invoke_apply]
  exact String.empty_append

/-- A skill that leaves its stdout to `pan`: what it does next, given how its calls ended. -/
inductive SkillProgram where
  | exit (exit : SkillExit)
  | done (value : Value) (rest : SkillProgram)
  | invoke (capability : String) (args : Value)
      (resume : Except PanException Value → SkillProgram)

/-- The process of a skill, with the number of its calls. -/
inductive SkillSide where
  | running (counter : ℕ) (p : SkillProgram)
  /-- In the `readline` of a call. -/
  | waiting (counter : ℕ) (capability : String) (args : Value)
      (resume : Except PanException Value → SkillProgram)
  | exited (exit : SkillExit)

/-- The loop of the runner. When it is over the skill's stdin is closed, and its stdout stays open
but is not read any more. -/
inductive HostSide where
  | listening
  /-- The invoker never comes back. -/
  | stuck
  | closed (outcome : Except SkillError Value)

structure SkillTalk (W : Type) where
  skill : SkillSide
  /-- Written by the skill and not yet read. -/
  stdout : String
  /-- An answer is read while it is written, so this pipe never fills up. -/
  stdin : String
  host : HostSide
  trace : List SkillAction
  world : W
  /-- All that the skill has written. -/
  written : String

inductive Party where
  | skill
  | host
  deriving DecidableEq

instance : Fintype Party := ⟨{.skill, .host}, fun p => by cases p <;> simp⟩

namespace SkillTalk

variable {W : Type} (client : PanClient) (H : SkillHost) (invoker : ScopedInvoker W)
  (capacity : ℕ)

/-- The host takes in whatever comes, up to the end of a line. -/
def drains (s : SkillTalk W) : Bool :=
  match s.host with
  | .listening => !hasLine s.stdout
  | _ => false

/-- There is room for the text, in bytes. What the host has taken in beyond its line is counted as
still in the pipe. -/
def Takes (s : SkillTalk W) (text : String) : Prop :=
  s.drains = true ∨ (s.stdout ++ text).utf8ByteSize ≤ capacity

instance (s : SkillTalk W) (text : String) : Decidable (s.Takes capacity text) :=
  inferInstanceAs (Decidable (_ ∨ _))

/-- The skill is blocked in a write as long as there is no room. -/
def write (s : SkillTalk W) (text : String) (next : SkillSide) : SkillTalk W :=
  if s.Takes capacity text then
    { s with skill := next, stdout := s.stdout ++ text, written := s.written ++ text }
  else s

def resumed (n : ℕ) (capability : String) (args : Value)
    (resume : Except PanException Value → SkillProgram) (stdin : List String) : SkillSide :=
  match (client.invoke capability args ⟨n, stdin⟩).2 with
  | some (result, state) => .running state.counter (resume result)
  | none => .waiting n capability args resume

def skillStep (s : SkillTalk W) : SkillTalk W :=
  match s.skill with
  | .running _ (.exit exit) => { s with skill := .exited exit }
  | .running n (.done value rest) =>
    s.write capacity (PanClient.text (client.done value) n) (.running n rest)
  | .running n (.invoke capability args resume) =>
    s.write capacity (PanClient.text (client.invoke capability args) n)
      (.waiting n capability args resume)
  | .waiting n capability args resume =>
    -- `readline` blocks until there is a whole line or the other end has been closed
    if hasLine s.stdin then
      { s with
        skill := resumed client n capability args resume [readline s.stdin],
        stdin := afterLine s.stdin }
    else match s.host with
      | .closed _ =>
        { s with
          skill := resumed client n capability args resume
            (if s.stdin = "" then [] else [s.stdin]),
          stdin := "" }
      | _ => s
  | .exited _ => s

def hear (line : String) (s : SkillTalk W) : SkillTalk W :=
  match H.event (.ok line) with
  | .blank => s
  -- the read loop is left; what the skill still writes stays in the pipe
  | .ending outcome => { s with host := .closed outcome }
  | .request r =>
    match invoker r.capability r.args s.world with
    -- an invoker that never returns leaves the skill waiting
    | (actions, none) =>
      { s with
        host := .stuck,
        trace := s.trace ++ .invoke r.capability r.args :: actions.map .acted }
    | (actions, some (outcome, w)) =>
      { s with
        stdin := s.stdin ++ H.answer r.id outcome,
        trace := s.trace ++ (.invoke r.capability r.args :: actions.map .acted ++
          [.write (H.answer r.id outcome)]),
        world := w }

variable {H invoker} in
/-- What the runner makes of a request. -/
theorem hear_request {s : SkillTalk W} {line : String} {r : SkillRequest}
    (hevent : H.event (.ok line) = .request r) :
    hear H invoker line s = match invoker r.capability r.args s.world with
      | (actions, none) =>
        { s with
          host := .stuck,
          trace := s.trace ++ .invoke r.capability r.args :: actions.map .acted }
      | (actions, some (outcome, w)) =>
        { s with
          stdin := s.stdin ++ H.answer r.id outcome,
          trace := s.trace ++ (.invoke r.capability r.args :: actions.map .acted ++
            [.write (H.answer r.id outcome)]),
          world := w } := by
  unfold hear
  rw [hevent]

/-- `next_line` waits for a whole line, or for the end of what the skill writes. -/
def hostStep (s : SkillTalk W) : SkillTalk W :=
  match s.host, s.skill with
  | .listening, .exited _ =>
    if hasLine s.stdout then
      hear H invoker (nextLine s.stdout) { s with stdout := afterLine s.stdout }
    else if s.stdout = "" then { s with host := .closed (.error (.noReturn "" none)) }
    else hear H invoker s.stdout { s with stdout := "" }
  | .listening, _ =>
    if hasLine s.stdout then
      hear H invoker (nextLine s.stdout) { s with stdout := afterLine s.stdout }
    else s
  | _, _ => s

def step (s : SkillTalk W) : Party → SkillTalk W
  | .skill => s.skillStep client capacity
  | .host => s.hostStep H invoker

/-- What the runner returns, once its loop is over and the skill has exited. -/
def result (s : SkillTalk W) : Option (Except SkillError Value × W) :=
  match s.host, s.skill with
  | .closed outcome, .exited exit => some (exit.enrich outcome, s.world)
  | _, _ => none

end SkillTalk

/-- A skill and its host, from the start of the process, with a stdout that holds so many bytes. -/
def talk {W : Type} (client : PanClient) (H : SkillHost) (invoker : ScopedInvoker W)
    (capacity : ℕ) (p : SkillProgram) (w : W) : Machine (SkillTalk W) Party where
  init := ⟨.running 0 p, "", "", .listening, [], w, ""⟩
  step := SkillTalk.step client H invoker capacity

/-! ## The skill as a program of the invoker -/

/-- What is seen of the invoker and the world; not the answers in the pipe. -/
def SkillAction.seen? : SkillAction → Option SkillAction
  | write _ => none
  | a => some a

namespace SkillProgram

/-- The program with every call of `pan` a call of the invoker. -/
def direct {W : Type} (invoker : ScopedInvoker W) :
    SkillProgram → Eff SkillAction W (Except SkillError Value)
  | exit e => return .error (.noReturn e.stderr e.code)
  | done value _ => return .ok value.collect
  | invoke capability args resume => do
    let args := (Python.or args (.object [])).collect
    Eff.emit (.invoke capability args)
    let outcome ← (invoker capability args).mapActions .acted
    direct invoker (resume (outcome.mapError PanClient.raised))

end SkillProgram

def answerMessage (id : ℕ) : Except InvokeError Value → Value
  | .ok value => resultMessage id true (some value) none
  | .error err => resultMessage id false none (some (invokeErrorInfo err))

/-- The invoker may answer so. -/
def CanAnswer {W : Type} (invoker : ScopedInvoker W) (capability : String) (args : Value)
    (outcome : Except InvokeError Value) : Prop :=
  ∃ w w', (invoker capability args w).2 = some (outcome, w')

/-- What the skill writes when nobody answers: a call finds its stdin closed. -/
def SkillProgram.unanswered (client : PanClient) : ℕ → SkillProgram → String
  | _, exit _ => ""
  | n, done value rest => PanClient.text (client.done value) n ++ rest.unanswered client n
  | n, invoke capability args resume =>
    PanClient.text (client.invoke capability args) n ++
      (resume PanClient.hostClosed).unanswered client (n + 1)

/-- Up to the first `done`, the JSON of either side is read by the other, and takes one line. What
comes after it fits in the pipe, in bytes. -/
inductive SkillProgram.Spoken {W : Type} (client : PanClient) (H : SkillHost)
    (invoker : ScopedInvoker W) (capacity : ℕ) : ℕ → SkillProgram → Prop where
  | exit (n : ℕ) (e : SkillExit) : Spoken client H invoker capacity n (.exit e)
  | done {n : ℕ} {value : Value} {rest : SkillProgram}
      (h : client.Agrees H.json (PanClient.returnMessage value))
      (hrest : (rest.unanswered client n).utf8ByteSize ≤ capacity) :
      Spoken client H invoker capacity n (.done value rest)
  | invoke {n : ℕ} {capability : String} {args : Value}
      {resume : Except PanException Value → SkillProgram}
      (h : client.Agrees H.json (PanClient.invokeMessage (n + 1) capability args))
      (hanswer : ∀ outcome, CanAnswer invoker capability
        (Python.or args (.object [])).collect outcome →
        '\n' ∉ (H.json.write (answerMessage (n + 1) outcome)).toList ∧
        client.loads (H.json.write (answerMessage (n + 1) outcome) ++ "\n") =
          .ok (answerMessage (n + 1) outcome))
      (hresume : ∀ outcome, CanAnswer invoker capability
        (Python.or args (.object [])).collect outcome →
        Spoken client H invoker capacity (n + 1) (resume (outcome.mapError PanClient.raised))) :
      Spoken client H invoker capacity n (.invoke capability args resume)

/-! ## What each side makes of a message -/

section Messages

variable {client : PanClient} {H : SkillHost}

theorem SkillHost.answer_eq (H : SkillHost) (id : ℕ) (outcome : Except InvokeError Value) :
    H.answer id outcome = H.json.write (answerMessage id outcome) ++ "\n" := by
  cases outcome <;> rfl

/-- The client takes an answer to its request for what the invoker made of it. -/
theorem PanClient.receive_answerMessage (id : ℕ) (outcome : Except InvokeError Value) :
    client.receive id (answerMessage id outcome) = outcome.mapError raised := by
  have hequal : Python.equalsNat (natTree id) id = true := beq_self_eq_true id
  have hmembers : ∀ ok value error, (resultMessage id ok value error).get "type" =
      some (.string RESULT_TYPE) ∧ (resultMessage id ok value error).get "id" =
      some (natTree id) ∧ (resultMessage id ok value error).get "ok" = some (.bool ok) ∧
      (resultMessage id ok value error).get "value" = value ∧
      (resultMessage id ok value error).get "error" = error := by
    intro ok value error
    cases value <;> cases error <;> simp [resultMessage, Value.get_ofFields, SortedMap.last]
  cases outcome with
  | ok value =>
    obtain ⟨htype, hid, hok, hvalue, -⟩ := hmembers true (some value) none
    unfold receive answerMessage
    dsimp only
    rw [Python.isObject_of_get htype, htype, hid, hok, hvalue, Option.getD_some, hequal]
    rfl
  | error err =>
    obtain ⟨htype, hid, hok, -, herror⟩ := hmembers false none (some (invokeErrorInfo err))
    have hkind : (invokeErrorInfo err).get "kind" = some (.string err.kind) := by
      simp [invokeErrorInfo, Value.get_ofFields, SortedMap.last]
    have hmessage : (invokeErrorInfo err).get "message" = some (.string err.display) := by
      simp [invokeErrorInfo, Value.get_ofFields, SortedMap.last]
    have hor : Python.or (invokeErrorInfo err) (.object []) = invokeErrorInfo err :=
      if_pos (Python.truthy_of_get hkind)
    unfold receive answerMessage
    dsimp only
    rw [Python.isObject_of_get htype, htype, hid, hok, herror, Option.getD_some,
      Option.getD_some, Option.getD_some, hequal, hor]
    rw [Python.isObject_of_get hkind, hkind, hmessage]
    cases err <;> rfl

theorem SkillHost.event_returnMessage {value : Value}
    (h : client.Agrees H.json (PanClient.returnMessage value)) :
    H.event (.ok (client.dumps (PanClient.returnMessage value))) = .ending (.ok value.collect) := by
  have hblank : isBlank (client.dumps (PanClient.returnMessage value)) = false := by
    obtain ⟨inner, hinner⟩ := h.braces
    rw [isBlank, hinner]
    rfl
  have hdecode : FromSkill.decode (PanClient.returnMessage value) =
      some (.return value.collect) := by
    simp [PanClient.returnMessage, FromSkill.decode, uniqueMember, Value.asStr]
  rw [event, hblank, FromSkill.fromStr, h.read, Option.bind_some, hdecode]
  rfl

end Messages

end Pan
