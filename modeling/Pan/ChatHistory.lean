import Pan.Transcript

namespace Pan

/-- The `Message` of a chat request. -/
structure ChatMessage where
  role : String
  content : String

structure ChatCompletionsRequest where
  model : String
  messages : List ChatMessage
  stream : Bool
  instruction : Option String

structure Conversion where
  instruction : String
  history : List Value
  lastUserContent : String

def Conversion.step (c : Conversion) (msg : ChatMessage) : Conversion :=
  match msg.role with
  | "system" => { c with instruction := msg.content }
  | "user" => { c with
      lastUserContent := msg.content
      history := c.history ++ [.chatMessage "user" msg.content] }
  | "assistant" => { c with history := c.history ++ [.chatMessage "assistant" msg.content] }
  | _ => c

def historyFragments (J : JsonText) (history : List Value) : List Fragment :=
  if history.isEmpty then [] else [⟨"history", J.write (.array history)⟩]

/-- `nanos` is the time since the epoch. -/
def messagesToGoalAndContext (J : JsonText) (nanos : ℕ) (messages : List ChatMessage)
    (req : ChatCompletionsRequest) : Goal × Context :=
  let c := messages.foldl Conversion.step ⟨req.instruction.getD "", [], ""⟩
  let goal : Goal :=
    ⟨s!"chat-{nanos}", 0, c.lastUserContent, .utterance "user" c.lastUserContent⟩
  let persona : List Fragment :=
    if isBlank c.instruction then [] else [⟨"persona", c.instruction⟩]
  (goal, ⟨persona ++ historyFragments J c.history.dropLast⟩)

/-! ## What the messages become -/

/-- A message of the user or of the assistant, as it is handed on. -/
def ChatMessage.turn (msg : ChatMessage) : Option Value :=
  if msg.role = "user" ∨ msg.role = "assistant" then some (.chatMessage msg.role msg.content)
  else none

def ChatMessage.isTurn (msg : ChatMessage) : Bool := msg.turn.isSome

theorem Conversion.step_history (c : Conversion) (msg : ChatMessage) :
    (c.step msg).history = c.history ++ msg.turn.toList := by
  unfold step
  split
  case h_1 hrole => simp [ChatMessage.turn, hrole]
  case h_2 hrole => simp [ChatMessage.turn, hrole]
  case h_3 hrole => simp [ChatMessage.turn, hrole]
  case h_4 _ huser hassistant =>
    have hrole : ¬(msg.role = "user" ∨ msg.role = "assistant") := not_or.mpr ⟨huser, hassistant⟩
    simp [ChatMessage.turn, hrole]

theorem Conversion.step_lastUserContent (c : Conversion) (msg : ChatMessage) :
    (c.step msg).lastUserContent =
      if msg.role = "user" then msg.content else c.lastUserContent := by
  unfold step
  split
  case h_1 hrole => simp [hrole]
  case h_2 hrole => simp [hrole]
  case h_3 hrole => simp [hrole]
  case h_4 _ huser _ => exact (if_neg huser).symm

theorem Conversion.foldl_history (messages : List ChatMessage) (c : Conversion) :
    (messages.foldl step c).history = c.history ++ messages.filterMap ChatMessage.turn := by
  induction messages generalizing c with
  | nil => simp
  | cons msg messages ih =>
    rw [List.foldl_cons, ih, step_history]
    cases h : msg.turn <;> simp [h]

theorem Conversion.foldl_lastUserContent {messages : List ChatMessage}
    (h : ∀ msg ∈ messages, msg.role ≠ "user") (c : Conversion) :
    (messages.foldl step c).lastUserContent = c.lastUserContent := by
  induction messages generalizing c with
  | nil => rfl
  | cons msg messages ih =>
    have hmsg : msg.role ≠ "user" := h msg (by simp)
    rw [List.foldl_cons, ih fun m hm => h m (by simp [hm]), step_lastUserContent, if_neg hmsg]

/-- The last message of a user is the goal, and the turns before it are the history. -/
def Extracts (J : JsonText) (messages : List ChatMessage) (r : Goal × Context) : Prop :=
  ∃ before last after, messages = before ++ last :: after ∧ last.role = "user" ∧
    (∀ msg ∈ after, msg.role ≠ "user") ∧
    r.1.objective = last.content ∧ r.1.trigger = .utterance "user" last.content ∧
    r.2.fragments.filter (fun f => f.channel = "history") =
      historyFragments J (before.filterMap ChatMessage.turn)

def EndsWithUser (messages : List ChatMessage) : Prop :=
  ∃ msg ∈ (messages.filter ChatMessage.isTurn).getLast?, msg.role = "user"

theorem exists_last_user {messages : List ChatMessage} (h : ∃ msg ∈ messages, msg.role = "user") :
    ∃ before last after, messages = before ++ last :: after ∧ last.role = "user" ∧
      ∀ msg ∈ after, msg.role ≠ "user" := by
  induction messages with
  | nil => simp at h
  | cons msg messages ih =>
    by_cases hlater : ∃ m ∈ messages, m.role = "user"
    · obtain ⟨before, last, after, rfl, hlast, hafter⟩ := ih hlater
      exact ⟨msg :: before, last, after, rfl, hlast, hafter⟩
    · have hmsg : msg.role = "user" := by
        obtain ⟨m, hm, hrole⟩ := h
        rcases List.mem_cons.mp hm with rfl | hm
        · exact hrole
        · exact absurd ⟨m, hm, hrole⟩ hlater
      exact ⟨[], msg, messages, rfl, hmsg, fun m hm hrole => hlater ⟨m, hm, hrole⟩⟩

/-- A history that goes on is written as another text. -/
theorem historyFragments_append_ne (J : JsonText) (xs : List Value) (y : Value) (ys : List Value) :
    historyFragments J (xs ++ y :: ys) ≠ historyFragments J xs := by
  intro h
  unfold historyFragments at h
  cases xs with
  | nil => simp at h
  | cons x xs =>
    have htext : J.write (.array (x :: xs ++ y :: ys)) = J.write (.array (x :: xs)) := by
      simpa using h
    have hlength := congrArg (fun text => text.toList.length) htext
    simp only [JsonText.write, String.toList_ofList, JsonText.chars] at hlength
    rw [JsonText.elements_append J (List.cons_ne_nil x xs) (List.cons_ne_nil y ys)] at hlength
    simp only [List.length_cons, List.length_append] at hlength
    omega

theorem historyFragments_dropLast_iff (J : JsonText) (xs : List Value) (y : Value)
    (ys : List Value) :
    historyFragments J (xs ++ y :: ys).dropLast = historyFragments J xs ↔ ys = [] := by
  cases ys with
  | nil => simp
  | cons z zs =>
    have hdrop : (xs ++ y :: z :: zs).dropLast = xs ++ y :: (z :: zs).dropLast := by
      rw [List.dropLast_append_of_ne_nil (by simp), List.dropLast_cons_cons]
    rw [hdrop]
    exact iff_of_false (historyFragments_append_ne J xs y _) (by simp)

/-- The fragment of the persona is on another channel. -/
theorem filter_history (J : JsonText) (instruction : String) (history : List Value) :
    ((if isBlank instruction then [] else [⟨"persona", instruction⟩]) ++
      historyFragments J history : List Fragment).filter (fun f => f.channel = "history") =
      historyFragments J history := by
  unfold historyFragments
  split <;> split <;> simp

section Split

variable {before after : List ChatMessage} {last : ChatMessage}

theorem endsWithUser_split (hlast : last.role = "user")
    (hafter : ∀ msg ∈ after, msg.role ≠ "user") :
    EndsWithUser (before ++ last :: after) ↔ after.filterMap ChatMessage.turn = [] := by
  have hturn : last.isTurn = true := by simp [ChatMessage.isTurn, ChatMessage.turn, hlast]
  have hnone : after.filterMap ChatMessage.turn = [] ↔ after.filter ChatMessage.isTurn = [] := by
    simp [List.filterMap_eq_nil_iff, List.filter_eq_nil_iff, ChatMessage.isTurn]
  unfold EndsWithUser
  rw [hnone, List.filter_append, List.filter_cons_of_pos hturn, List.getLast?_append,
    List.getLast?_cons]
  cases h : (after.filter ChatMessage.isTurn).getLast? with
  | none =>
    rw [List.getLast?_eq_none_iff] at h
    simp [h, hlast]
  | some msg =>
    have hmem : msg ∈ after := List.mem_of_mem_filter (List.mem_of_getLast? h)
    have hne : after.filter ChatMessage.isTurn ≠ [] := by
      intro hnil
      simp [hnil] at h
    simp [hne, hafter msg hmem]

theorem extracts_split (J : JsonText) (nanos : ℕ) (req : ChatCompletionsRequest)
    (hlast : last.role = "user") (hafter : ∀ msg ∈ after, msg.role ≠ "user") :
    (messagesToGoalAndContext J nanos (before ++ last :: after) req).1.objective = last.content ∧
    (messagesToGoalAndContext J nanos (before ++ last :: after) req).1.trigger =
      .utterance "user" last.content ∧
    ((messagesToGoalAndContext J nanos (before ++ last :: after) req).2.fragments.filter
        (fun f => f.channel = "history") = historyFragments J (before.filterMap ChatMessage.turn) ↔
      after.filterMap ChatMessage.turn = []) := by
  have huser : ((before ++ last :: after).foldl Conversion.step
      ⟨req.instruction.getD "", [], ""⟩).lastUserContent = last.content := by
    rw [List.foldl_append, List.foldl_cons, Conversion.foldl_lastUserContent hafter,
      Conversion.step_lastUserContent, if_pos hlast]
  have hturn : last.turn = some (.chatMessage last.role last.content) := by
    simp [ChatMessage.turn, hlast]
  unfold messagesToGoalAndContext
  dsimp only
  rw [huser, filter_history, Conversion.foldl_history, List.nil_append, List.filterMap_append,
    List.filterMap_cons_some hturn, historyFragments_dropLast_iff]
  exact ⟨rfl, rfl, Iff.rfl⟩

end Split

theorem endsWithUser_of_extracts {J : JsonText} {nanos : ℕ} {req : ChatCompletionsRequest}
    {messages : List ChatMessage}
    (h : Extracts J messages (messagesToGoalAndContext J nanos messages req)) :
    EndsWithUser messages := by
  obtain ⟨before, last, after, rfl, hlast, hafter, -, -, hhistory⟩ := h
  rw [endsWithUser_split hlast hafter]
  exact (extracts_split J nanos req hlast hafter).2.2.mp hhistory

/-- The history is that before the last message of a user exactly if no answer follows it. -/
theorem extracts_iff (J : JsonText) (nanos : ℕ) (req : ChatCompletionsRequest)
    {messages : List ChatMessage} (h : ∃ msg ∈ messages, msg.role = "user") :
    Extracts J messages (messagesToGoalAndContext J nanos messages req) ↔
      EndsWithUser messages := by
  refine ⟨endsWithUser_of_extracts, fun hends => ?_⟩
  obtain ⟨before, last, after, rfl, hlast, hafter⟩ := exists_last_user h
  rw [endsWithUser_split hlast hafter] at hends
  obtain ⟨hobjective, htrigger, hhistory⟩ := extracts_split J nanos req hlast hafter
  exact ⟨before, last, after, rfl, hlast, hafter, hobjective, htrigger, hhistory.mpr hends⟩

def weatherRequest : ChatCompletionsRequest where
  model := "echo"
  messages := [⟨"user", "Check weather"⟩, ⟨"assistant", "72 degrees."⟩]
  stream := false
  instruction := none

def noFloats : JsonText := ⟨fun _ => "", fun _ => none⟩

theorem extracts_iff_weather :
    Extracts noFloats weatherRequest.messages
        (messagesToGoalAndContext noFloats 0 weatherRequest.messages weatherRequest) ↔
      EndsWithUser weatherRequest.messages :=
  extracts_iff noFloats 0 weatherRequest ⟨⟨"user", "Check weather"⟩, .head _, rfl⟩

/-- The answer is taken away, and the question is goal and history at once. -/
theorem weather_not_extracted : ¬Extracts noFloats weatherRequest.messages
    (messagesToGoalAndContext noFloats 0 weatherRequest.messages weatherRequest) := by
  intro h
  obtain ⟨msg, hmsg, huser⟩ := endsWithUser_of_extracts h
  obtain rfl : (⟨"assistant", "72 degrees."⟩ : ChatMessage) = msg := Option.some.inj hmsg
  simp at huser

end Pan
