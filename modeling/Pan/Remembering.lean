import Pan.Anthropic
import Pan.ChatHistory
import Pan.OpenAi
import Pan.Replay
import Pan.RollingHistory
import Pan.SessionFiles

namespace Pan

/-! ## The session assembler -/

/-- The messages of a turn: the objective, and all that was expressed as one. -/
def SessionTurn.messages (turn : SessionTurn) : List Value :=
  [.chatMessage "user" turn.objective, .chatMessage "assistant" ("\n".intercalate turn.expressed)]

/-- `SessionContextAssembler::assemble` -/
def SessionStore.assemble (J : JsonText) (s : SessionStore) (_goal : Goal) : Context :=
  if s.turns.isEmpty then ⟨[]⟩
  else ⟨[⟨"history", J.write (.array (s.turns.flatMap SessionTurn.messages))⟩]⟩

/-- `SessionContextAssembler::commit` -/
def StoreEvent.commit (ts : ℕ) (w : FileWrite) (goal : Goal) (report : RunReport) : StoreEvent :=
  .append ts goal report.expressed report.results w

/-! ## Messages of a user and of an assistant -/

theorem Value.str_role_chatMessage (role content : String) :
    (Value.chatMessage role content).str "role" = some role := by
  unfold Value.chatMessage Value.str
  rw [Value.get_ofFields]
  rfl

theorem Value.str_content_chatMessage (role content : String) :
    (Value.chatMessage role content).str "content" = some content := by
  unfold Value.chatMessage Value.str
  rw [Value.get_ofFields]
  rfl

def IsChatTurn (v : Value) : Prop :=
  ∃ role content, (role = "user" ∨ role = "assistant") ∧ v = .chatMessage role content

namespace IsChatTurn

variable {v : Value} (h : IsChatTurn v)

include h

theorem isTurn : isTurn v = true := by
  obtain ⟨role, content, hrole, rfl⟩ := h
  unfold Pan.isTurn
  rw [Value.str_role_chatMessage]
  rcases hrole with rfl | rfl
  · rfl
  · rfl

/-- Anthropic's messages are rebuilt as they were. -/
theorem historyMessage : Anthropic.historyMessage v = v := by
  obtain ⟨role, content, hrole, rfl⟩ := h
  unfold Anthropic.historyMessage
  rw [Value.str_role_chatMessage, Value.str_content_chatMessage]
  rcases hrole with rfl | rfl
  · rfl
  · rfl

theorem inMemory : v.InMemory := by
  obtain ⟨role, content, -, rfl⟩ := h
  refine .object ?_ ?_
  · exact SortedMap.ascending_ofList _
  · intro m hm
    have hmem := SortedMap.mem_of_mem_ofList hm
    simp only [List.mem_cons, List.not_mem_nil, or_false] at hmem
    obtain rfl | rfl := hmem
    · exact .string role
    · exact .string content

theorem depth_le : v.depth ≤ 1 := by
  obtain ⟨role, content, -, rfl⟩ := h
  have hmembers : ∀ members : List (String × Value), (∀ m ∈ members, m.2.depth = 0) →
      Value.depthMembers members = 0 := by
    intro members
    induction members with
    | nil => exact fun _ => rfl
    | cons m members ih =>
      intro hall
      rw [Value.depthMembers, hall m (by simp), ih fun n hn => hall n (by simp [hn]), Nat.max_self]
  unfold Value.chatMessage Value.ofFields Value.depth
  rw [hmembers]
  intro m hm
  have hmem := SortedMap.mem_of_mem_ofList hm
  simp only [List.mem_cons, List.not_mem_nil, or_false] at hmem
  obtain rfl | rfl := hmem
  · rfl
  · rfl

end IsChatTurn

section Reading

variable {J : JsonText} {turns : List Value} (hturns : ∀ v ∈ turns, IsChatTurn v)

include hturns

theorem fragmentTurns_write (hread : J.ReadsBack (.array turns)) (channel : String) :
    fragmentTurns J ⟨channel, J.write (.array turns)⟩ = turns := by
  have hdepth : (Value.array turns).depth ≤ JsonText.NESTING_LIMIT := by
    have hall : ∀ vs : List Value, (∀ v ∈ vs, IsChatTurn v) → Value.depthAll vs ≤ 1 := by
      intro vs
      induction vs with
      | nil => exact fun _ => Nat.zero_le 1
      | cons v vs ih =>
        intro h
        exact max_le (h v (by simp)).depth_le (ih fun w hw => h w (by simp [hw]))
    have := hall turns hturns
    unfold Value.depth JsonText.NESTING_LIMIT
    omega
  have hmemory : (Value.array turns).InMemory := .array fun v hv => (hturns v hv).inMemory
  unfold fragmentTurns
  rw [JsonText.fromStr_write hmemory hdepth hread]
  exact List.filter_eq_self.mpr fun v hv => (hturns v hv).isTurn

theorem map_historyMessage : turns.map Anthropic.historyMessage = turns := by
  have hmap : ∀ v ∈ turns, Anthropic.historyMessage v = id v := fun v hv =>
    (hturns v hv).historyMessage
  rw [List.map_congr_left hmap, List.map_id]

end Reading

/-! ## From what was said to the request -/

/-- A goal with its context, and what they tell of the conversation so far. -/
inductive Remembered (J : JsonText) : Goal → Context → List Value → Prop
  /-- The client of the gateway sends the conversation with each request. -/
  | request (nanos : ℕ) (messages : List ChatMessage) (req : ChatCompletionsRequest) :
      Remembered J (messagesToGoalAndContext J nanos messages req).1
        (messagesToGoalAndContext J nanos messages req).2
        (messages.filterMap ChatMessage.turn).dropLast
  /-- It is kept in memory, since the agent was started. -/
  | rolling (maxTurns : UInt64) (turns : List (Goal × RunReport)) (goal : Goal) :
      Remembered J goal
        (((RollingConversationHistory.committing maxTurns).reached turns).assemble J goal)
        ((turns.flatMap RollingConversationHistory.entries).rtake
          (RollingConversationHistory.limit maxTurns))
  /-- It is kept in a session file that was fresh, however often that was opened again. -/
  | session {file : Option String} (hfile : file.getD "" = "") (maxTurns : ℕ)
      {es : List StoreEvent} (hes : ∀ e ∈ es, e.Succeeds J) (goal : Goal) :
      Remembered J goal (((sessionFile J file maxTurns).reached es).store.assemble J goal)
        (((es.filterMap StoreEvent.turn).rtake maxTurns).flatMap SessionTurn.messages)

namespace Remembered

variable {J : JsonText} {goal : Goal} {ctx : Context} {shown : List Value}
  (h : Remembered J goal ctx shown)

include h

theorem isChatTurn : ∀ v ∈ shown, IsChatTurn v := by
  cases h with
  | request nanos messages req =>
    intro v hv
    obtain ⟨msg, -, hmsg⟩ := List.mem_filterMap.mp (List.dropLast_subset _ hv)
    obtain ⟨hrole, hv⟩ := Option.ite_none_right_eq_some.mp hmsg
    exact ⟨msg.role, msg.content, hrole, (Option.some.inj hv).symm⟩
  | rolling maxTurns turns =>
    intro v hv
    obtain ⟨turn, -, hv⟩ := List.mem_flatMap.mp (List.mem_of_mem_drop hv)
    rcases List.mem_cons.mp hv with rfl | hv
    · exact ⟨"user", _, .inl rfl, rfl⟩
    · obtain ⟨body, -, rfl⟩ := List.mem_map.mp hv
      exact ⟨"assistant", body, .inr rfl, rfl⟩
  | session hfile maxTurns hes =>
    intro v hv
    obtain ⟨turn, -, hv⟩ := List.mem_flatMap.mp hv
    simp only [SessionTurn.messages, List.mem_cons, List.not_mem_nil, or_false] at hv
    rcases hv with rfl | rfl
    · exact ⟨"user", _, .inl rfl, rfl⟩
    · exact ⟨"assistant", _, .inr rfl, rfl⟩

/-- The context has the history in one fragment, if there is any, and no results of tools. -/
theorem fragments_eq : ∃ persona : List Fragment, (∀ f ∈ persona, f.channel = "persona") ∧
    ctx.fragments = persona ++ historyFragments J shown := by
  cases h with
  | request nanos messages req =>
    have hhistory : (messages.foldl Conversion.step
        ⟨req.instruction.getD "", [], ""⟩).history = messages.filterMap ChatMessage.turn :=
      Conversion.foldl_history messages _
    rw [← hhistory]
    refine ⟨_, ?_, rfl⟩
    intro f hf
    split at hf
    case isTrue => cases hf
    case isFalse => rw [List.mem_singleton.mp hf]
  | rolling maxTurns turns =>
    refine ⟨[], fun f hf => (List.not_mem_nil hf).elim, ?_⟩
    rw [RollingConversationHistory.assemble_reached]
    unfold historyFragments
    split <;> rfl
  | session hfile maxTurns hes =>
    refine ⟨[], fun f hf => (List.not_mem_nil hf).elim, ?_⟩
    unfold SessionStore.assemble
    rw [(SessionFile.keeps_reached hfile maxTurns hes).turns_eq]
    unfold historyFragments
    generalize List.rtake _ maxTurns = turns
    cases turns <;> rfl

theorem notTool : ∀ f ∈ ctx.fragments, f.channel ≠ toolResultChannel := by
  obtain ⟨persona, hpersona, hctx⟩ := h.fragments_eq
  intro f hf
  rw [hctx, List.mem_append] at hf
  rcases hf with hf | hf
  · rw [hpersona f hf]
    decide
  · unfold historyFragments at hf
    split at hf
    case isTrue => cases hf
    case isFalse =>
      rw [List.mem_singleton.mp hf]
      show "history" ≠ toolResultChannel
      decide

/-- What a provider takes out of the context is what was put into it. -/
theorem historyTurns_eq (hread : J.ReadsBack (.array shown)) : historyTurns J ctx = shown := by
  obtain ⟨persona, hpersona, hctx⟩ := h.fragments_eq
  have hnone : persona.filter (fun f => f.channel = historyChannel) = [] := by
    apply List.filter_eq_nil_iff.mpr
    intro f hf
    rw [hpersona f hf]
    decide
  unfold historyTurns
  rw [hctx, List.filter_append, hnone, List.nil_append]
  unfold historyFragments
  cases hshown : shown with
  | nil => rfl
  | cons v turns =>
    rw [← hshown]
    have hnotempty : ¬shown.isEmpty = true := by simp [hshown]
    have hkept : [(⟨"history", J.write (.array shown)⟩ : Fragment)].filter
        (fun f => f.channel = historyChannel) = [⟨"history", J.write (.array shown)⟩] := by
      simp [historyChannel]
    rw [if_neg hnotempty, hkept, List.flatMap_singleton]
    exact fragmentTurns_write h.isChatTurn hread "history"

end Remembered

/-! ## The requests -/

section Results

variable {fragments results : List Fragment}
  (hresults : ∀ f ∈ results, f.channel = toolResultChannel)

theorem replayFragments_append (replay : String → Option (Option (Value × Value)))
    (h : ∀ f ∈ fragments, f.channel ≠ toolResultChannel) (results : List Fragment) :
    replayFragments replay (fragments ++ results) = replayFragments replay results := by
  induction fragments with
  | nil => rfl
  | cons f fragments ih =>
    have hrest := ih fun g hg => h g (by simp [hg])
    rw [List.cons_append, replayFragments, if_pos (h f (by simp)), hrest]
    cases replayFragments replay results <;> rfl

include hresults

theorem historyTurns_append_results (J : JsonText) :
    historyTurns J ⟨fragments ++ results⟩ = historyTurns J ⟨fragments⟩ := by
  have hnone : results.filter (fun f => f.channel = historyChannel) = [] := by
    apply List.filter_eq_nil_iff.mpr
    intro f hf
    rw [hresults f hf]
    decide
  unfold historyTurns
  rw [List.filter_append, hnone, List.append_nil]

theorem systemPrompt_append (instruction : String) (goal : Goal) :
    systemPrompt instruction goal ⟨fragments ++ results⟩ =
      systemPrompt instruction goal ⟨fragments⟩ := by
  have hnone : results.filter (fun f =>
      f.channel ≠ toolResultChannel ∧ f.channel ≠ historyChannel) = [] := by
    apply List.filter_eq_nil_iff.mpr
    intro f hf
    simp [hresults f hf]
  unfold systemPrompt
  rw [List.filter_append, hnone, List.append_nil]

end Results

/-- However the conversation is remembered, and however many results of tools have come since,
either provider shows the model just what is remembered, in order, between the system prompt and
what starts the goal. -/
theorem conversation_shown {J : JsonText} {goal : Goal} {ctx : Context} {shown : List Value}
    (h : Remembered J goal ctx shown) (hread : J.ReadsBack (.array shown))
    (displayF64 : F64 → String) (instruction : String) (results : List Fragment)
    (hresults : ∀ f ∈ results, f.channel = toolResultChannel) :
    let user := Value.chatMessage "user" (triggerToText J displayF64 goal.trigger)
    OpenAi.buildMessages J displayF64 instruction goal ⟨ctx.fragments ++ results⟩ =
        (replayFragments (OpenAi.replayExchange J) results).map (fun exchanges =>
          .chatMessage "system" (systemPrompt instruction goal ctx) ::
            (shown ++ user :: exchanges)) ∧
      Anthropic.buildMessages J displayF64 instruction goal ⟨ctx.fragments ++ results⟩ =
        (replayFragments (Anthropic.replayToolExchange J) results).map (fun exchanges =>
          (systemPrompt instruction goal ctx, shown ++ user :: exchanges)) := by
  intro user
  have hhistory : historyTurns J ⟨ctx.fragments ++ results⟩ = shown :=
    (historyTurns_append_results hresults J).trans (h.historyTurns_eq hread)
  have hsystem : systemPrompt instruction goal ⟨ctx.fragments ++ results⟩ =
      systemPrompt instruction goal ctx := systemPrompt_append hresults instruction goal
  constructor
  · unfold OpenAi.buildMessages
    rw [replayFragments_append _ h.notTool, hhistory, hsystem]
    cases replayFragments (OpenAi.replayExchange J) results <;> rfl
  · unfold Anthropic.buildMessages
    rw [replayFragments_append _ h.notTool, hhistory, hsystem, map_historyMessage h.isChatTurn]
    cases replayFragments (Anthropic.replayToolExchange J) results <;> rfl

/-! ### A greeting that is remembered in each way -/

namespace Greeting

def messages : List Value := [.chatMessage "user" "Hi", .chatMessage "assistant" "Hello"]

def messagesText : String :=
  "[\x7b\"content\":\"Hi\",\"role\":\"user\"\x7d,\x7b\"content\":\"Hello\"," ++
    "\"role\":\"assistant\"\x7d]"

def turn : SessionTurn := ⟨1, "g", "Hi", ["Hello"], []⟩

def turnText : String :=
  "\x7b\"ts\":1,\"goal_id\":\"g\",\"objective\":\"Hi\",\"expressed\":[\"Hello\"]," ++
    "\"results\":[]\x7d"

def json : JsonText := .readsOnly [(messagesText, .array messages), (turnText, turn.toTree),
  (resultLine, echoFragment echoedArgs (.ok .null))]

theorem read_of_mem {text : String} {t : Value} (h : (text, t) ∈ [(messagesText, .array messages),
    (turnText, turn.toTree), (resultLine, echoFragment echoedArgs (.ok .null))]) :
    json.read text = some t :=
  JsonText.read_readsOnly (by decide) h

theorem readsBack_messages : json.ReadsBack (.array messages) := by
  intro _ _
  have hline : json.write (.array messages) = messagesText := by decide
  rw [hline]
  exact read_of_mem (by simp)

theorem turn_onOneLine : turn.OnOneLine json := by
  refine SessionTurn.onOneLine ⟨by decide, by simp [turn]⟩ JsonText.floatsOnOneLine_readsOnly
    (fun _ _ => ?_) (by decide)
  have hline : json.write turn.toTree = turnText := by decide
  rw [hline]
  exact read_of_mem (by simp)

def goal : Goal := ⟨"g", 0, "Hi", .utterance "user" "Hi"⟩

def report : RunReport := { RunReport.empty with expressed := ["Hello"] }

def commits : List StoreEvent := [.commit 1 .whole goal report, .reopen]

def echoed : List Fragment := [⟨toolResultChannel, resultLine⟩]

def exchange : Exchange := ⟨"c1", "cap_echo", argsLine, "null"⟩

theorem replayFragments_echoed : replayFragments (OpenAi.replayExchange json) echoed =
    some [OpenAi.assistantMessage exchange, OpenAi.toolMessage exchange] := by
  have hread : json.read resultLine = some (echoFragment echoedArgs (.ok .null)) :=
    read_of_mem (by simp)
  have hfromStr : json.fromStr resultLine = some (echoFragment echoedArgs (.ok .null)) := by
    rw [JsonText.fromStr, hread]
    rfl
  have hreplay := OpenAi.replayExchange_of_fromStr hfromStr
  rw [replayContent_of_le (by rintro v ⟨⟩; decide), Option.map_some] at hreplay
  have hexchange : replayedExchange json "call_0" ⟨"cap.echo", echoedArgs, some "c1"⟩
      (recordedText json (.ok .null)) = exchange := by decide
  dsimp only at hreplay
  rw [hexchange] at hreplay
  rw [echoed, replayFragments, if_neg (by simp), hreplay]
  rfl

end Greeting

/-- A request with the conversation, a history in memory and a session file that is opened again
come to the same messages. -/
theorem conversation_shown_greeting :
    let later : Goal := ⟨"h", 0, "Bye", .utterance "user" "Bye"⟩
    let chat : List ChatMessage := [⟨"user", "Hi"⟩, ⟨"assistant", "Hello"⟩, ⟨"user", "Bye"⟩]
    let request := messagesToGoalAndContext Greeting.json 7 chat ⟨"echo", chat, false, none⟩
    let rolling := ((RollingConversationHistory.committing 5).reached
      [(Greeting.goal, Greeting.report)]).assemble Greeting.json later
    let session := ((sessionFile Greeting.json none 5).reached
      Greeting.commits).store.assemble Greeting.json later
    ∀ remembered ∈ [request, (later, rolling), (later, session)],
      OpenAi.buildMessages Greeting.json (fun _ => "0") "Be kind." remembered.1
          ⟨remembered.2.fragments ++ Greeting.echoed⟩ =
        some (.chatMessage "system" (systemPrompt "Be kind." remembered.1 remembered.2) ::
          (Greeting.messages ++ [.chatMessage "user" "user: Bye",
            OpenAi.assistantMessage Greeting.exchange, OpenAi.toolMessage Greeting.exchange])) := by
  intro later chat request rolling session
  have hshown : ∀ {goal : Goal} {ctx : Context}, goal.trigger = .utterance "user" "Bye" →
      Remembered Greeting.json goal ctx Greeting.messages →
      OpenAi.buildMessages Greeting.json (fun _ => "0") "Be kind." goal
          ⟨ctx.fragments ++ Greeting.echoed⟩ =
        some (.chatMessage "system" (systemPrompt "Be kind." goal ctx) ::
          (Greeting.messages ++ [.chatMessage "user" "user: Bye",
            OpenAi.assistantMessage Greeting.exchange, OpenAi.toolMessage Greeting.exchange])) := by
    intro goal ctx htrigger h
    have h := (conversation_shown h Greeting.readsBack_messages (fun _ => "0") "Be kind."
      Greeting.echoed (by simp [Greeting.echoed])).1
    have htext : triggerToText Greeting.json (fun _ => "0") (.utterance "user" "Bye") =
        "user: Bye" := by decide
    rw [Greeting.replayFragments_echoed, htrigger, htext] at h
    exact h
  have hsucceeds : ∀ e ∈ Greeting.commits, e.Succeeds Greeting.json := by
    intro e he
    simp only [Greeting.commits, List.mem_cons, List.not_mem_nil, or_false] at he
    obtain rfl | rfl := he
    · exact ⟨rfl, Greeting.turn_onOneLine⟩
    · trivial
  simp only [List.forall_mem_cons, List.not_mem_nil, false_implies, implies_true, and_true]
  refine ⟨?_, ?_, ?_⟩
  · exact hshown rfl (.request 7 chat _)
  · exact hshown rfl (.rolling 5 [(Greeting.goal, Greeting.report)] later)
  · exact hshown rfl (.session rfl 5 hsucceeds later)

end Pan
