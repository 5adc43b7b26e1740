import Pan.ToolNames

namespace Pan

/-! ## Reading a fragment back -/

theorem Value.depth_lt_of_get {members : List (String × Value)} {key : String} {v : Value}
    (h : (object members).get key = some v) : v.depth < (object members).depth := by
  have hle : ∀ {members}, SortedMap.get key members = some v → v.depth ≤ depthMembers members := by
    intro members hget
    induction members with
    | nil => cases hget
    | cons m members ih =>
      rw [SortedMap.get_cons] at hget
      rw [depthMembers]
      split_ifs at hget with hkey
      · cases hget
        exact le_max_left _ _
      · exact le_max_of_le_right (ih hget)
  rw [depth]
  exact Nat.lt_succ_of_le (hle h)

theorem Value.InMemory.insert {members : List (String × Value)}
    (h : (Value.object members).InMemory) (key : String) {v : Value} (hv : v.InMemory) :
    (Value.object (SortedMap.insert key v members)).InMemory := by
  cases h with
  | object hascending hmembers =>
    refine .object (SortedMap.ascending_insert key v hascending) fun m hm => ?_
    rcases SortedMap.mem_insert hm with rfl | hm
    · exact hv
    · exact hmembers m hm

theorem inMemory_toolResultBody (capability : String) (correlation : Option String) {args : Value}
    {result : Except String Value} (hargs : args.InMemory)
    (hresult : ∀ v, result = .ok v → v.InMemory) :
    (toolResultBody capability correlation args result).InMemory := by
  have hempty : (Value.object []).InMemory := .object List.Pairwise.nil (by simp)
  have hcapability := hempty.insert "capability" (Value.InMemory.string capability)
  have hcorrelation : ∀ c, (Value.object (SortedMap.insert "correlation" (.string c)
      (SortedMap.insert "capability" (.string capability) []))).InMemory :=
    fun c => hcapability.insert "correlation" (Value.InMemory.string c)
  unfold toolResultBody
  cases correlation with
  | none =>
    cases result with
    | ok v => exact (hcapability.insert "args" hargs).insert "result" (hresult v rfl)
    | error message =>
      exact (hcapability.insert "args" hargs).insert "error" (Value.InMemory.string message)
  | some c =>
    cases result with
    | ok v => exact ((hcorrelation c).insert "args" hargs).insert "result" (hresult v rfl)
    | error message =>
      exact ((hcorrelation c).insert "args" hargs).insert "error" (Value.InMemory.string message)

namespace JsonText

variable {J : JsonText}

theorem fromStr_write {v : Value} (hv : v.InMemory) (hdepth : v.depth ≤ NESTING_LIMIT)
    (hread : J.ReadsBack v) : J.fromStr (J.write v) = some v := by
  unfold fromStr
  rw [hread hv.plain hdepth, Option.map_some, hv.collect_eq]

end JsonText

def recordedText (J : JsonText) : Except String Value → String
  | .ok result => J.write result
  | .error message => s!"error: {J.write (.string message)}"

/-- What an exchange says came of the call; nothing if the code panics. -/
def replayContent (J : JsonText) (limit : ℕ) : Except String Value → Option String
  | .ok result => clip limit (J.write result)
  | .error message => some (recordedText J (.error message))

theorem replayContent_of_le {J : JsonText} {limit : ℕ} {result : Except String Value}
    (h : ∀ v, result = .ok v → (J.write v).utf8ByteSize ≤ limit) :
    replayContent J limit result = some (recordedText J result) := by
  cases result with
  | ok v => exact if_neg (not_lt.mpr (h v rfl))
  | error message => rfl

/-- The exchange that replays an `Invoke` with its content. -/
def replayedExchange (J : JsonText) (defaultId : String) (i : Invocation) (content : String) :
    Exchange :=
  ⟨i.correlation.getD defaultId, underscored i.capability, J.write i.args, content⟩

/-- A fragment whose text is read back replays as the exchange that it records. -/
theorem parseExchange_of_fromStr {J : JsonText} {capability : String}
    {correlation : Option String} {args : Value} {result : Except String Value} {text : String}
    (h : J.fromStr text = some (toolResultBody capability correlation args result))
    (defaultId : String) (limit : ℕ) :
    parseExchange J defaultId limit text = (replayContent J limit result).map fun content =>
      some (replayedExchange J defaultId ⟨capability, args, correlation⟩ content) := by
  obtain ⟨hcapability, hcorrelation, hargs, hresult, herror⟩ :=
    toolResultBody_get capability correlation args result
  have hcontent : exchangeContent J limit (toolResultBody capability correlation args result) =
      replayContent J limit result := by
    unfold exchangeContent
    rw [hresult, herror]
    cases result <;> rfl
  have hid : (toolResultBody capability correlation args result).str "correlation" =
      correlation := by
    rw [Value.str, hcorrelation]
    cases correlation <;> rfl
  unfold parseExchange
  rw [h]
  simp only [Value.str, hcapability, Option.bind_some, Value.asStr]
  rw [hcontent, hargs, ← Value.str, hid]
  rfl

/-! ## The OpenAI-compatible provider -/

namespace OpenAi

def responseOf (message : Value) : Value :=
  .ofFields [("choices", .array [.ofFields [("message", message)]])]

/-- The call that replays is interpreted as the `Invoke` it was made of, and it is followed by its
result under the same id, with this content. -/
def RoundTrips (J : JsonText) (debugStr : String → String) (caps : List Capability)
    (capability : String) (args : Value) (correlation : String) (result : Except String Value)
    (content : String) : Prop :=
  ∃ assistant tool,
    replayExchange J (toolResultFragment ⟨J.write, debugStr⟩ capability (some correlation) args
      result).body = some (some (assistant, tool)) ∧
    (interpret J (toolSchema caps).2 (responseOf assistant)).intents =
      [.invoke capability args (some correlation)] ∧
    tool.str "tool_call_id" = some correlation ∧ tool.str "content" = some content

theorem interpret_assistantMessage (J : JsonText) (nameToId : List (String × String))
    (e : Exchange) : (interpret J nameToId (responseOf (assistantMessage e))).intents =
      [.invoke (resolveName nameToId e.name) ((J.fromStr e.arguments).getD (.object []))
        (some e.id)] := by
  have hmessage : (((responseOf (assistantMessage e)).field "choices").item 0).field "message" =
      assistantMessage e := by
    simp [responseOf, Value.field, Value.item, Value.get_ofFields, SortedMap.last, Value.asArray]
  have herror : (responseOf (assistantMessage e)).get "error" = none := by
    simp [responseOf, Value.get_ofFields, SortedMap.last]
  have hspoken : spoken (assistantMessage e) = [] := by
    simp [spoken, assistantMessage, Value.str, Value.get_ofFields, SortedMap.last, Value.asStr,
      trim, Option.filter]
  have hcalls : (assistantMessage e).get "tool_calls" = some (.array [.ofFields [
      ("id", .string e.id), ("type", .string "function"), ("function", .ofFields [
        ("name", .string e.name), ("arguments", .string e.arguments)])]]) := by
    simp [assistantMessage, Value.get_ofFields, SortedMap.last]
  unfold interpret
  rw [herror]
  dsimp only
  rw [hmessage, hcalls, hspoken]
  simp [callIntent, Value.field, Value.str, Value.get_ofFields, SortedMap.last, Value.asStr,
    Value.asArray]

theorem toolMessage_str (e : Exchange) : (toolMessage e).str "tool_call_id" = some e.id ∧
    (toolMessage e).str "content" = some e.content := by
  simp [toolMessage, Value.str, Value.get_ofFields, SortedMap.last, Value.asStr]

theorem replayExchange_of_fromStr {J : JsonText} {capability : String}
    {correlation : Option String} {args : Value} {result : Except String Value} {text : String}
    (h : J.fromStr text = some (toolResultBody capability correlation args result)) :
    replayExchange J text = (replayContent J MAX_TOOL_OUTPUT_CHARS result).map fun content =>
      let e := replayedExchange J "call_0" ⟨capability, args, correlation⟩ content
      some (assistantMessage e, toolMessage e) := by
  unfold replayExchange
  rw [parseExchange_of_fromStr h, Option.map_map]
  rfl

/-- The names being distinct, a replayed exchange is the `Invoke` again, with its result in JSON
or with `error: ` and the message in JSON. -/
theorem round_trips (J : JsonText) (debugStr : String → String) {caps : List Capability}
    (hnames : (caps.map fun cap => sanitize cap.id).Nodup) {cap : Capability} (hcap : cap ∈ caps)
    {fields : List (String × Value)} (hargs : (Value.object fields).InMemory)
    (correlation : String) {result : Except String Value}
    (hresult : ∀ v, result = .ok v →
      v.InMemory ∧ (J.write v).utf8ByteSize ≤ MAX_TOOL_OUTPUT_CHARS)
    (hdepth : (toolResultBody cap.id (some correlation) (.object fields) result).depth ≤
      JsonText.NESTING_LIMIT)
    (hbody : J.ReadsBack (toolResultBody cap.id (some correlation) (.object fields) result))
    (hread : J.ReadsBack (.object fields)) :
    RoundTrips J debugStr caps cap.id (.object fields) correlation result
      (recordedText J result) := by
  have htext := JsonText.fromStr_write
    (inMemory_toolResultBody cap.id (some correlation) hargs fun v hv => (hresult v hv).1)
    hdepth hbody
  have hdepth' : (Value.object fields).depth ≤ JsonText.NESTING_LIMIT := by
    obtain ⟨-, -, hget, -⟩ := toolResultBody_get cap.id (some correlation) (.object fields) result
    exact (Value.depth_lt_of_get hget).le.trans hdepth
  have hreplay := replayExchange_of_fromStr htext
  rw [replayContent_of_le fun v hv => (hresult v hv).2] at hreplay
  refine ⟨_, _, hreplay, ?_, toolMessage_str _⟩
  rw [interpret_assistantMessage]
  simp only [replayedExchange, JsonText.fromStr_write hargs hdepth' hread, Option.getD_some,
    toolSchema, resolveName_underscored hnames hcap]

end OpenAi

/-! ### An echo to replay -/

def echoCap : Capability := ⟨"cap.echo", "does cap.echo", .object []⟩

def echoedArgs : Value := .object [("x", .number (.posInt 1))]

def echoFragment (args : Value) (result : Except String Value) : Value :=
  toolResultBody "cap.echo" (some "c1") args result

def argsLine : String := "\x7b\"x\":1\x7d"

def resultLine : String :=
  "\x7b\"args\":\x7b\"x\":1\x7d,\"capability\":\"cap.echo\",\"correlation\":\"c1\"," ++
    "\"result\":null\x7d"

def errorLine : String :=
  "\x7b\"args\":\x7b\"x\":1\x7d,\"capability\":\"cap.echo\",\"correlation\":\"c1\"," ++
    "\"error\":\"boom\"\x7d"

/-- The texts of the arguments, of a fragment with a result and of one with an error are read. -/
def echoJson : JsonText where
  floatText _ := "0.5"
  read text :=
    if text = argsLine then some echoedArgs
    else if text = resultLine then some (echoFragment echoedArgs (.ok .null))
    else if text = errorLine then some (echoFragment echoedArgs (.error "boom"))
    else none

theorem read_echoJson (text : String) : echoJson.read text =
    if text = argsLine then some echoedArgs
    else if text = resultLine then some (echoFragment echoedArgs (.ok .null))
    else if text = errorLine then some (echoFragment echoedArgs (.error "boom"))
    else none :=
  rfl

theorem inMemory_echoedArgs : echoedArgs.InMemory :=
  .object (List.pairwise_singleton _ _) fun m hm => by
    obtain rfl := List.mem_singleton.mp hm
    have hone : 1 < 2 ^ 64 := by decide
    exact .number hone

theorem readsBack_echoedArgs : echoJson.ReadsBack echoedArgs := by
  intro _ _
  have hline : echoJson.write echoedArgs = argsLine := by decide
  rw [hline, read_echoJson, if_pos rfl]

theorem readsBack_echoResult : echoJson.ReadsBack (echoFragment echoedArgs (.ok .null)) := by
  intro _ _
  have hline : echoJson.write (echoFragment echoedArgs (.ok .null)) = resultLine := by
    decide
  have hargs : resultLine ≠ argsLine := by decide
  rw [hline, read_echoJson, if_neg hargs, if_pos rfl]

theorem readsBack_echoError : echoJson.ReadsBack (echoFragment echoedArgs (.error "boom")) := by
  intro _ _
  have hline : echoJson.write (echoFragment echoedArgs (.error "boom")) = errorLine := by
    decide
  have hargs : errorLine ≠ argsLine := by decide
  have hresult : errorLine ≠ resultLine := by decide
  rw [hline, read_echoJson, if_neg hargs, if_neg hresult, if_pos rfl]

def nestedArray : ℕ → Value
  | 0 => .null
  | n + 1 => .array [nestedArray n]

def deepArgs : Value := .object [("x", nestedArray 126)]

namespace OpenAi

theorem round_trips_echo :
    RoundTrips echoJson id [echoCap] "cap.echo" echoedArgs "c1" (.ok .null) "null" := by
  have hresult : ∀ v, (.ok .null : Except String Value) = .ok v →
      v.InMemory ∧ (echoJson.write v).utf8ByteSize ≤ MAX_TOOL_OUTPUT_CHARS := by
    rintro v ⟨⟩
    exact ⟨.null, by decide⟩
  have hnames : ([echoCap].map fun cap => sanitize cap.id).Nodup := by decide
  exact round_trips echoJson id hnames (List.mem_singleton_self echoCap) inMemory_echoedArgs "c1"
    hresult (by decide) readsBack_echoResult readsBack_echoedArgs

/-- The message of an error is replayed in quotes, and the fragment of arguments as deep as they
may be read is itself too deep. -/
theorem error_replays_in_quotes :
    ¬RoundTrips echoJson id [echoCap] "cap.echo" echoedArgs "c1" (.error "boom")
        "error: boom" ∧
      ¬RoundTrips echoJson id [echoCap] "cap.echo" deepArgs "c1" (.ok .null) "null" := by
  constructor
  · rintro ⟨assistant, tool, hreplay, -, -, hcontent⟩
    have htext := JsonText.fromStr_write
      (inMemory_toolResultBody "cap.echo" (some "c1") inMemory_echoedArgs (by rintro v ⟨⟩))
      (by decide) readsBack_echoError
    have hquoted := replayExchange_of_fromStr htext
    obtain ⟨-, rfl⟩ := Prod.mk.inj (Option.some.inj (Option.some.inj (hreplay.symm.trans hquoted)))
    rw [(toolMessage_str _).2] at hcontent
    exact absurd hcontent (by decide)
  · rintro ⟨assistant, tool, hreplay, -, -, -⟩
    have hunread : (echoJson.read (echoJson.write (echoFragment deepArgs (.ok .null)))).isNone := by
      decide +kernel
    have hread : echoJson.fromStr (echoJson.write (echoFragment deepArgs (.ok .null))) = none := by
      rw [JsonText.fromStr, Option.isNone_iff_eq_none.mp hunread]
      rfl
    have hskipped : replayExchange echoJson (echoJson.write (echoFragment deepArgs (.ok .null))) =
        some none := by
      rw [replayExchange, parseExchange, hread]
      rfl
    cases hreplay.symm.trans hskipped

end OpenAi

/-! ## The Anthropic provider -/

namespace Anthropic

/-- The use that replays is interpreted as the `Invoke` it was made of, and it is followed by its
result under the same id. -/
def RoundTrips (J : JsonText) (debugStr : String → String) (caps : List Capability)
    (capability : String) (args : Value) (correlation : String) (result : Except String Value) :
    Prop :=
  ∃ assistant toolResult,
    replayToolExchange J (toolResultFragment ⟨J.write, debugStr⟩ capability (some correlation) args
      result).body = some (some (assistant, toolResult)) ∧
    (interpret (toolSchema caps).2 assistant).intents =
      [.invoke capability args (some correlation)] ∧
    ((toolResult.field "content").item 0).str "tool_use_id" = some correlation

theorem interpret_assistantMessage (nameToId : List (String × String)) (e : Exchange) :
    (interpret nameToId (assistantMessage e)).intents =
      [.invoke (resolveName nameToId e.name) (.string e.arguments) (some e.id)] := by
  have herror : (assistantMessage e).get "error" = none := by
    simp [assistantMessage, Value.get_ofFields, SortedMap.last]
  have hcontent : (assistantMessage e).get "content" = some (.array [toolUseBlock e]) := by
    simp [assistantMessage, Value.get_ofFields, SortedMap.last]
  have huse : isToolUse (toolUseBlock e) = true := by
    simp [isToolUse, toolUseBlock, Value.str, Value.get_ofFields, SortedMap.last, Value.asStr]
  have htext : expressBlock none (toolUseBlock e) = none := by
    simp [expressBlock, toolUseBlock, Value.str, Value.get_ofFields, SortedMap.last, Value.asStr]
  have hintent : useIntent nameToId (toolUseBlock e) =
      .invoke (resolveName nameToId e.name) (.string e.arguments) (some e.id) := by
    simp [useIntent, toolUseBlock, Value.str, Value.get_ofFields, SortedMap.last, Value.asStr]
  unfold interpret
  rw [herror, hcontent]
  simp [Value.asArray, htext, huse, hintent]

/-- The arguments of a use that is replayed are a text, never the object they were. -/
theorem never_round_trips (J : JsonText) (debugStr : String → String) (caps : List Capability)
    (capability : String) (fields : List (String × Value)) (correlation : String)
    (result : Except String Value) :
    ¬RoundTrips J debugStr caps capability (.object fields) correlation result := by
  rintro ⟨assistant, toolResult, hreplay, hinterpret, -⟩
  obtain ⟨exchange, -, hexchange⟩ := Option.map_eq_some_iff.mp hreplay
  obtain ⟨e, -, hpair⟩ := Option.map_eq_some_iff.mp hexchange
  obtain ⟨rfl, -⟩ := Prod.mk.inj hpair
  rw [interpret_assistantMessage] at hinterpret
  simp at hinterpret

theorem replayToolExchange_of_fromStr {J : JsonText} {capability : String}
    {correlation : Option String} {args : Value} {result : Except String Value} {text : String}
    (h : J.fromStr text = some (toolResultBody capability correlation args result)) :
    replayToolExchange J text = (replayContent J 32768 result).map fun content =>
      let e := replayedExchange J "toolu_0" ⟨capability, args, correlation⟩ content
      some (assistantMessage e, toolResultMessage e) := by
  unfold replayToolExchange
  rw [parseExchange_of_fromStr h, Option.map_map]
  rfl

/-- The arguments of an echo come back as their text. -/
theorem replayed_use_carries_text :
    let e : Exchange := ⟨"c1", "cap_echo", argsLine, "null"⟩
    replayToolExchange echoJson (toolResultFragment ⟨echoJson.write, id⟩ "cap.echo" (some "c1")
        echoedArgs (.ok .null)).body = some (some (assistantMessage e, toolResultMessage e)) ∧
      (interpret (toolSchema [echoCap]).2 (assistantMessage e)).intents =
        [.invoke "cap.echo" (.string argsLine) (some "c1")] ∧
      ¬RoundTrips echoJson id [echoCap] "cap.echo" echoedArgs "c1" (.ok .null) := by
  intro e
  have hbody : (echoFragment echoedArgs (.ok .null)).InMemory := by
    refine inMemory_toolResultBody _ _ inMemory_echoedArgs ?_
    rintro v ⟨⟩
    exact .null
  have hreplay := replayToolExchange_of_fromStr
    (JsonText.fromStr_write hbody (by decide) readsBack_echoResult)
  have hcontent : replayContent echoJson 32768 (.ok .null) = some "null" := by decide
  have hexchange :
      replayedExchange echoJson "toolu_0" ⟨"cap.echo", echoedArgs, some "c1"⟩ "null" = e := by
    decide
  rw [hcontent, Option.map_some, hexchange] at hreplay
  have hinterpret : (interpret (toolSchema [echoCap]).2 (assistantMessage e)).intents =
      [.invoke "cap.echo" (.string argsLine) (some "c1")] := by
    rw [interpret_assistantMessage]
    rfl
  refine ⟨hreplay, hinterpret, ?_⟩
  rintro ⟨assistant, toolResult, hreplay', hinterpret', -⟩
  obtain ⟨rfl, -⟩ := Prod.mk.inj (Option.some.inj (Option.some.inj (hreplay.symm.trans hreplay')))
  rw [hinterpret] at hinterpret'
  simp [echoedArgs] at hinterpret'

end Anthropic

end Pan
