import Pan.Replay
import Pan.Rounds

namespace Pan

open History

/-! ## The exchanges of a context -/

def fragmentExchange (J : JsonText) (defaultId : String) (limit : ℕ) (f : Fragment) :
    Option (Option Exchange) :=
  if f.channel ≠ toolResultChannel then some none else parseExchange J defaultId limit f.body

def exchanges (J : JsonText) (defaultId : String) (limit : ℕ) :
    List Fragment → Option (List Exchange)
  | [] => some []
  | f :: fragments => do
    let exchange ← fragmentExchange J defaultId limit f
    let es ← exchanges J defaultId limit fragments
    return exchange.toList ++ es

section Exchanges

variable {J : JsonText} {defaultId : String} {limit : ℕ}

theorem replayFragments_eq (call result : Exchange → Value) (fragments : List Fragment) :
    replayFragments (fun body => (parseExchange J defaultId limit body).map fun exchange =>
        exchange.map fun e => (call e, result e)) fragments =
      (exchanges J defaultId limit fragments).map fun es =>
        es.flatMap fun e => [call e, result e] := by
  induction fragments with
  | nil => rfl
  | cons f fragments ih =>
    rw [replayFragments, exchanges, ih, fragmentExchange]
    by_cases hf : f.channel = toolResultChannel
    · rw [if_neg (not_not.mpr hf), if_neg (not_not.mpr hf)]
      cases parseExchange J defaultId limit f.body with
      | none => rfl
      | some exchange =>
        cases exchanges J defaultId limit fragments with
        | none => rfl
        | some es => cases exchange <;> rfl
    · rw [if_pos hf, if_pos hf]
      cases exchanges J defaultId limit fragments <;> rfl

theorem exchanges_append (fs gs : List Fragment) : exchanges J defaultId limit (fs ++ gs) = do
    let es ← exchanges J defaultId limit fs
    let es' ← exchanges J defaultId limit gs
    return es ++ es' := by
  induction fs with
  | nil =>
    rw [List.nil_append]
    cases exchanges J defaultId limit gs <;> rfl
  | cons f fs ih =>
    rw [List.cons_append, exchanges, exchanges, ih]
    simp only [bind_assoc, pure_bind, List.append_assoc]

theorem exchanges_singleton {body : String} :
    exchanges J defaultId limit [⟨toolResultChannel, body⟩] =
      (parseExchange J defaultId limit body).map Option.toList := by
  rw [exchanges, exchanges, fragmentExchange, if_neg (not_not.mpr rfl)]
  cases parseExchange J defaultId limit body with
  | none => rfl
  | some exchange => exact congrArg some (List.append_nil _)

end Exchanges

/-- The exchange replays the `Invoke` with what came of it. -/
def Records (J : JsonText) (defaultId : String) (limit : ℕ)
    (i : Invocation × Except String Value) (e : Exchange) : Prop :=
  ∃ content, replayContent J limit i.2 = some content ∧
    e = replayedExchange J defaultId i.1 content

/-- The exchange that the notice of a stall replays as. -/
def Round.noticeExchange (J : JsonText) (defaultId : String) (limit : ℕ) (r : Round) :
    Option (Option Exchange) :=
  if r.stalled then parseExchange J defaultId limit r.notice.body else some none

/-- The result of the round is not cut inside a character, and a notice of a stall is skipped. -/
structure Round.ReplaysOnce (J : JsonText) (defaultId : String) (limit : ℕ) (r : Round) : Prop where
  whole : (replayContent J limit r.result).isSome
  quiet : r.noticeExchange J defaultId limit = some none

section Rounds

variable {J : JsonText} {debugStr : String → String} {defaultId : String} {limit : ℕ}

theorem exchanges_round {r : Round} (hr : J.fromStr (J.write r.body) = some r.body) :
    exchanges J defaultId limit (r.fragments ⟨J.write, debugStr⟩) = do
      let notice ← r.noticeExchange J defaultId limit
      let content ← replayContent J limit r.result
      return notice.toList ++ [replayedExchange J defaultId r.invocation content] := by
  have hrecord : exchanges J defaultId limit [⟨toolResultChannel, J.write r.body⟩] =
      (replayContent J limit r.result).map fun content =>
        [replayedExchange J defaultId r.invocation content] := by
    rw [exchanges_singleton, parseExchange_of_fromStr hr, Option.map_map]
    rfl
  have hnotice : exchanges J defaultId limit [r.notice] =
      (parseExchange J defaultId limit r.notice.body).map Option.toList := exchanges_singleton
  unfold Round.fragments Round.noticeExchange
  cases r.stalled with
  | false =>
    refine hrecord.trans ?_
    cases replayContent J limit r.result <;> rfl
  | true =>
    rw [if_pos rfl, if_pos rfl, exchanges_append, hnotice]
    simp only [hrecord]
    cases parseExchange J defaultId limit r.notice.body <;>
      cases replayContent J limit r.result <;> rfl

/-- If no notice replays, the exchanges of the rounds are their records. -/
theorem exchanges_of_replaysOnce {rs : List Round}
    (hrs : ∀ r ∈ rs, J.fromStr (J.write r.body) = some r.body)
    (honce : ∀ r ∈ rs, r.ReplaysOnce J defaultId limit) :
    ∃ es, exchanges J defaultId limit (rs.flatMap (Round.fragments ⟨J.write, debugStr⟩)) =
        some es ∧
      List.Forall₂ (Records J defaultId limit) (rs.map fun r => (r.invocation, r.result)) es := by
  induction rs with
  | nil => exact ⟨[], rfl, .nil⟩
  | cons r rs ih =>
    obtain ⟨hr, hrs⟩ := List.forall_mem_cons.mp hrs
    obtain ⟨honce, honces⟩ := List.forall_mem_cons.mp honce
    obtain ⟨es, hes, hrecords⟩ := ih hrs honces
    obtain ⟨content, hcontent⟩ := Option.isSome_iff_exists.mp honce.whole
    refine ⟨_ :: es, ?_, .cons ⟨content, hcontent, rfl⟩ hrecords⟩
    rw [List.flatMap_cons, exchanges_append, exchanges_round hr, honce.quiet, hcontent, hes]
    rfl

/-- There is an exchange for each round, and if there is no other, no notice replays. -/
theorem length_exchanges {rs : List Round}
    (hrs : ∀ r ∈ rs, J.fromStr (J.write r.body) = some r.body) {es : List Exchange}
    (hes : exchanges J defaultId limit (rs.flatMap (Round.fragments ⟨J.write, debugStr⟩)) =
      some es) :
    rs.length ≤ es.length ∧
      (es.length = rs.length → ∀ r ∈ rs, r.ReplaysOnce J defaultId limit) := by
  induction rs generalizing es with
  | nil => simp
  | cons r rs ih =>
    obtain ⟨hr, hrs⟩ := List.forall_mem_cons.mp hrs
    rw [List.flatMap_cons, exchanges_append, exchanges_round hr] at hes
    obtain ⟨es₁, hes₁, hes⟩ := Option.bind_eq_some_iff.mp hes
    obtain ⟨es₂, hes₂, hes⟩ := Option.bind_eq_some_iff.mp hes
    obtain ⟨notice, hnotice, hes₁⟩ := Option.bind_eq_some_iff.mp hes₁
    obtain ⟨content, hcontent, hes₁⟩ := Option.bind_eq_some_iff.mp hes₁
    obtain rfl := Option.some.inj hes
    obtain rfl := Option.some.inj hes₁
    obtain ⟨hle, honces⟩ := ih hrs hes₂
    rw [List.length_append, List.length_append, List.length_singleton, List.length_cons]
    refine ⟨by omega, fun hlength => List.forall_mem_cons.mpr ⟨⟨?_, ?_⟩, honces (by omega)⟩⟩
    · rw [hcontent]
      rfl
    · cases notice with
      | none => exact hnotice
      | some e =>
        rw [Option.toList_some, List.length_singleton] at hlength
        omega

end Rounds

/-! ## The messages -/

section Messages

variable {J : JsonText} {debugStr : String → String} {defaultId : String} {limit : ℕ}

/-- The turns of the history are those of the base context. -/
theorem historyTurns_append (ctx c : Context) (rs : List Round)
    (hc : c.fragments = ctx.fragments ++ rs.flatMap (Round.fragments ⟨J.write, debugStr⟩)) :
    historyTurns J c = historyTurns J ctx := by
  have hnone : (rs.flatMap (Round.fragments ⟨J.write, debugStr⟩)).filter
      (fun f => f.channel = historyChannel) = [] := by
    rw [List.filter_eq_nil_iff]
    intro f hf
    obtain ⟨r, -, hf⟩ := List.mem_flatMap.mp hf
    have hchannel : f.channel = toolResultChannel := by
      unfold Round.fragments at hf
      split_ifs at hf <;> simp at hf <;> grind [Round.notice, stallFragment]
    rw [hchannel]
    decide
  unfold historyTurns
  rw [hc, List.filter_append, hnone, List.append_nil]

theorem length_flatMap_pair (call result : Exchange → Value) (es : List Exchange) :
    (es.flatMap fun e => [call e, result e]).length = 2 * es.length := by
  induction es with
  | nil => rfl
  | cons e es ih =>
    rw [List.flatMap_cons, List.length_append, ih, List.length_cons, List.length_cons,
      List.length_cons, List.length_nil]
    omega

theorem filter_flatMap_pair {isToolMessage : Value → Bool} {call result : Exchange → Value}
    (hcall : ∀ e, isToolMessage (call e) = true) (hresult : ∀ e, isToolMessage (result e) = true)
    (es : List Exchange) : (es.flatMap fun e => [call e, result e]).filter isToolMessage =
      es.flatMap fun e => [call e, result e] := by
  rw [List.filter_eq_self]
  intro m hm
  obtain ⟨e, -, hm⟩ := List.mem_flatMap.mp hm
  rcases List.mem_pair.mp hm with rfl | rfl
  · exact hcall e
  · exact hresult e

/-- The messages about tools are the records of the rounds exactly if the base context has none and
every round replays once. -/
theorem records_iff (call result : Exchange → Value) {turns : List Value} {ctx c : Context}
    {rs : List Round}
    (hc : c.fragments = ctx.fragments ++ rs.flatMap (Round.fragments ⟨J.write, debugStr⟩))
    (hrs : ∀ r ∈ rs, J.fromStr (J.write r.body) = some r.body) :
    (∃ es, (exchanges J defaultId limit c.fragments).map
        (fun es => turns ++ es.flatMap fun e => [call e, result e]) =
          some (es.flatMap fun e => [call e, result e]) ∧
      List.Forall₂ (Records J defaultId limit) (rs.map fun r => (r.invocation, r.result)) es) ↔
    (exchanges J defaultId limit ctx.fragments).map
        (fun es => turns ++ es.flatMap fun e => [call e, result e]) = some [] ∧
      ∀ r ∈ rs, r.ReplaysOnce J defaultId limit := by
  rw [hc, exchanges_append]
  constructor
  · rintro ⟨es, hmessages, hrecords⟩
    obtain ⟨_, hall, hmessages⟩ := Option.map_eq_some_iff.mp hmessages
    obtain ⟨base, hbase, hall⟩ := Option.bind_eq_some_iff.mp hall
    obtain ⟨es', hes', hall⟩ := Option.bind_eq_some_iff.mp hall
    obtain rfl := Option.some.inj hall
    obtain ⟨hle, honce⟩ := length_exchanges hrs hes'
    have hlength := congrArg List.length hmessages
    have hrecorded := hrecords.length_eq
    rw [List.length_append, length_flatMap_pair, length_flatMap_pair, List.length_append]
      at hlength
    rw [List.length_map] at hrecorded
    -- every call is replayed at most once, so by the lengths there is room for nothing else
    have hturns : turns = [] := List.length_eq_zero_iff.mp (by omega)
    have hnil : base = [] := List.length_eq_zero_iff.mp (by omega)
    refine ⟨?_, honce (by omega)⟩
    rw [hbase, hturns, hnil]
    rfl
  · rintro ⟨hclean, honce⟩
    obtain ⟨base, hbase, hnil⟩ := Option.map_eq_some_iff.mp hclean
    obtain ⟨hturns, hpairs⟩ := List.append_eq_nil_iff.mp hnil
    have hlength := length_flatMap_pair call result base
    rw [hpairs, List.length_nil] at hlength
    obtain rfl : base = [] := List.length_eq_zero_iff.mp (by omega)
    have hexchanges : ∃ es, exchanges J defaultId limit
          (rs.flatMap (Round.fragments ⟨J.write, debugStr⟩)) = some es ∧
        List.Forall₂ (Records J defaultId limit) (rs.map fun r => (r.invocation, r.result)) es :=
      exchanges_of_replaysOnce hrs honce
    obtain ⟨es, hes, hrecords⟩ := hexchanges
    refine ⟨es, ?_, hrecords⟩
    rw [hbase, hes, hturns]
    rfl

/-- There are at least as many messages about tools as the context has exchanges. -/
theorem length_exchanges_le (call result : Exchange → Value) {turns : List Value}
    {fragments : List Fragment} {es : List Exchange}
    (h : (exchanges J defaultId limit fragments).map
        (fun es => turns ++ es.flatMap fun e => [call e, result e]) =
      some (es.flatMap fun e => [call e, result e])) :
    ∃ es', exchanges J defaultId limit fragments = some es' ∧ es'.length ≤ es.length := by
  obtain ⟨es', hes', hmessages⟩ := Option.map_eq_some_iff.mp h
  have hlength := congrArg List.length hmessages
  rw [List.length_append, length_flatMap_pair, length_flatMap_pair] at hlength
  exact ⟨es', hes', by omega⟩

end Messages

namespace OpenAi

/-- The message makes a tool call or tells the result of one. -/
def isToolMessage (message : Value) : Bool :=
  (message.get "tool_calls").isSome || message.str "role" == some "tool"

variable (J : JsonText) (displayF64 : F64 → String) (instruction : String)

/-- The context shows no tool call. -/
def Clean (goal : Goal) (ctx : Context) : Prop :=
  (buildMessages J displayF64 instruction goal ctx).map (List.filter isToolMessage) = some []

/-- The tool calls and results are those that were enacted, in this order. -/
def Faithful (goal : Goal) (ctx : Context) (enacted : List (Invocation × Except String Value)) :
    Prop :=
  ∃ es, (buildMessages J displayF64 instruction goal ctx).map (List.filter isToolMessage) =
      some (es.flatMap fun e => [assistantMessage e, toolMessage e]) ∧
    List.Forall₂ (Records J "call_0" MAX_TOOL_OUTPUT_CHARS) enacted es

theorem filter_buildMessages (goal : Goal) (ctx : Context) :
    (buildMessages J displayF64 instruction goal ctx).map (List.filter isToolMessage) =
      (exchanges J "call_0" MAX_TOOL_OUTPUT_CHARS ctx.fragments).map fun es =>
        (historyTurns J ctx).filter isToolMessage ++
          es.flatMap fun e => [assistantMessage e, toolMessage e] := by
  have hprompt : ∀ role text, role ≠ "tool" → isToolMessage (.ofFields
      [("role", .string role), ("content", .string text)]) = false := by
    intro role text hrole
    simp [isToolMessage, Value.str, Value.get_ofFields, SortedMap.last, Value.asStr, hrole]
  have hassistant : ∀ e, isToolMessage (assistantMessage e) = true := by
    intro e
    simp [isToolMessage, assistantMessage, Value.get_ofFields, SortedMap.last]
  have htool : ∀ e, isToolMessage (toolMessage e) = true := by
    intro e
    simp [isToolMessage, toolMessage, Value.str, Value.get_ofFields, SortedMap.last, Value.asStr]
  have hreplay : replayFragments (replayExchange J) ctx.fragments =
      (exchanges J "call_0" MAX_TOOL_OUTPUT_CHARS ctx.fragments).map fun es =>
        es.flatMap fun e => [assistantMessage e, toolMessage e] :=
    replayFragments_eq assistantMessage toolMessage ctx.fragments
  unfold buildMessages
  rw [hreplay]
  cases exchanges J "call_0" MAX_TOOL_OUTPUT_CHARS ctx.fragments with
  | none => rfl
  | some es =>
    have hsystem := hprompt "system" (systemPrompt instruction goal ctx) (by decide)
    have huser := hprompt "user" (userTurn J displayF64 goal.trigger) (by decide)
    simp only [Option.map_some, Option.bind_eq_bind, Option.bind_some, Option.pure_def,
      List.cons_append, List.filter_cons, List.filter_append, hsystem, huser,
      filter_flatMap_pair hassistant htool]
    rfl

theorem length_of_faithful {goal : Goal} {ctx : Context}
    {enacted : List (Invocation × Except String Value)}
    (h : Faithful J displayF64 instruction goal ctx enacted) :
    ∃ es, exchanges J "call_0" MAX_TOOL_OUTPUT_CHARS ctx.fragments = some es ∧
      es.length ≤ enacted.length := by
  obtain ⟨es, hmessages, hrecords⟩ := h
  rw [filter_buildMessages] at hmessages
  rw [hrecords.length_eq]
  exact length_exchanges_le assistantMessage toolMessage hmessages

end OpenAi

namespace Anthropic

/-- The message has a block that uses a tool or tells the result of a use. -/
def isToolMessage (message : Value) : Bool :=
  (((message.get "content").bind Value.asArray).getD []).any fun block =>
    block.str "type" == some "tool_use" || block.str "type" == some "tool_result"

variable (J : JsonText) (displayF64 : F64 → String) (instruction : String)

/-- The context shows no tool call. -/
def Clean (goal : Goal) (ctx : Context) : Prop :=
  (buildMessages J displayF64 instruction goal ctx).map (fun m => m.2.filter isToolMessage) =
    some []

/-- The tool calls and results are those that were enacted, in this order. -/
def Faithful (goal : Goal) (ctx : Context) (enacted : List (Invocation × Except String Value)) :
    Prop :=
  ∃ es, (buildMessages J displayF64 instruction goal ctx).map (fun m => m.2.filter isToolMessage) =
      some (es.flatMap fun e => [assistantMessage e, toolResultMessage e]) ∧
    List.Forall₂ (Records J "toolu_0" 32768) enacted es

theorem filter_buildMessages (goal : Goal) (ctx : Context) :
    (buildMessages J displayF64 instruction goal ctx).map (fun m => m.2.filter isToolMessage) =
      (exchanges J "toolu_0" 32768 ctx.fragments).map fun es =>
        [] ++ es.flatMap fun e => [assistantMessage e, toolResultMessage e] := by
  have htext : ∀ role text, isToolMessage (.ofFields
      [("role", .string role), ("content", .string text)]) = false := by
    intro role text
    simp [isToolMessage, Value.get_ofFields, SortedMap.last, Value.asArray]
  have hassistant : ∀ e, isToolMessage (assistantMessage e) = true := by
    intro e
    simp [isToolMessage, assistantMessage, toolUseBlock, Value.str, Value.get_ofFields,
      SortedMap.last, Value.asArray, Value.asStr]
  have hresult : ∀ e, isToolMessage (toolResultMessage e) = true := by
    intro e
    simp [isToolMessage, toolResultMessage, toolResultBlock, Value.str, Value.get_ofFields,
      SortedMap.last, Value.asArray, Value.asStr]
  have hhistory : ((historyTurns J ctx).map historyMessage).filter isToolMessage = [] := by
    rw [List.filter_eq_nil_iff]
    intro m hm
    obtain ⟨turn, -, rfl⟩ := List.mem_map.mp hm
    rw [historyMessage, htext]
    exact Bool.false_ne_true
  have hreplay : replayFragments (replayToolExchange J) ctx.fragments =
      (exchanges J "toolu_0" 32768 ctx.fragments).map fun es =>
        es.flatMap fun e => [assistantMessage e, toolResultMessage e] :=
    replayFragments_eq assistantMessage toolResultMessage ctx.fragments
  unfold buildMessages
  rw [hreplay]
  cases exchanges J "toolu_0" 32768 ctx.fragments with
  | none => rfl
  | some es =>
    have huser := htext "user" (userTurn J displayF64 goal.trigger)
    simp only [Option.map_some, Option.bind_eq_bind, Option.bind_some, Option.pure_def,
      List.filter_cons, List.filter_append, huser, hhistory,
      filter_flatMap_pair hassistant hresult]
    rfl

theorem length_of_faithful {goal : Goal} {ctx : Context}
    {enacted : List (Invocation × Except String Value)}
    (h : Faithful J displayF64 instruction goal ctx enacted) :
    ∃ es, exchanges J "toolu_0" 32768 ctx.fragments = some es ∧ es.length ≤ enacted.length := by
  obtain ⟨es, hmessages, hrecords⟩ := h
  rw [filter_buildMessages] at hmessages
  rw [hrecords.length_eq]
  exact length_exchanges_le assistantMessage toolResultMessage hmessages

end Anthropic

/-! ## Runs -/

/-- At every `decide` of a run without a compactor, both transcripts show the calls enacted on the
goal exactly if the base context shows none and every round replays once. -/
theorem transcript_faithful_iff {W O : Type} (J : JsonText) (displayF64 : F64 → String)
    (instruction : String) (debugStr : String → String) (L : Loop W)
    (hformats : L.formats = ⟨J.write, debugStr⟩) (hc : L.compactor = none)
    (obs : Observations W O) (ctx : Context) (fuel : ℕ) (w : W × O) :
    ∀ pre goal c post, (L.runSpan obs ctx fuel w).1 = pre ++ .decide goal c :: post →
      (∀ r ∈ (L.roundsOf pre).rounds,
        r.body.InMemory ∧ r.body.depth ≤ JsonText.NESTING_LIMIT ∧ J.ReadsBack r.body) →
      let enacted := (since Action.isObserved pre).filterMap Action.exchange
      (OpenAi.Faithful J displayF64 instruction goal c enacted ↔
        OpenAi.Clean J displayF64 instruction goal ctx ∧
          ∀ r ∈ (L.roundsOf pre).rounds,
            r.ReplaysOnce J "call_0" OpenAi.MAX_TOOL_OUTPUT_CHARS) ∧
      (Anthropic.Faithful J displayF64 instruction goal c enacted ↔
        Anthropic.Clean J displayF64 instruction goal ctx ∧
          ∀ r ∈ (L.roundsOf pre).rounds, r.ReplaysOnce J "toolu_0" 32768) := by
  intro pre goal c post htrace hbodies enacted
  have hfragments := L.decides_on_rounds hc obs ctx fuel w pre _ post htrace goal c rfl
  rw [hformats] at hfragments
  -- the bodies are read back as they were written, so the fragments are those of the rounds
  have hrs : ∀ r ∈ (L.roundsOf pre).rounds, J.fromStr (J.write r.body) = some r.body :=
    fun r hr => JsonText.fromStr_write (hbodies r hr).1 (hbodies r hr).2.1 (hbodies r hr).2.2
  have hturns := historyTurns_append ctx c _ hfragments
  have henacted : (L.roundsOf pre).rounds.map (fun r => (r.invocation, r.result)) = enacted :=
    Loop.map_roundsOf pre
  constructor
  · unfold OpenAi.Faithful OpenAi.Clean
    rw [OpenAi.filter_buildMessages, OpenAi.filter_buildMessages, hturns, ← henacted]
    exact records_iff OpenAi.assistantMessage OpenAi.toolMessage hfragments hrs
  · unfold Anthropic.Faithful Anthropic.Clean
    rw [Anthropic.filter_buildMessages, Anthropic.filter_buildMessages, ← henacted]
    exact records_iff Anthropic.assistantMessage Anthropic.toolResultMessage hfragments hrs

/-! ### A loop that stalls -/

def echoRecord : Value := toolResultBody "cap.echo" none .null (.ok (echo "cap.echo" .null))

def recordLine : String :=
  "\x7b\"args\":null,\"capability\":\"cap.echo\"," ++
    "\"result\":\x7b\"args\":null,\"executed\":\"cap.echo\"\x7d\x7d"

def stallTree : Value := .object [("stall", .bool true), ("capability", .string "cap.echo"),
  ("message", .string "same capability+args repeated 4 times — try a different approach")]

/-- The texts of an echo and of the notice of its stall are read. -/
def stallingJson : JsonText where
  floatText _ := "0.5"
  read text :=
    if text = recordLine then some echoRecord
    else if text = (stallFragment "cap.echo").body then some stallTree
    else none

/-- A loop that echoes the same at every decide, with a stall detector. -/
def stallingLoop : Loop Unit :=
  { Loop.ofProvider (CapabilityRegistry.empty.insert ⟨"cap.echo", "echo", .null⟩)
      (ScriptedProvider Unit ⟨[.invoke "cap.echo" .null none]⟩) ⟨stallingJson.write, id⟩ with
    stallDetector := some .new }

def stallingTrace : List Action :=
  (stallingLoop.runSpan (Once Unit) ⟨[]⟩ 9 ((), some (tickGoal "g" 0))).1

def Action.decideContext : Action → Option Context
  | .decide _ c => some c
  | _ => none

theorem exists_decide {h : List Action} {i : ℕ} {c : Context}
    (hi : h[i]?.bind Action.decideContext = some c) :
    ∃ goal, h = h.take i ++ .decide goal c :: h.drop (i + 1) := by
  obtain ⟨a, ha, hc⟩ := Option.bind_eq_some_iff.mp hi
  cases a with
  | decide goal c' =>
    obtain rfl := Option.some.inj hc
    obtain ⟨hlt, hget⟩ := List.getElem?_eq_some_iff.mp ha
    refine ⟨goal, ?_⟩
    rw [← hget, List.getElem_cons_drop, List.take_append_drop]
  | _ => cases hc

/-- After the fourth echo the notice of the stall replays as a fifth. -/
theorem stall_notice_not_faithful :
    ∃ pre goal c post, stallingTrace = pre ++ .decide goal c :: post ∧
      ¬OpenAi.Faithful stallingJson (fun _ => "") "" goal c
        ((since Action.isObserved pre).filterMap Action.exchange) ∧
      ¬Anthropic.Faithful stallingJson (fun _ => "") "" goal c
        ((since Action.isObserved pre).filterMap Action.exchange) := by
  have hdecide : stallingTrace[54]?.bind Action.decideContext = some
      ⟨[⟨toolResultChannel, recordLine⟩, ⟨toolResultChannel, recordLine⟩,
        ⟨toolResultChannel, recordLine⟩, stallFragment "cap.echo",
        ⟨toolResultChannel, recordLine⟩]⟩ := by
    decide +kernel
  have henacted : ((since Action.isObserved (stallingTrace.take 54)).filterMap
      Action.exchange).length = 4 := by
    decide +kernel
  have hfive : ∀ defaultId ∈ ["call_0", "toolu_0"], (exchanges stallingJson defaultId 32768
      [⟨toolResultChannel, recordLine⟩, ⟨toolResultChannel, recordLine⟩,
        ⟨toolResultChannel, recordLine⟩, stallFragment "cap.echo",
        ⟨toolResultChannel, recordLine⟩]).map List.length = some 5 := by
    decide
  obtain ⟨goal, htrace⟩ := exists_decide hdecide
  refine ⟨_, goal, _, _, htrace, fun h => ?_, fun h => ?_⟩
  · obtain ⟨es, hes, hle⟩ := OpenAi.length_of_faithful _ _ _ h
    have hlength : some es.length = some 5 :=
      (congrArg (Option.map List.length) hes).symm.trans (hfive "call_0" (by simp))
    rw [henacted] at hle
    exact absurd (Option.some.inj hlength) (by omega)
  · obtain ⟨es, hes, hle⟩ := Anthropic.length_of_faithful _ _ _ h
    have hlength : some es.length = some 5 :=
      (congrArg (Option.map List.length) hes).symm.trans (hfive "toolu_0" (by simp))
    rw [henacted] at hle
    exact absurd (Option.some.inj hlength) (by omega)

/-- After the first echo. -/
theorem transcript_faithful_iff_echo :
    ∃ pre goal c post, stallingTrace = pre ++ .decide goal c :: post ∧
      (OpenAi.Faithful stallingJson (fun _ => "") "" goal c
          ((since Action.isObserved pre).filterMap Action.exchange) ↔
        OpenAi.Clean stallingJson (fun _ => "") "" goal ⟨[]⟩ ∧
          ∀ r ∈ (stallingLoop.roundsOf pre).rounds,
            r.ReplaysOnce stallingJson "call_0" OpenAi.MAX_TOOL_OUTPUT_CHARS) := by
  have hdecide : stallingTrace[15]?.bind Action.decideContext =
      some ⟨[⟨toolResultChannel, recordLine⟩]⟩ := by
    decide
  have hrounds : (stallingLoop.roundsOf (stallingTrace.take 15)).rounds =
      [⟨false, ⟨"cap.echo", .null, none⟩, .ok (echo "cap.echo" .null)⟩] := rfl
  obtain ⟨goal, htrace⟩ := exists_decide hdecide
  refine ⟨_, goal, _, _, htrace, (transcript_faithful_iff stallingJson (fun _ => "") "" id
    stallingLoop rfl rfl (Once Unit) ⟨[]⟩ 9 ((), some (tickGoal "g" 0)) _ goal _ _ htrace ?_).1⟩
  intro r hr
  rw [hrounds] at hr
  obtain rfl := List.mem_singleton.mp hr
  have hread : stallingJson.ReadsBack echoRecord := by
    intro _ _
    have hline : stallingJson.write echoRecord = recordLine := by decide
    have hif : (if recordLine = recordLine then some echoRecord else none) = some echoRecord :=
      if_pos rfl
    rw [hline]
    exact hif
  have hecho : (echo "cap.echo" .null).InMemory := by
    have hempty : (Value.object []).InMemory := .object List.Pairwise.nil (by simp)
    exact (hempty.insert "executed" (.string "cap.echo")).insert "args" .null
  refine ⟨inMemory_toolResultBody "cap.echo" none .null ?_, by decide, hread⟩
  rintro v ⟨⟩
  exact hecho

end Pan
