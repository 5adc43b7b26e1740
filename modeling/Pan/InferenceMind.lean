import Pan.Retries
import Pan.SpokenLines
import Pan.Urls

namespace Pan

inductive ApiKind where
  | openAiCompat
  | ollamaNative
deriving DecidableEq

structure LlmConfig where
  host : String
  port : ℕ
  model : String
  api : ApiKind
deriving DecidableEq

structure LlmEnv where
  /-- `PAN_LLM_BASE` -/
  llmBase : Option String
  /-- `PAN_LLM_MODEL` -/
  llmModel : Option String
  /-- What is read from a host and a port after a request. -/
  probe : String → ℕ → String → Except String String

namespace Llm

def MAX_COMPLETION_TOKENS : ℕ := 200

/-! ## Discovery -/

/-- `rsplit_once(':')` -/
def hostAndPort (formats : Formats) (rest : List Char) : Except String (List Char × ℕ) :=
  match Text.rsplitOnce ':' rest with
  | some (h, p) =>
    match parseU16 p with
    | some port => .ok (h, port)
    | none => .error s!"bad port {formats.debugStr (String.ofList p)}"
  | none => .ok (rest, 80)

def parseHttpBase (formats : Formats) (base : String) : Except String (String × ℕ) :=
  match Text.stripPrefix "http://" base with
  | none => .error "only http:// bases are supported (local inference)"
  | some rest => do
    let (host, port) ← hostAndPort formats (rest.toList.rdropWhile fun c => c = '/')
    if host.isEmpty then .error "empty host" else .ok (String.ofList host, port)

def probeRequest (host path : String) : String :=
  s!"GET {path} HTTP/1.0\r\nHost: {host}\r\nConnection: close\r\n\r\n"

section Discovery

variable (J : JsonText) (formats : Formats) (env : LlmEnv)

/-- Whatever the status, it is the body of the response. -/
def httpGet (host : String) (port : ℕ) (path : String) : Except String String := do
  let raw ← env.probe host port (probeRequest host path)
  match Text.splitAtPattern crlfBlank raw.toList with
  | some (_, body) => .ok (String.ofList body)
  | none => .error "malformed HTTP response"

def firstModel (host : String) (port : ℕ) : Option String := do
  let response ← (httpGet env host port "/v1/models").toOption
  let parsed ← J.fromStr response
  (((parsed.field "data").item 0).field "id").asStr

def detectOllama (host : String) (port : ℕ) : Bool :=
  (httpGet env host port "/api/version").toOption.isSome

def resolveUncached : Option LlmConfig := do
  let base ← env.llmBase
  let (host, port) ← (parseHttpBase formats base).toOption
  let model ← (env.llmModel.filter fun m => !m.isEmpty).or (firstModel J env host port)
  let api := if detectOllama env host port then .ollamaNative else .openAiCompat
  return ⟨host, port, model, api⟩

end Discovery

/-! ## The mind -/

def systemPrompt (goal : Goal) (ctx : Context) : String :=
  let sections := ctx.fragments.map fun fragment => s!"[{fragment.channel}]\n{fragment.body}"
  "\n\n".intercalate (sections ++ [s!"[direction]\n{goal.objective}\n" ++
    "Answer with your character's next spoken line only — " ++
    "no stage directions, no quotation marks, no name prefix."])

def userTurn (J : JsonText) (displayF64 : F64 → String) (goal : Goal) : String :=
  match goal.trigger with
  | .utterance sender content => s!"{sender} says: {content}"
  | .event topic payload => s!"(something happens: {topic} {J.write payload})"
  | .tick _ => "(a quiet moment passes)"
  | .signal name value => s!"(reading: {name} = {displayF64 value})"

def chatMessages (J : JsonText) (displayF64 : F64 → String) (goal : Goal) (ctx : Context) :
    Value :=
  .array [
    .chatMessage "system" (systemPrompt goal ctx),
    .chatMessage "user" (userTurn J displayF64 goal)]

/-- `0.8` -/
def temperature : Value := .number (.float ⟨0x3fe999999999999a⟩)

def chatPath : ApiKind → String
  | .ollamaNative => "/api/chat"
  | .openAiCompat => "/v1/chat/completions"

def chatBody (config : LlmConfig) (messages : Value) (maxTokens : ℕ) : Value :=
  match config.api with
  | .ollamaNative => .ofFields [
      ("model", .string config.model),
      ("messages", messages),
      ("stream", .bool false),
      ("think", .bool false),
      ("options", .ofFields [
        ("num_predict", .number (.posInt maxTokens)), ("temperature", temperature)])]
  | .openAiCompat => .ofFields [
      ("model", .string config.model),
      ("messages", messages),
      ("max_tokens", .number (.posInt maxTokens)),
      ("temperature", temperature),
      ("think", .bool false)]

def replyContent (api : ApiKind) (response : Value) : String :=
  let content := match api with
    | .ollamaNative => (response.field "message").field "content"
    | .openAiCompat => (((response.field "choices").item 0).field "message").field "content"
  content.asStr.getD ""

def chatBase (config : LlmConfig) : String := s!"http://{config.host}:{config.port}"

section Mind

variable (J : JsonText) (formats : Formats) (jsonError : String → String) (nanos : ℕ → ℕ)
  (replies : ℕ → Except String String) (displayF64 : F64 → String) (config : LlmConfig)

def chat (messages : Value) (maxTokens : ℕ) : Eff HttpStep ℕ (Except String String) := do
  match ← postJsonExAsync J formats jsonError nanos replies (chatBase config)
    (chatPath config.api) (chatBody config messages maxTokens) [] with
  | .error e => return .error e
  | .ok response => return .ok (replyContent config.api response)

def decide (goal : Goal) (ctx : Context) : Eff HttpStep ℕ Decision := do
  match ← chat J formats jsonError nanos replies config (chatMessages J displayF64 goal ctx)
    MAX_COMPLETION_TOKENS with
  | .error _ => return abandoned
  | .ok raw =>
    match cleanLine raw with
    | none => Eff.never
    | some line =>
      if line.isEmpty then return abandoned
      else return ⟨[.express line, .conclude .achieved]⟩

end Mind

/-! ## The address -/

theorem parseU16_toString {n : ℕ} (h : n < 2 ^ 16) : parseU16 (toString n).toList = some n := by
  have hdigits : ∀ c ∈ Nat.toDigits 10 n, c.isDigit = true := fun c hc =>
    Nat.isDigit_of_mem_toDigits (by omega) (by omega) hc
  rw [Nat.toString_eq_ofList_toDigits, String.toList_ofList]
  unfold parseU16
  split
  case h_1 rest heq =>
    have hplus := hdigits '+' (by rw [heq]; exact List.mem_cons_self)
    cases hplus
  case h_2 =>
    have hvalue : (Nat.toDigits 10 n).foldl (fun n c => 10 * n + (c.toNat - '0'.toNat)) 0 = n :=
      Nat.ofDigitChars_ten_toDigits
    dsimp only
    rw [hvalue, if_pos ⟨Nat.toDigits_ne_nil, List.all_eq_true.mpr hdigits, h⟩]

def probed (config : LlmConfig) : Target :=
  ⟨.http, config.host, config.port, chatPath config.api⟩

/-- The address that is put together from a host and a port is read as that host and port exactly
if the host has no slash. -/
theorem parseBase_chatBase_iff (formats : Formats) {config : LlmConfig} (hhost : config.host ≠ "")
    (hport : config.port < 2 ^ 16) :
    parseBase formats (chatBase config) (chatPath config.api) = .ok (probed config) ↔
      '/' ∉ config.host.toList := by
  have hbase : chatBase config = Scheme.http.text ++ "://" ++
      String.ofList (config.host.toList ++ ':' :: (toString config.port).toList) := by
    apply String.ext
    simp [chatBase, Scheme.text]
    rfl
  have hhp : HostAndPort (config.host.toList ++ ':' :: (toString config.port).toList)
      (probed config) := .inr ⟨_, rfl, parseU16_toString hport⟩
  rw [parseBase_eq_ok_iff]
  constructor
  · rintro ⟨authority, behind, -, hslash, -, h | ⟨p, hauthority, -⟩, -⟩
    · exact h.2.1 ▸ hslash
    · rw [hauthority, List.mem_append, not_or] at hslash
      exact hslash.1
  · intro hslash
    refine ⟨_, [], ?_, ?_, fun h => absurd rfl h, hhp, hhost, ?_⟩
    · rw [List.append_nil]
      exact hbase
    · exact hhp.not_mem hslash (by decide) (by decide) (by decide)
    · simp [probed, behindAuthority]

/-! ## What is said -/

/-- Where the two dialects have the text that is said. -/
inductive Contains : ApiKind → Value → String → Prop
  | ollamaNative {v message : Value} {content : String} (hmessage : v.get "message" = some message)
      (hcontent : message.get "content" = some (.string content)) :
      Contains .ollamaNative v content
  | openAiCompat {v choice message : Value} {choices : List Value} {content : String}
      (hchoices : v.get "choices" = some (.array (choice :: choices)))
      (hmessage : choice.get "message" = some message)
      (hcontent : message.get "content" = some (.string content)) :
      Contains .openAiCompat v content

theorem Contains.replyContent_eq {api : ApiKind} {v : Value} {content : String}
    (h : Contains api v content) : replyContent api v = content := by
  cases h with
  | ollamaNative hmessage hcontent =>
    simp [replyContent, Value.field, hmessage, hcontent, Value.asStr]
  | openAiCompat hchoices hmessage hcontent =>
    simp [replyContent, Value.field, Value.item, Value.asArray, hchoices, hmessage, hcontent,
      Value.asStr]

theorem get_of_field {v w : Value} {key : String} (h : v.field key = w) (hw : w ≠ .null) :
    v.get key = some w := by
  subst h
  unfold Value.field at hw ⊢
  cases hget : v.get key with
  | none => simp [hget] at hw
  | some w => rfl

theorem ne_null_of_field {v w : Value} {key : String} (h : v.field key = w) (hw : w ≠ .null) :
    v ≠ .null := by
  rintro rfl
  exact hw h.symm

/-- A text that is read is where it should be. -/
theorem contains_replyContent {api : ApiKind} {v : Value} (h : replyContent api v ≠ "") :
    Contains api v (replyContent api v) := by
  have hstring : ∀ {w : Value}, w.asStr.getD "" ≠ "" → w = .string (w.asStr.getD "") := by
    intro w hw
    cases w <;> first | rfl | exact absurd rfl hw
  have htext : ∀ {content : String}, Value.string content ≠ .null := by simp
  cases api with
  | ollamaNative =>
    have hcontent : (v.field "message").field "content" =
        .string (replyContent .ollamaNative v) := hstring h
    have hmessage : v.field "message" ≠ .null := ne_null_of_field hcontent htext
    exact .ollamaNative (get_of_field rfl hmessage) (get_of_field hcontent htext)
  | openAiCompat =>
    have hcontent : (((v.field "choices").item 0).field "message").field "content" =
        .string (replyContent .openAiCompat v) := hstring h
    have hmessage : ((v.field "choices").item 0).field "message" ≠ .null :=
      ne_null_of_field hcontent htext
    have hchoice : (v.field "choices").item 0 ≠ .null := ne_null_of_field rfl hmessage
    cases hchoices : v.field "choices" with
    | array items =>
      rw [hchoices] at hchoice hmessage hcontent
      cases items with
      | nil => exact absurd rfl hchoice
      | cons choice choices =>
        exact .openAiCompat (get_of_field hchoices (by simp)) (get_of_field rfl hmessage)
          (get_of_field hcontent htext)
    | _ =>
      rw [hchoices] at hchoice
      exact absurd rfl hchoice

/-- What the mind makes of the reply: the line that its text cleans to, and nothing if there is
none. -/
inductive Says (J : JsonText) (api : ApiKind) (reply : Except String String) : Decision → Prop
  | speaks (v : Value) (content line : String) (hanswers : AnswersWith J reply v)
      (hcontent : Contains api v content) (hline : cleanLine content = some line)
      (hne : line ≠ "") : Says J api reply ⟨[.express line, .conclude .achieved]⟩
  | abandons (h : ∀ v content, AnswersWith J reply v → Contains api v content →
      cleanLine content = some "") : Says J api reply abandoned

/-- The mind asks where the daemon has probed, the same up to the last attempt, and says what that
one brings. -/
structure Speaks (J : JsonText) (replies : ℕ → Except String String)
    (displayF64 : F64 → String) (config : LlmConfig) (goal : Goal) (ctx : Context)
    (run : List (Target × String) × Option (Decision × ℕ)) : Prop where
  asks : ∃ k decision n, LastAttempt replies k ∧
    run = (List.replicate (k + 1) (probed config, buildRequestEx J config.host
      (chatPath config.api) (chatBody config (chatMessages J displayF64 goal ctx)
        MAX_COMPLETION_TOKENS) []), some (decision, n)) ∧
    Says J config.api (replies k) decision

section Mind

variable (J : JsonText) (formats : Formats) (jsonError : String → String) (nanos : ℕ → ℕ)
  (replies : ℕ → Except String String) (displayF64 : F64 → String) (config : LlmConfig)
  (goal : Goal) (ctx : Context)

/-- What becomes of what the post returns; nothing if the code panics. -/
def concluded (api : ApiKind) : Except String Value → Option Decision
  | .error _ => some abandoned
  | .ok response => (cleanLine (replyContent api response)).map fun line =>
    if line.isEmpty then abandoned else ⟨[.express line, .conclude .achieved]⟩

theorem postJsonExAsync_eq (base path : String) (body : Value)
    (extraHeaders : List (String × String)) :
    postJsonExAsync J formats jsonError nanos replies base path body extraHeaders =
      postJsonEx J formats jsonError nanos replies base path body extraHeaders := by
  unfold postJsonExAsync postJsonEx
  simp only [postAttemptsAsync_eq]

theorem decide_run : (decide J formats jsonError nanos replies displayF64 config goal
      ctx).keepActions HttpStep.exchanged 0 =
    let run := (postJsonEx J formats jsonError nanos replies (chatBase config)
      (chatPath config.api) (chatBody config (chatMessages J displayF64 goal ctx)
        MAX_COMPLETION_TOKENS) []).keepActions HttpStep.exchanged 0
    (run.1, run.2.bind fun (r, n) => (concluded config.api r).map fun d => (d, n)) := by
  unfold decide chat
  rw [postJsonExAsync_eq]
  simp only [Eff.keepActions_bind, Eff.bind_eq]
  cases hrun : ((postJsonEx J formats jsonError nanos replies (chatBase config)
    (chatPath config.api) (chatBody config (chatMessages J displayF64 goal ctx)
      MAX_COMPLETION_TOKENS) []).keepActions HttpStep.exchanged 0).2 with
  | none => rfl
  | some r =>
    obtain ⟨e | response, n⟩ := r
    · simp [concluded]
    · obtain ⟨line, hline, -⟩ := exists_cleanLine (replyContent config.api response)
      by_cases hempty : line = "" <;> simp [concluded, hline, hempty]

variable {J formats jsonError nanos replies displayF64 config goal ctx}

/-- What is concluded from what the post returns says what the last reply brings. -/
theorem says_concluded {reply : Except String String} {r : Except String Value} (api : ApiKind)
    (hr : ∀ v, r = .ok v ↔ AnswersWith J reply v) :
    ∃ decision, concluded api r = some decision ∧ Says J api reply decision := by
  cases r with
  | error e =>
    refine ⟨abandoned, rfl, .abandons fun v _ hv _ => ?_⟩
    cases (hr v).mpr hv
  | ok response =>
    obtain ⟨line, hline, -⟩ := exists_cleanLine (replyContent api response)
    by_cases hempty : line = ""
    · refine ⟨abandoned, by simp [concluded, hline, hempty], .abandons ?_⟩
      intro v content hv hcontent
      obtain rfl := Except.ok.inj ((hr v).mpr hv)
      rw [← hcontent.replyContent_eq, hline, hempty]
    · have hcontent : replyContent api response ≠ "" := by
        intro hnil
        have hclean : cleanLine "" = some "" := by
          obtain ⟨line', hline', hinfix⟩ := exists_cleanLine ""
          rw [hline', String.toList_eq_nil_iff.mp (List.infix_nil.mp hinfix)]
        rw [hnil, hclean] at hline
        exact hempty (Option.some.inj hline).symm
      refine ⟨⟨[.express line, .conclude .achieved]⟩, by simp [concluded, hline, hempty], ?_⟩
      exact .speaks response _ line ((hr response).mp rfl) (contains_replyContent hcontent) hline
        hempty

theorem speaks_of_target
    (htarget : parseBase formats (chatBase config) (chatPath config.api) = .ok (probed config))
    (hpanics : ∀ k, LastAttempt replies k → ∀ i ≤ k, ¬Panics (replies i)) :
    Speaks J replies displayF64 config goal ctx
      ((decide J formats jsonError nanos replies displayF64 config goal ctx).keepActions
        HttpStep.exchanged 0) := by
  have hright := (postsRight_iff J formats jsonError nanos replies (chatBase config)
    (chatPath config.api) (chatBody config (chatMessages J displayF64 goal ctx)
      MAX_COMPLETION_TOKENS) []).mpr fun _ k _ hk => hpanics k hk
  obtain ⟨k, hk, hasked, r, n, hreturn, hr⟩ := hright.parsed _ htarget
  obtain ⟨decision, hconcluded, hsays⟩ := says_concluded config.api hr
  refine ⟨k, decision, n, hk, ?_, hsays⟩
  rw [decide_run]
  dsimp only
  rw [hasked, hreturn, Option.bind_some, hconcluded]
  rfl

/-- A mind that speaks has asked where the daemon has probed. -/
theorem Speaks.target (h : Speaks J replies displayF64 config goal ctx
      ((decide J formats jsonError nanos replies displayF64 config goal ctx).keepActions
        HttpStep.exchanged 0)) :
    parseBase formats (chatBase config) (chatPath config.api) = .ok (probed config) := by
  obtain ⟨k, decision, n, -, hrun, -⟩ := h.asks
  rw [decide_run] at hrun
  have hasked := congrArg Prod.fst hrun
  dsimp only at hasked
  cases hbase : parseBase formats (chatBase config) (chatPath config.api) with
  | error e =>
    unfold postJsonEx at hasked
    rw [hbase] at hasked
    cases hasked
  | ok target =>
    obtain ⟨k', hk'⟩ := Retry.exists_stopsAt
      (fun i => replyVerdict J formats jsonError (replies i)) (Nat.succ_pos MAX_RETRIES) 0
    rw [postJsonEx_run J formats jsonError nanos replies hbase _ _ hk', List.replicate_succ,
      List.replicate_succ] at hasked
    exact congrArg Except.ok (congrArg Prod.fst (List.cons.inj hasked).1)

theorem Speaks.not_panics (h : Speaks J replies displayF64 config goal ctx
      ((decide J formats jsonError nanos replies displayF64 config goal ctx).keepActions
        HttpStep.exchanged 0))
    {k i : ℕ} (hk : LastAttempt replies k) (hi : i ≤ k) : ¬Panics (replies i) := by
  intro hpanics
  have htarget := h.target
  obtain ⟨_, decision, n, -, hrun, -⟩ := h.asks
  obtain ⟨k', hk'⟩ := Retry.exists_stopsAt
    (fun i => replyVerdict J formats jsonError (replies i)) (Nat.succ_pos MAX_RETRIES) 0
  have hstuck := (settle_eq_none_iff J formats jsonError).mpr (panics_of_stopsAt hk hk' hi hpanics)
  rw [decide_run] at hrun
  dsimp only at hrun
  rw [postJsonEx_run J formats jsonError nanos replies htarget _ _ hk', hstuck] at hrun
  cases congrArg Prod.snd hrun

end Mind

/-! ## The endpoint -/

theorem lt_of_parseU16 {p : List Char} {port : ℕ} (h : parseU16 p = some port) : port < 2 ^ 16 := by
  unfold parseU16 at h
  obtain ⟨⟨-, -, hlt⟩, hport⟩ := Option.ite_none_right_eq_some.mp h
  rwa [← Option.some.inj hport]

theorem port_of_hostAndPort {formats : Formats} {rest host : List Char} {port : ℕ}
    (h : hostAndPort formats rest = .ok (host, port)) : port < 2 ^ 16 := by
  unfold hostAndPort at h
  split at h
  case h_1 p hsplit =>
    cases hport : parseU16 p with
    | none =>
      rw [hport] at h
      cases h
    | some n =>
      rw [hport] at h
      cases h
      exact lt_of_parseU16 hport
  case h_2 =>
    cases h
    omega

theorem of_parseHttpBase {formats : Formats} {base host : String} {port : ℕ}
    (h : parseHttpBase formats base = .ok (host, port)) : host ≠ "" ∧ port < 2 ^ 16 := by
  unfold parseHttpBase at h
  split at h
  case h_1 => cases h
  case h_2 rest hrest =>
    obtain ⟨⟨host', port'⟩, hparsed, h⟩ := Fallible.exists_of_bind_eq_ok h
    dsimp only at h
    split at h
    case isTrue => cases h
    case isFalse hempty =>
      cases h
      refine ⟨fun hnil => ?_, port_of_hostAndPort hparsed⟩
      rw [String.ofList_eq_empty_iff] at hnil
      exact hempty (by simp [hnil])

theorem of_resolveUncached {J : JsonText} {formats : Formats} {env : LlmEnv} {config : LlmConfig}
    (h : resolveUncached J formats env = some config) :
    config.host ≠ "" ∧ config.port < 2 ^ 16 ∧
      config.api = if detectOllama env config.host config.port then .ollamaNative
        else .openAiCompat := by
  unfold resolveUncached at h
  obtain ⟨base, -, h⟩ := Option.bind_eq_some_iff.mp h
  obtain ⟨⟨host, port⟩, hparsed, h⟩ := Option.bind_eq_some_iff.mp h
  obtain ⟨model, -, h⟩ := Option.bind_eq_some_iff.mp h
  obtain rfl := Option.some.inj h
  cases hbase : parseHttpBase formats base with
  | error e =>
    rw [hbase] at hparsed
    cases hparsed
  | ok address =>
    rw [hbase] at hparsed
    obtain rfl := Option.some.inj hparsed
    obtain ⟨hhost, hport⟩ := of_parseHttpBase hbase
    exact ⟨hhost, hport, rfl⟩

theorem detectOllama_iff {env : LlmEnv} {host : String} {port : ℕ} :
    detectOllama env host port = true ↔
      ∃ raw, env.probe host port (probeRequest host "/api/version") = .ok raw ∧
        crlfBlank <:+: raw.toList := by
  unfold detectOllama httpGet
  cases env.probe host port (probeRequest host "/api/version") with
  | error e => simp [bind, Except.bind, Except.toOption]
  | ok raw =>
    -- the response is complete when its head has ended; the status is not looked at
    have hblank : (Text.splitAtPattern crlfBlank raw.toList).isSome = true ↔
        crlfBlank <:+: raw.toList := by
      constructor
      · intro hsome
        obtain ⟨⟨head, body⟩, hsplit⟩ := Option.isSome_iff_exists.mp hsome
        obtain ⟨htext, -⟩ := (Text.splitAtPattern_eq_some (List.cons_ne_nil _ _)).mp hsplit
        refine ⟨head, body, ?_⟩
        rw [htext, List.append_assoc]
        rfl
      · rintro ⟨head, body, htext⟩
        rw [Option.isSome_iff_ne_none]
        intro hnone
        refine (Text.splitAtPattern_eq_none (List.cons_ne_nil _ _)).mp hnone head.length ?_
        rw [← htext, List.append_assoc, List.drop_left]
        exact List.prefix_append crlfBlank body
    simp only [bind, Except.bind]
    cases hsplit : Text.splitAtPattern crlfBlank raw.toList with
    | none =>
      rw [hsplit] at hblank
      refine iff_of_false (by simp [Except.toOption]) ?_
      rintro ⟨raw', hraw, hinfix⟩
      obtain rfl := Except.ok.inj hraw
      cases hblank.mpr hinfix
    | some parts =>
      rw [hsplit] at hblank
      exact iff_of_true rfl ⟨raw, rfl, hblank.mp rfl⟩

/-- What the daemon resolves to speaks Ollama's dialect exactly if there was any complete response
to Ollama's question, an error too. It asks where it has probed and says what is answered there
exactly if the host has no slash and no reply up to the last attempt makes the code panic. -/
theorem speaks_iff (J : JsonText) (formats : Formats) (jsonError : String → String)
    (nanos : ℕ → ℕ) (replies : ℕ → Except String String) (displayF64 : F64 → String)
    {env : LlmEnv} {config : LlmConfig} (hresolve : resolveUncached J formats env = some config)
    (goal : Goal) (ctx : Context) :
    (config.api = .ollamaNative ↔
      ∃ raw, env.probe config.host config.port (probeRequest config.host "/api/version") = .ok raw ∧
        crlfBlank <:+: raw.toList) ∧
    (Speaks J replies displayF64 config goal ctx
        ((decide J formats jsonError nanos replies displayF64 config goal ctx).keepActions
          HttpStep.exchanged 0) ↔
      '/' ∉ config.host.toList ∧ ∀ k, LastAttempt replies k → ∀ i ≤ k, ¬Panics (replies i)) := by
  obtain ⟨hhost, hport, hapi⟩ := of_resolveUncached hresolve
  constructor
  · rw [← detectOllama_iff, hapi]
    cases detectOllama env config.host config.port <;> simp
  · rw [← parseBase_chatBase_iff formats hhost hport]
    constructor
    · exact fun h => ⟨h.target, fun k hk i hi => h.not_panics hk hi⟩
    · rintro ⟨htarget, hpanics⟩
      exact speaks_of_target htarget hpanics

namespace Tavern

def version : String :=
  "HTTP/1.0 200 OK\r\nContent-Type: application/json\r\n\r\n\x7b\"version\":\"0.5.7\"\x7d"

def body : String := "\x7b\"model\":\"qwen3\",\"message\":\x7b\"role\":\"assistant\"," ++
  "\"content\":\"(nods) Well met.\"\x7d,\"done\":true\x7d"

def reply : String := "HTTP/1.1 200 OK\r\nContent-Type: application/json\r\n\r\n" ++ body

def said : Value := .object [("done", .bool true),
  ("message", .object [("content", .string "(nods) Well met."), ("role", .string "assistant")]),
  ("model", .string "qwen3")]

def json : JsonText := { JsonText.readsOnly [(body, said)] with floatText := fun _ => "0.8" }

def env : LlmEnv := ⟨some "http://127.0.0.1:11434/", some "qwen3", fun _ port _ =>
  if port = 11434 then .ok version else .error "connection refused"⟩

def config : LlmConfig := ⟨"127.0.0.1", 11434, "qwen3", .ollamaNative⟩

def goal : Goal := ⟨"g1", 1, "Respond in character.", .utterance "player" "You alright?"⟩

theorem resolves : resolveUncached json ⟨fun _ => "", id⟩ env = some config := rfl

theorem splitResponseBody_reply : splitResponseBody reply =
    .ok ("HTTP/1.1 200 OK\r\nContent-Type: application/json", body) := by
  have hall : ∀ l, splitResponseBody (String.ofList
      ("HTTP/1.1 200 OK\r\nContent-Type: application/json\r\n\r\n".toList ++ l)) =
      .ok ("HTTP/1.1 200 OK\r\nContent-Type: application/json", String.ofList l) := by
    intro l
    rw [splitResponseBody, String.toList_ofList]
    rfl
  have hbody := hall body.toList
  rwa [String.ofList_append, String.ofList_toList, String.ofList_toList] at hbody

theorem statusCode_reply :
    statusCode "HTTP/1.1 200 OK\r\nContent-Type: application/json" = some 200 := by decide

theorem answersWith_reply {v : Value} (h : AnswersWith json (.ok reply) v) : v = said := by
  obtain ⟨raw, head, rest, hraw, hsplit, -, hread⟩ := h
  obtain rfl := Except.ok.inj hraw
  obtain ⟨-, rfl⟩ := Prod.mk.inj (Except.ok.inj (splitResponseBody_reply.symm.trans hsplit))
  have hbody : json.fromStr body = some said := by rfl
  exact Option.some.inj (hread.symm.trans hbody)

theorem not_panics_reply : ¬Panics (.ok reply) := by
  rintro ⟨raw, hraw, head, rest, status, hsplit, hstatus, hfail, -⟩
  obtain rfl := Except.ok.inj hraw
  obtain ⟨rfl, -⟩ := Prod.mk.inj (Except.ok.inj (splitResponseBody_reply.symm.trans hsplit))
  exact hfail (Option.some.inj (hstatus.symm.trans statusCode_reply))

theorem cleanLine_nods : cleanLine "(nods) Well met." = some "Well met." := by
  have hfront : Front "(nods) Well met.".toList "(nods) ".toList "Well met.".toList := by
    refine ⟨rfl, ?_, fun c hc => ?_, ?_⟩
    · have hdirection : IsDirection ['(', 'n', 'o', 'd', 's', ')'] :=
        ⟨'(', ')', ['n', 'o', 'd', 's'], rfl, rfl, by simp⟩
      exact .direction hdirection (.white rfl .nil)
    · obtain rfl := Option.some.inj hc
      rfl
    · rintro ⟨d, rest, heq, c, close, inner, rfl, hclose, -⟩
      obtain rfl := (List.cons.inj heq).1
      cases hclose
  rw [cleanLine_eq hfront]
  rfl

theorem says_reply {decision : Decision} (h : Says json .ollamaNative (.ok reply) decision) :
    decision = ⟨[.express "Well met.", .conclude .achieved]⟩ := by
  have hcontains : Contains .ollamaNative said "(nods) Well met." := .ollamaNative rfl rfl
  cases h with
  | speaks v content line hanswers hcontent hline hne =>
    obtain rfl := answersWith_reply hanswers
    rw [← hcontent.replyContent_eq, hcontains.replyContent_eq, cleanLine_nods] at hline
    rw [← Option.some.inj hline]
  | abandons h =>
    have hanswers : AnswersWith json (.ok reply) said :=
      ⟨reply, _, _, rfl, splitResponseBody_reply, statusCode_reply, rfl⟩
    have hempty := h said _ hanswers hcontains
    rw [cleanLine_nods] at hempty
    exact absurd (Option.some.inj hempty) (by decide)

end Tavern

/-- A server that answers is heard, and the nod is not said. Of an address with a path and no port
the probes go nowhere, and with a model that is given the mind asks another path of another host. -/
theorem speaks_iff_tavern :
    let slash : LlmConfig := ⟨"gpu/v1", 80, "m", .openAiCompat⟩
    let run (config : LlmConfig) (reply : Except String String) :=
      (decide Tavern.json ⟨fun _ => "", id⟩ id id (fun _ => reply) (fun _ => "0") config Tavern.goal
        ⟨[]⟩).keepActions HttpStep.exchanged 0
    (Speaks Tavern.json (fun _ => .ok Tavern.reply) (fun _ => "0") Tavern.config Tavern.goal ⟨[]⟩
        (run Tavern.config (.ok Tavern.reply)) ∧
      ∀ decision, Says Tavern.json .ollamaNative (.ok Tavern.reply) decision →
        decision = ⟨[.express "Well met.", .conclude .achieved]⟩) ∧
    ¬Speaks Tavern.json (fun _ => .error "refused") (fun _ => "0") slash Tavern.goal ⟨[]⟩
      (run slash (.error "refused")) := by
  intro slash run
  refine ⟨⟨?_, fun _ => Tavern.says_reply⟩, ?_⟩
  · exact (speaks_iff _ _ _ _ _ _ Tavern.resolves Tavern.goal ⟨[]⟩).2.mpr
      ⟨by decide, fun _ _ _ _ => Tavern.not_panics_reply⟩
  · have hresolve : resolveUncached Tavern.json ⟨fun _ => "", id⟩
        ⟨some "http://gpu/v1", some "m", fun _ _ _ => .error "no such host"⟩ = some slash := rfl
    exact fun h => absurd ((speaks_iff _ _ _ _ _ _ hresolve Tavern.goal ⟨[]⟩).2.mp h).1 (by decide)

end Llm

end Pan
