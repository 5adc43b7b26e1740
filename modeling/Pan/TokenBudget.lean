import Mathlib.Order.Bounds.Defs
import Pan.Anthropic
import Pan.Library.Machine
import Pan.Minds
import Pan.OpenAi

namespace Pan

/-- `json!` of a double: what is not finite is null. -/
def Value.ofF64 (x : F64) : Value :=
  if x.magnitude < 0x7ff0000000000000 then .number (.float x) else .null

/-- What `decide` does before and after the exchange with the server, which is not modelled. -/
structure Metered where
  tokenBudget : Option ℕ
  /-- The request and the map of its tool names; nothing if the code panics. -/
  request : Goal → Context → List Capability → Option (Value × List (String × String))
  /-- What a response says that it cost. -/
  usage : Value → ℕ
  interpret : List (String × String) → Value → Decision
  /-- A call that awaits its response can be dropped; one that blocks cannot. -/
  awaits : Bool

/-! ## The two providers -/

structure OpenAiProvider where
  model : String
  instruction : String
  maxTokens : ℕ
  temperature : F64
  tokenBudget : Option ℕ

namespace OpenAiProvider

variable (J : JsonText) (displayF64 : F64 → String) (p : OpenAiProvider)

def request (goal : Goal) (ctx : Context) (caps : List Capability) :
    Option (Value × List (String × String)) :=
  let (tools, nameToId) := OpenAi.toolSchema caps
  (OpenAi.buildMessages J displayF64 p.instruction goal ctx).map fun messages =>
    (.ofFields ([
      ("model", .string p.model),
      ("messages", .array messages),
      ("max_tokens", .number (.posInt p.maxTokens)),
      ("temperature", .ofF64 p.temperature)] ++
      if tools.isEmpty then [] else [("tools", .array tools), ("tool_choice", .string "auto")]),
    nameToId)

def usage (response : Value) : ℕ :=
  ((response.get "usage").bind fun usage => (usage.get "total_tokens").bind Value.asU64).getD 0

def metered : Metered where
  tokenBudget := p.tokenBudget
  request := p.request J displayF64
  usage := usage
  interpret := OpenAi.interpret J
  awaits := true

end OpenAiProvider

structure AnthropicProvider where
  model : String
  instruction : String
  maxTokens : ℕ
  tokenBudget : Option ℕ

namespace AnthropicProvider

variable (J : JsonText) (displayF64 : F64 → String) (p : AnthropicProvider)

def request (goal : Goal) (ctx : Context) (caps : List Capability) :
    Option (Value × List (String × String)) :=
  let (tools, nameToId) := Anthropic.toolSchema caps
  (Anthropic.buildMessages J displayF64 p.instruction goal ctx).map fun (system, messages) =>
    (.ofFields ([
      ("model", .string p.model),
      ("max_tokens", .number (.posInt p.maxTokens)),
      ("messages", .array messages)] ++
      (if system.isEmpty then [] else [("system", .string system)]) ++
      if tools.isEmpty then [] else [("tools", .array tools)]),
    nameToId)

/-- The sum wraps, as in a release build. -/
def usage (response : Value) : ℕ :=
  match response.get "usage" with
  | some usage =>
    let input := ((usage.get "input_tokens").bind Value.asU64).getD 0
    let output := ((usage.get "output_tokens").bind Value.asU64).getD 0
    (input + output) % 2 ^ 64
  | none => 0

/-- `post_json_ex` blocks the thread. -/
def metered : Metered where
  tokenBudget := p.tokenBudget
  request := p.request J displayF64
  usage := usage
  interpret := Anthropic.interpret
  awaits := false

end AnthropicProvider

inductive ChatModel where
  | openAi (p : OpenAiProvider)
  | anthropic (p : AnthropicProvider)

def ChatModel.metered (J : JsonText) (displayF64 : F64 → String) : ChatModel → Metered
  | openAi p => p.metered J displayF64
  | anthropic p => p.metered J displayF64

/-! ## Calls of one provider -/

/-- Where a call of `decide` is. -/
inductive Deciding where
  /-- The budget was exhausted, and nothing was sent. -/
  | refused
  | panicked
  | waiting (nameToId : List (String × String))
  | dropped
  | answered (tokens : ℕ) (decision : Decision)

namespace Deciding

def isWaiting : Deciding → Bool
  | waiting _ => true
  | _ => false

def isSent : Deciding → Bool
  | refused | panicked => false
  | _ => true

def tokens : Deciding → ℕ
  | answered tokens _ => tokens
  | _ => 0

variable (nameToId : List (String × String))

@[simp] theorem isWaiting_waiting : (waiting nameToId).isWaiting = true := rfl

@[simp] theorem isSent_waiting : (waiting nameToId).isSent = true := rfl

@[simp] theorem tokens_waiting : (waiting nameToId).tokens = 0 := rfl

end Deciding

/-- What the calls of one provider share, and the calls in the order in which they came. -/
structure Meter where
  tokensUsed : ℕ
  calls : List Deciding

namespace Meter

variable (s : Meter)

def waiting : ℕ := s.calls.countP Deciding.isWaiting

def sent : ℕ := s.calls.countP Deciding.isSent

def spent : ℕ := (s.calls.map Deciding.tokens).sum

end Meter

inductive MeterEvent where
  | decide (goal : Goal) (ctx : Context) (caps : List Capability)
  | respond (i : ℕ) (result : Except String Value)
  /-- The call is superseded. -/
  | drop (i : ℕ)

namespace Metered

variable (P : Metered)

def enter (used : ℕ) (goal : Goal) (ctx : Context) (caps : List Capability) : Deciding :=
  if P.tokenBudget.any (· ≤ used) then .refused
  else
    match P.request goal ctx caps with
    | none => .panicked
    | some (_, nameToId) => .waiting nameToId

def leave (nameToId : List (String × String)) : Except String Value → ℕ × Decision
  | .ok response => (P.usage response, P.interpret nameToId response)
  | .error _ => (0, abandoned)

def step (s : Meter) : MeterEvent → Meter
  | .decide goal ctx caps => { s with calls := s.calls ++ [P.enter s.tokensUsed goal ctx caps] }
  | .respond i result =>
    match s.calls[i]? with
    | some (.waiting nameToId) =>
      let (tokens, decision) := P.leave nameToId result
      ⟨(s.tokensUsed + tokens) % 2 ^ 64, s.calls.set i (.answered tokens decision)⟩
    | _ => s
  | .drop i =>
    match s.calls[i]? with
    | some (.waiting _) => if P.awaits then { s with calls := s.calls.set i .dropped } else s
    | _ => s

def machine : Machine Meter MeterEvent := ⟨⟨0, []⟩, P.step⟩

/-- No response costs more than `T`, and no more than `k` calls wait at a time. -/
def Within (T k : ℕ) (s : Meter) : MeterEvent → Prop
  | .decide _ _ _ => s.waiting < k
  | .respond _ (.ok response) => P.usage response ≤ T
  | _ => True

/-! ## What a step does -/

/-- The steps of a run that stays within `T` and `k`. -/
inductive Metering (T k : ℕ) (s : Meter) : Meter → Prop where
  | stays : Metering T k s s
  | enters (c : Deciding) (htokens : c.tokens = 0)
      (hsent : c.isSent = true → P.tokenBudget.any (· ≤ s.tokensUsed) = false ∧ s.waiting < k) :
      Metering T k s { s with calls := s.calls ++ [c] }
  | leaves (l r : List Deciding) (nameToId : List (String × String)) (c : Deciding)
      (hcalls : s.calls = l ++ .waiting nameToId :: r) (hwaiting : c.isWaiting = false)
      (hsent : c.isSent = true) (htokens : c.tokens ≤ T) :
      Metering T k s ⟨(s.tokensUsed + c.tokens) % 2 ^ 64, l ++ c :: r⟩

theorem tokens_enter (used : ℕ) (goal : Goal) (ctx : Context) (caps : List Capability) :
    (P.enter used goal ctx caps).tokens = 0 := by
  unfold enter
  split
  · rfl
  · cases P.request goal ctx caps <;> rfl

theorem within_budget_of_isSent_enter {used : ℕ} {goal : Goal} {ctx : Context}
    {caps : List Capability} (h : (P.enter used goal ctx caps).isSent = true) :
    P.tokenBudget.any (· ≤ used) = false := by
  unfold enter at h
  split at h
  case isTrue => cases h
  case isFalse hbudget => exact Bool.eq_false_iff.mpr hbudget

variable {P} {T k : ℕ} {s : Meter}

/-- A call that waits is replaced in its place. -/
theorem exists_of_waiting {i : ℕ} {nameToId : List (String × String)}
    (h : s.calls[i]? = some (.waiting nameToId)) (c : Deciding) :
    ∃ l r, s.calls = l ++ .waiting nameToId :: r ∧ s.calls.set i c = l ++ c :: r := by
  obtain ⟨hi, hget⟩ := List.getElem?_eq_some_iff.mp h
  obtain ⟨l, r, hcalls, -, hset⟩ := List.exists_of_set hi
  exact ⟨l, r, by rw [hcalls, hget], hset⟩

theorem step_of_not_waiting {i : ℕ} (h : ∀ nameToId, s.calls[i]? ≠ some (.waiting nameToId))
    (result : Except String Value) : P.step s (.respond i result) = s ∧ P.step s (.drop i) = s := by
  unfold step
  constructor
  all_goals
    dsimp only
    split
    case h_1 nameToId hi => exact absurd hi (h nameToId)
    case h_2 => rfl

theorem metering (hused : s.tokensUsed < 2 ^ 64) {e : MeterEvent} (h : P.Within T k s e) :
    P.Metering T k s (P.step s e) := by
  cases e with
  | decide goal ctx caps =>
    exact .enters _ (P.tokens_enter _ goal ctx caps) fun hsent =>
      ⟨P.within_budget_of_isSent_enter hsent, h⟩
  | respond i result =>
    -- only a call that still waits can be answered or dropped
    by_cases hi : ∃ nameToId, s.calls[i]? = some (.waiting nameToId)
    · obtain ⟨nameToId, hi⟩ := hi
      obtain ⟨l, r, hcalls, hset⟩ := exists_of_waiting hi
        (.answered (P.leave nameToId result).1 (P.leave nameToId result).2)
      have hstep : P.step s (.respond i result) =
          ⟨(s.tokensUsed + (P.leave nameToId result).1) % 2 ^ 64, s.calls.set i
            (.answered (P.leave nameToId result).1 (P.leave nameToId result).2)⟩ := by
        rw [step, hi]
      rw [hstep, hset]
      refine .leaves l r nameToId (.answered _ _) hcalls rfl rfl ?_
      cases result with
      | ok response => exact h
      | error e => exact Nat.zero_le T
    · rw [(step_of_not_waiting (not_exists.mp hi) result).1]
      exact .stays
  | drop i =>
    by_cases hi : ∃ nameToId, s.calls[i]? = some (.waiting nameToId)
    · obtain ⟨nameToId, hi⟩ := hi
      obtain ⟨l, r, hcalls, hset⟩ := exists_of_waiting hi .dropped
      have hstep : P.step s (.drop i) =
          if P.awaits then { s with calls := s.calls.set i .dropped } else s := by
        rw [step, hi]
      rw [hstep]
      split
      case isFalse => exact .stays
      case isTrue =>
        have hleaves : P.Metering T k s ⟨(s.tokensUsed + 0) % 2 ^ 64, l ++ .dropped :: r⟩ :=
          .leaves l r nameToId .dropped hcalls rfl rfl (Nat.zero_le T)
        rwa [Nat.add_zero, Nat.mod_eq_of_lt hused, ← hset] at hleaves
    · rw [(step_of_not_waiting (not_exists.mp hi) (.error "")).2]
      exact .stays

/-! ## What a run keeps -/

/-- Each call that waits may still cost `T`. -/
structure Kept (b T k : ℕ) (s : Meter) : Prop where
  exact : s.tokensUsed = s.spent
  bounded : s.tokensUsed + s.waiting * T ≤ b - 1 + k * T

theorem Kept.lt {b : ℕ} (h : Kept b T k s) (hb : 0 < b) (hroom : b + k * T ≤ 2 ^ 64) :
    s.tokensUsed < 2 ^ 64 := by
  have := h.bounded
  omega

section Budget

variable {b : ℕ} (hbudget : P.tokenBudget = some b) (hb : 0 < b) (hroom : b + k * T ≤ 2 ^ 64)

include hbudget hb hroom

theorem Kept.metering {s' : Meter} (h : Kept b T k s) (hs : P.Metering T k s s') :
    Kept b T k s' := by
  have hbounded := h.bounded
  cases hs with
  | stays => exact h
  | enters c htokens hsent =>
    have hspent : Meter.spent { s with calls := s.calls ++ [c] } = s.spent := by
      simp [Meter.spent, htokens]
    refine ⟨h.exact.trans hspent.symm, ?_⟩
    -- a call that waits has passed the check, so it is below the budget and the bound has room
    cases hwaiting : c.isWaiting with
    | false => simpa [Meter.waiting, hwaiting] using hbounded
    | true =>
      have hc : c.isSent = true := by cases c <;> first | rfl | cases hwaiting
      obtain ⟨hnot, hlt⟩ := hsent hc
      have hused : s.tokensUsed < b := by simpa [hbudget] using hnot
      have hcount : Meter.waiting { s with calls := s.calls ++ [c] } = s.waiting + 1 := by
        simp [Meter.waiting, hwaiting]
      have hle : (s.waiting + 1) * T ≤ k * T := Nat.mul_le_mul_right T hlt
      show s.tokensUsed + Meter.waiting _ * T ≤ _
      rw [hcount]
      omega
  | leaves l r nameToId c hcalls hwaiting hsent htokens =>
    -- what the answer costs was set aside while the call waited
    have hcount : s.waiting = (l ++ c :: r).countP Deciding.isWaiting + 1 := by
      simp only [Meter.waiting, hcalls, List.countP_append, List.countP_cons, hwaiting,
        Deciding.isWaiting_waiting, if_true, Bool.false_eq_true, if_false]
      omega
    have hspent : ((l ++ c :: r).map Deciding.tokens).sum = s.spent + c.tokens := by
      simp only [Meter.spent, hcalls, List.map_append, List.map_cons, List.sum_append,
        List.sum_cons, Deciding.tokens_waiting]
      omega
    rw [hcount, Nat.add_mul, Nat.one_mul] at hbounded
    have hmod : (s.tokensUsed + c.tokens) % 2 ^ 64 = s.tokensUsed + c.tokens :=
      Nat.mod_eq_of_lt (by omega)
    refine ⟨?_, ?_⟩
    · show _ = ((l ++ c :: r).map Deciding.tokens).sum
      rw [hspent, ← h.exact]
      exact hmod
    · show _ % 2 ^ 64 + (l ++ c :: r).countP Deciding.isWaiting * T ≤ _
      rw [hmod]
      omega

theorem kept {es : List MeterEvent} (hes : P.machine.Guarded (P.Within T k) es) :
    Kept b T k (P.machine.reached es) := by
  refine Machine.invariant_of_guarded (I := fun _ => Kept b T k) ?_ ?_ hes
  · exact ⟨rfl, by simp [machine, Meter.waiting]⟩
  · intro es s e h he
    exact h.metering hbudget hb hroom (metering (h.lt hb hroom) he)

/-- Once the budget is used up it stays so, and no request goes out. -/
theorem Kept.exhausted {s' : Meter} (h : Kept b T k s) (hs : P.Metering T k s s')
    (hused : b ≤ s.tokensUsed) : b ≤ s'.tokensUsed ∧ s'.sent = s.sent := by
  cases hs with
  | stays => exact ⟨hused, rfl⟩
  | enters c htokens hsent =>
    refine ⟨hused, ?_⟩
    have hc : c.isSent = false := by
      by_contra hc
      have hnot := (hsent (Bool.not_eq_false _ ▸ hc)).1
      simp only [hbudget, Option.any_some, decide_eq_false_iff_not] at hnot
      exact hnot hused
    simp [Meter.sent, hc]
  | leaves l r nameToId c hcalls hwaiting hsent htokens =>
    have hk : s.waiting ≠ 0 := by
      simp [Meter.waiting, hcalls]
    have hT : T ≤ s.waiting * T := Nat.le_mul_of_pos_left T (Nat.pos_of_ne_zero hk)
    have hbounded := h.bounded
    refine ⟨?_, ?_⟩
    · show b ≤ (s.tokensUsed + c.tokens) % 2 ^ 64
      rw [Nat.mod_eq_of_lt (by omega)]
      omega
    · simp only [Meter.sent, hcalls, List.countP_append, List.countP_cons, hsent,
        Deciding.isSent_waiting]

theorem exhausted_run {es es' : List MeterEvent}
    (hes : P.machine.Guarded (P.Within T k) (es ++ es'))
    (hused : b ≤ (P.machine.reached es).tokensUsed) :
    b ≤ (P.machine.reached (es ++ es')).tokensUsed ∧
      (P.machine.reached (es ++ es')).sent = (P.machine.reached es).sent := by
  induction es' using List.reverseRecOn with
  | nil => exact ⟨by simpa using hused, by simp⟩
  | append_singleton es' e ih =>
    rw [← List.append_assoc] at hes ⊢
    obtain ⟨hpre, he⟩ := Machine.guarded_concat.mp hes
    obtain ⟨hle, hsent⟩ := ih hpre
    have hkept := kept hbudget hb hroom hpre
    rw [Machine.reached_concat, ← hsent]
    exact hkept.exhausted hbudget hb hroom (metering (hkept.lt hb hroom) he) hle

end Budget

/-! ## How far beyond the budget -/

/-- `u` tokens are used, and the last `n` calls are those that wait. -/
def At (nameToId : List (String × String)) (u n : ℕ) (s : Meter) : Prop :=
  s.tokensUsed = u ∧ ∃ l, s.calls = l ++ List.replicate n (.waiting nameToId) ∧
    l.countP Deciding.isWaiting = 0

variable {nameToId : List (String × String)} {u n : ℕ}

theorem At.waiting (h : At nameToId u n s) : s.waiting = n := by
  obtain ⟨-, l, hcalls, hl⟩ := h
  simp [Meter.waiting, hcalls, hl, List.countP_replicate]

/-- A call that cannot be refused. -/
theorem At.enter {goal : Goal} {ctx : Context} {caps : List Capability} {request : Value}
    (hrequest : P.request goal ctx caps = some (request, nameToId)) (h : At nameToId u n s)
    (hbudget : P.tokenBudget.any (· ≤ u) = false) :
    At nameToId u (n + 1) (P.step s (.decide goal ctx caps)) := by
  obtain ⟨hused, l, hcalls, hl⟩ := h
  have henter : P.enter s.tokensUsed goal ctx caps = .waiting nameToId := by
    rw [Metered.enter, hused, hbudget, hrequest]
    rfl
  refine ⟨hused, l, ?_, hl⟩
  show s.calls ++ [P.enter s.tokensUsed goal ctx caps] = _
  rw [henter, hcalls, List.append_assoc, ← List.replicate_succ']

/-- The first of the calls that wait has its response. -/
theorem At.leave {response : Value} (h : At nameToId u (n + 1) s)
    (hroom : u + P.usage response < 2 ^ 64) :
    ∃ i, At nameToId (u + P.usage response) n (P.step s (.respond i (.ok response))) := by
  obtain ⟨hused, l, hcalls, hl⟩ := h
  rw [List.replicate_succ] at hcalls
  have hi : s.calls[l.length]? = some (.waiting nameToId) := by simp [hcalls]
  have hstep : P.step s (.respond l.length (.ok response)) =
      ⟨(s.tokensUsed + P.usage response) % 2 ^ 64, s.calls.set l.length
        (.answered (P.usage response) (P.interpret nameToId response))⟩ := by
    rw [step, hi]
    rfl
  refine ⟨l.length, ?_⟩
  rw [hstep]
  refine ⟨?_, l ++ [.answered (P.usage response) (P.interpret nameToId response)], ?_, ?_⟩
  · show (s.tokensUsed + P.usage response) % 2 ^ 64 = _
    rw [hused, Nat.mod_eq_of_lt hroom]
  · show s.calls.set l.length _ = _
    simp [hcalls]
  · rw [List.countP_append, hl]
    rfl

/-- Some run within `T` and `k` ends so. -/
def Hits (P : Metered) (T k : ℕ) (nameToId : List (String × String)) (u n : ℕ) : Prop :=
  ∃ es, P.machine.Guarded (P.Within T k) es ∧ At nameToId u n (P.machine.reached es)

theorem Hits.enter {goal : Goal} {ctx : Context} {caps : List Capability} {request : Value}
    (hrequest : P.request goal ctx caps = some (request, nameToId)) (h : Hits P T k nameToId u n)
    (hbudget : P.tokenBudget.any (· ≤ u) = false) (hn : n < k) :
    Hits P T k nameToId u (n + 1) := by
  obtain ⟨es, hes, hat⟩ := h
  refine ⟨es ++ [.decide goal ctx caps], Machine.guarded_concat.mpr ⟨hes, ?_⟩, ?_⟩
  · show Meter.waiting _ < k
    rwa [hat.waiting]
  · rw [Machine.reached_concat]
    exact hat.enter hrequest hbudget

theorem Hits.leave (h : Hits P T k nameToId u (n + 1)) (response : Value)
    (hT : P.usage response ≤ T) (hroom : u + P.usage response < 2 ^ 64) :
    Hits P T k nameToId (u + P.usage response) n := by
  obtain ⟨es, hes, hat⟩ := h
  obtain ⟨i, hat'⟩ := hat.leave hroom
  have hwithin : P.Within T k (P.machine.reached es) (.respond i (.ok response)) := hT
  refine ⟨es ++ [.respond i (.ok response)], Machine.guarded_concat.mpr ⟨hes, hwithin⟩, ?_⟩
  rw [Machine.reached_concat]
  exact hat'

/-- A request can be made, and a response may say that it cost any number of tokens. -/
structure Priced (P : Metered) : Prop where
  requests : ∃ goal ctx caps r, P.request goal ctx caps = some r
  costs : ∀ n < 2 ^ 64, ∃ response, P.usage response = n

/-- One call after another brings the count to just below the budget, and `k` calls that came
before it changed take it further by `T` each. -/
theorem exists_overshoot (hP : P.Priced) {b : ℕ} (hbudget : P.tokenBudget = some b) (hb : 0 < b)
    (hk : 0 < k) (hT : 0 < T) (hroom : b + k * T ≤ 2 ^ 64) :
    ∃ es, P.machine.Guarded (P.Within T k) es ∧
      (P.machine.reached es).tokensUsed = b - 1 + k * T := by
  obtain ⟨goal, ctx, caps, ⟨request, nameToId⟩, hrequest⟩ := hP.requests
  have hTk : T ≤ k * T := Nat.le_mul_of_pos_left T hk
  obtain ⟨one, hone⟩ := hP.costs 1 (by omega)
  obtain ⟨most, hmost⟩ := hP.costs T (by omega)
  have hopen : ∀ u < b, P.tokenBudget.any (· ≤ u) = false := fun u hu => by
    simpa [hbudget] using hu
  -- first one token at a time, up to one below the budget
  have hbelow : ∀ u < b, Hits P T k nameToId u 0 := by
    intro u
    induction u with
    | zero => exact fun _ => ⟨[], Machine.guarded_nil _, rfl, [], rfl, rfl⟩
    | succ u ih =>
      intro hu
      have hwaits := (ih (by omega)).enter hrequest (hopen u (by omega)) hk
      have hleaves := hwaits.leave one (by omega) (by omega)
      rwa [hone] at hleaves
  -- then `k` calls pass the check before any of them is answered
  have hwaiting : ∀ n ≤ k, Hits P T k nameToId (b - 1) n := by
    intro n
    induction n with
    | zero => exact fun _ => hbelow (b - 1) (by omega)
    | succ n ih =>
      intro hn
      exact (ih (by omega)).enter hrequest (hopen (b - 1) (by omega)) hn
  -- and each of them is answered with as much as a call may cost
  have hanswered : ∀ m ≤ k, Hits P T k nameToId (b - 1 + m * T) (k - m) := by
    intro m
    induction m with
    | zero =>
      intro _
      rw [Nat.zero_mul]
      exact hwaiting k le_rfl
    | succ m ih =>
      intro hm
      have hle : (m + 1) * T ≤ k * T := Nat.mul_le_mul_right T hm
      rw [Nat.add_mul, Nat.one_mul] at hle ⊢
      have hwaits := ih (by omega)
      rw [show k - m = k - (m + 1) + 1 by omega] at hwaits
      have hleaves := hwaits.leave most (by omega) (by omega)
      rwa [hmost, Nat.add_assoc] at hleaves
  obtain ⟨es, hes, hat⟩ := hanswered k le_rfl
  exact ⟨es, hes, hat.1⟩

end Metered

/-! ## The providers -/

theorem OpenAiProvider.priced (J : JsonText) (displayF64 : F64 → String) (p : OpenAiProvider) :
    (p.metered J displayF64).Priced where
  requests := ⟨⟨"", 0, "", .tick 0⟩, ⟨[]⟩, [], _, rfl⟩
  costs n _ :=
    ⟨.object [("usage", .object [("total_tokens", .number (.posInt n))])], by
      simp [metered, usage, Value.asU64]⟩

theorem AnthropicProvider.priced (J : JsonText) (displayF64 : F64 → String)
    (p : AnthropicProvider) : (p.metered J displayF64).Priced where
  requests := ⟨⟨"", 0, "", .tick 0⟩, ⟨[]⟩, [], _, rfl⟩
  costs n hn := by
    refine ⟨.object [("usage", .object [("input_tokens", .number (.posInt n))])], ?_⟩
    have houtput : (Value.object [("input_tokens", .number (.posInt n))]).get "output_tokens" =
        none := by
      simp [Value.get, Value.asObject, SortedMap.get]
    simp only [metered, usage, Value.get_singleton, houtput, Option.bind_some, Option.bind_none,
      Value.asU64, Option.getD_some, Option.getD_none, Nat.add_zero]
    exact Nat.mod_eq_of_lt hn

namespace ChatModel

variable (J : JsonText) (displayF64 : F64 → String) (p : ChatModel)

theorem priced : (p.metered J displayF64).Priced := by
  cases p with
  | openAi p => exact p.priced J displayF64
  | anthropic p => exact p.priced J displayF64

/-- A budget of `b` is kept up to what may be under way: with at most `T` tokens for a response
and at most `k` calls at a time, `b - 1 + k * T` is the most that is ever used. No response goes
uncounted but those of dropped calls, and no request goes out once the budget is used up. -/
theorem budget_kept {b T k : ℕ} (hbudget : (p.metered J displayF64).tokenBudget = some b)
    (hb : 0 < b) (hk : 0 < k) (hT : 0 < T) (hroom : b + k * T ≤ 2 ^ 64) :
    let P := p.metered J displayF64
    IsGreatest {u | ∃ es, P.machine.Guarded (P.Within T k) es ∧
      (P.machine.reached es).tokensUsed = u} (b - 1 + k * T) ∧
    ∀ es es', P.machine.Guarded (P.Within T k) (es ++ es') →
      (P.machine.reached (es ++ es')).tokensUsed = (P.machine.reached (es ++ es')).spent ∧
      (b ≤ (P.machine.reached es).tokensUsed →
        (P.machine.reached (es ++ es')).sent = (P.machine.reached es).sent) := by
  intro P
  refine ⟨⟨?_, ?_⟩, ?_⟩
  · exact Metered.exists_overshoot (p.priced J displayF64) hbudget hb hk hT hroom
  · rintro u ⟨es, hes, rfl⟩
    exact (Nat.le_add_right _ _).trans (Metered.kept hbudget hb hroom hes).bounded
  · intro es es' hes
    refine ⟨(Metered.kept hbudget hb hroom hes).exact, ?_⟩
    intro hused
    exact (Metered.exhausted_run hbudget hb hroom hes hused).2

/-- Two calls at a time, of at most 300 tokens each, may use 1599 tokens of a budget of 1000. -/
theorem budget_kept_of_two :
    let P := (openAi ⟨"m", "Help.", 300, ⟨0⟩, some 1000⟩).metered ⟨fun _ => "0", fun _ => none⟩
      fun _ => "0"
    IsGreatest {u | ∃ es, P.machine.Guarded (P.Within 300 2) es ∧
      (P.machine.reached es).tokensUsed = u} 1599 :=
  (budget_kept _ _ (openAi ⟨"m", "Help.", 300, ⟨0⟩, some 1000⟩) (b := 1000) (T := 300) (k := 2)
    rfl (by omega) (by omega) (by omega) (by omega)).1

end ChatModel

end Pan
