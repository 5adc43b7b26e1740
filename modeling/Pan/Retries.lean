import Pan.Library.Retry
import Pan.Requests

namespace Pan

def MAX_RETRIES : ℕ := 3

def parseRetryAfter (raw : String) : Option ℕ := do
  let (head, _) ← Text.splitAtPattern crlfBlank raw.toList
  let waits := (lines (String.ofList head)).filter fun line =>
    "retry-after:".toList <+: (asciiLowercase line).toList
  waits.findSome? fun line => do
    let value ← (line.toList.splitOn ':')[1]?
    let secs ← parseU64 (trim (String.ofList value)).toList
    return min secs 30 * 1000

/-- Up to half of the base, from the nanoseconds of the clock. -/
def randDelay (subsecNanos baseMs : ℕ) : ℕ := subsecNanos % (baseMs / 2 + 1)

def backoff (nanos : ℕ → ℕ) (attempt : ℕ) : Eff HttpStep ℕ PUnit :=
  let delayMs := 500 * 2 ^ (attempt - 1)
  if 0 < attempt then Eff.emit (.sleep (delayMs + randDelay (nanos attempt) delayMs))
  else pure PUnit.unit

def waitAsAsked (raw : String) : Eff HttpStep ℕ PUnit :=
  match parseRetryAfter raw with
  | some ms => Eff.emit (.sleep ms)
  | none => pure PUnit.unit

section Loops

variable (J : JsonText) (formats : Formats) (jsonError : String → String) (nanos : ℕ → ℕ)
  (replies : ℕ → Except String String)

def postAttempts (target : Target) (body : Value) (extraHeaders : List (String × String)) :
    ℕ → ℕ → Option (ℕ × String) → Eff HttpStep ℕ (Except String Value)
  | 0, _, lastErr =>
    match lastErr with
    | some (status, msg) => return .error s!"HTTP {status} after {MAX_RETRIES} retries: {msg}"
    | none => return .error "max retries exceeded"
  | more + 1, attempt, _ => do
    backoff nanos attempt
    let request := buildRequestEx J target.host target.fullPath body extraHeaders
    match ← exchange replies target request with
    | .error e => return .error e
    | .ok raw =>
      match parseResponse J formats jsonError raw with
      | none => Eff.never
      | some (.ok val) => return .ok val
      | some (.error (status, msg)) =>
        if 429 ≤ status then
          -- `retry-after` is waited for before it is clear that there is another attempt
          waitAsAsked raw
          if status = 429 ∨ 500 ≤ status then
            postAttempts target body extraHeaders more (attempt + 1) (some (status, msg))
          else return .error s!"HTTP {status}: {msg}"
        else return .error msg

def postJsonEx (base path : String) (body : Value) (extraHeaders : List (String × String)) :
    Eff HttpStep ℕ (Except String Value) :=
  match parseBase formats base path with
  | .error e => return .error e
  | .ok target =>
    postAttempts J formats jsonError nanos replies target body extraHeaders (MAX_RETRIES + 1) 0 none

def postAttemptsAsync (target : Target) (body : Value) (extraHeaders : List (String × String)) :
    ℕ → ℕ → Option (ℕ × String) → Eff HttpStep ℕ (Except String Value)
  | 0, _, lastErr =>
    match lastErr with
    | some (status, msg) => return .error s!"HTTP {status} after {MAX_RETRIES} retries: {msg}"
    | none => return .error "max retries exceeded"
  | more + 1, attempt, _ => do
    backoff nanos attempt
    let request := buildRequestEx J target.host target.fullPath body
      (extraHeaders.map fun (k, v) => (k, v))
    match ← exchange replies target request with
    | .error e => return .error e
    | .ok raw =>
      match parseResponse J formats jsonError raw with
      | none => Eff.never
      | some (.ok val) => return .ok val
      | some (.error (status, msg)) =>
        if 429 ≤ status then
          waitAsAsked raw
          if status = 429 ∨ 500 ≤ status then
            postAttemptsAsync target body extraHeaders more (attempt + 1) (some (status, msg))
          else return .error s!"HTTP {status}: {msg}"
        else return .error msg

def postJsonExAsync (base path : String) (body : Value) (extraHeaders : List (String × String)) :
    Eff HttpStep ℕ (Except String Value) :=
  match parseBase formats base path with
  | .error e => return .error e
  | .ok target =>
    postAttemptsAsync J formats jsonError nanos replies target body extraHeaders (MAX_RETRIES + 1) 0
      none

end Loops

/-! ## The policy -/

def parsedVerdict : Option (Except (ℕ × String) Value) →
    Retry.Verdict (ℕ × String) (Except String Value)
  | none => .stuck
  | some (.ok val) => .stop (.ok val)
  | some (.error (status, msg)) =>
    if status = 429 ∨ 500 ≤ status then .again (status, msg)
    else if 429 ≤ status then .stop (.error s!"HTTP {status}: {msg}")
    else .stop (.error msg)

def replyVerdict (J : JsonText) (formats : Formats) (jsonError : String → String) :
    Except String String → Retry.Verdict (ℕ × String) (Except String Value)
  | .error e => .stop (.error e)
  | .ok raw => parsedVerdict (parseResponse J formats jsonError raw)

def givenUp : Option (ℕ × String) → Except String Value
  | some (status, msg) => .error s!"HTTP {status} after {MAX_RETRIES} retries: {msg}"
  | none => .error "max retries exceeded"

variable {J : JsonText} {formats : Formats} {jsonError : String → String}

theorem postAttemptsAsync_eq (nanos : ℕ → ℕ) (replies : ℕ → Except String String)
    (target : Target) (body : Value) (extraHeaders : List (String × String)) (more attempt : ℕ)
    (lastErr : Option (ℕ × String)) :
    postAttemptsAsync J formats jsonError nanos replies target body extraHeaders more attempt
        lastErr =
      postAttempts J formats jsonError nanos replies target body extraHeaders more attempt
        lastErr := by
  induction more generalizing attempt lastErr with
  | zero => rfl
  | succ more ih =>
    have hheaders : (extraHeaders.map fun (k, v) => (k, v)) = extraHeaders := List.map_id' _
    unfold postAttemptsAsync postAttempts
    simp only [hheaders, ih]

variable {nanos : ℕ → ℕ} {replies : ℕ → Except String String}

theorem keepActions_backoff (attempt : ℕ) :
    (backoff nanos attempt).keepActions HttpStep.exchanged = pure PUnit.unit := by
  unfold backoff
  dsimp only
  split_ifs
  · exact Eff.keepActions_emit_of_none HttpStep.exchanged rfl
  · rfl

theorem keepActions_waitAsAsked (raw : String) :
    (waitAsAsked raw).keepActions HttpStep.exchanged = pure PUnit.unit := by
  unfold waitAsAsked
  split
  · exact Eff.keepActions_emit_of_none HttpStep.exchanged rfl
  · rfl

variable (J formats jsonError nanos replies) in
/-- The blocking loop is a run of the policy on the replies, with the same request each time. -/
theorem postAttempts_run (target : Target) (body : Value)
    (extraHeaders : List (String × String)) (more attempt : ℕ) (lastErr : Option (ℕ × String))
    (n : ℕ) :
    let tries := Retry.run (fun i => replyVerdict J formats jsonError (replies i)) givenUp more n
      lastErr
    n ≤ tries.1 ∧
      (postAttempts J formats jsonError nanos replies target body extraHeaders more attempt
        lastErr).keepActions HttpStep.exchanged n =
        (List.replicate (tries.1 - n)
          (target, buildRequestEx J target.host target.fullPath body extraHeaders),
          tries.2.map fun r => (r, tries.1)) := by
  induction more generalizing attempt lastErr n with
  | zero =>
    cases lastErr <;> simp [postAttempts, Retry.run, givenUp]
  | succ more ih =>
    have hone : n + 1 - n = 1 := by omega
    rw [postAttempts, Retry.run, Eff.keepActions_bind, keepActions_backoff, Eff.bind_eq]
    simp only [Eff.pure_apply, List.nil_append, Eff.keepActions_bind, Eff.bind_eq,
      keepActions_exchange]
    cases hreply : replies n with
    | error e =>
      have hv : replyVerdict J formats jsonError (.error e) = .stop (.error e) := rfl
      simp [hv, hone]
    | ok raw =>
      have hv : replyVerdict J formats jsonError (.ok raw) =
          parsedVerdict (parseResponse J formats jsonError raw) := rfl
      rw [hv]
      rcases hparse : parseResponse J formats jsonError raw with _ | ⟨status, msg⟩ | val
      · simp [hparse, hone, parsedVerdict]
      · by_cases hagain : status = 429 ∨ 500 ≤ status
        · have hbusy : 429 ≤ status := by omega
          obtain ⟨hle, hrun⟩ := ih (attempt + 1) (some (status, msg)) (n + 1)
          simp only [hparse, parsedVerdict, if_pos hagain, if_pos hbusy, Eff.keepActions_bind,
            keepActions_waitAsAsked, Eff.bind_eq, Eff.pure_apply, List.nil_append]
          rw [hrun]
          refine ⟨Nat.le_of_succ_le hle, ?_⟩
          -- one more exchange before those of the rest
          rw [List.singleton_append, ← List.replicate_succ]
          congr 2
          omega
        · by_cases hbusy : 429 ≤ status
          · simp [hparse, parsedVerdict, hagain, hbusy, hone, keepActions_waitAsAsked, Eff.bind_eq]
          · simp [hparse, parsedVerdict, hagain, hbusy, hone]
      · simp [hparse, parsedVerdict, hone]

/-! ## Posts -/

/-- The reply is a response with a status of 429 or from 500 on. -/
def Busy (reply : Except String String) : Prop :=
  ∃ raw head body status, reply = .ok raw ∧ splitResponseBody raw = .ok (head, body) ∧
    statusCode head = some status ∧ (status = 429 ∨ 500 ≤ status)

/-- The reply is a 200 with the value as its JSON body. -/
def AnswersWith (J : JsonText) (reply : Except String String) (v : Value) : Prop :=
  ∃ raw head body, reply = .ok raw ∧ splitResponseBody raw = .ok (head, body) ∧
    statusCode head = some 200 ∧ J.fromStr body = some v

def Panics (reply : Except String String) : Prop := ∃ raw, reply = .ok raw ∧ Uncuttable raw

/-- The first attempt that does not find the server busy, or the last one there is. -/
structure LastAttempt (replies : ℕ → Except String String) (k : ℕ) : Prop where
  le : k ≤ MAX_RETRIES
  busy : ∀ i < k, Busy (replies i)
  last : ¬Busy (replies k) ∨ k = MAX_RETRIES

/-- What a post is to do: to send the same request up to the last attempt, and to return what that
one answers. -/
structure PostsRight (J : JsonText) (formats : Formats) (replies : ℕ → Except String String)
    (base path : String) (body : Value) (extraHeaders : List (String × String))
    (run : List (Target × String) × Option (Except String Value × ℕ)) : Prop where
  unparsed : ∀ e, parseBase formats base path = .error e →
    run.1 = [] ∧ run.2.map Prod.fst = some (.error e)
  parsed : ∀ target, parseBase formats base path = .ok target →
    ∃ k, LastAttempt replies k ∧
      run.1 = List.replicate (k + 1)
        (target, buildRequestEx J target.host target.fullPath body extraHeaders) ∧
      ∃ r n, run.2 = some (r, n) ∧ ∀ v, r = .ok v ↔ AnswersWith J (replies k) v

variable {reply : Except String String}

variable (J formats jsonError) in
theorem settle_eq_none_iff :
    (replyVerdict J formats jsonError reply).settle givenUp = none ↔ Panics reply := by
  cases reply with
  | error e => exact iff_of_false (by simp [replyVerdict, Retry.Verdict.settle]) (by simp [Panics])
  | ok raw =>
    have hpanics : Panics (.ok raw) ↔ Uncuttable raw := by simp [Panics]
    rw [hpanics, ← parseResponse_eq_none_iff J formats jsonError,
      replyVerdict]
    rcases parseResponse J formats jsonError raw with _ | ⟨status, msg⟩ | val
    · exact iff_of_true rfl rfl
    · refine iff_of_false ?_ (by simp)
      unfold parsedVerdict
      dsimp only
      split_ifs <;> simp [Retry.Verdict.settle]
    · exact iff_of_false (by simp [parsedVerdict, Retry.Verdict.settle]) (by simp)

variable (J formats jsonError) in
theorem settle_eq_ok_iff {v : Value} :
    (replyVerdict J formats jsonError reply).settle givenUp = some (.ok v) ↔
      AnswersWith J reply v := by
  cases reply with
  | error e =>
    exact iff_of_false (by simp [replyVerdict, Retry.Verdict.settle]) (by simp [AnswersWith])
  | ok raw =>
    have hanswers : AnswersWith J (.ok raw) v ↔ ∃ head body,
        splitResponseBody raw = .ok (head, body) ∧ statusCode head = some 200 ∧
          J.fromStr body = some v := by simp [AnswersWith]
    rw [hanswers, ← parseResponse_eq_ok_iff J formats jsonError,
      replyVerdict]
    rcases parseResponse J formats jsonError raw with _ | ⟨status, msg⟩ | val
    · exact iff_of_false (by simp [parsedVerdict, Retry.Verdict.settle]) (by simp)
    · refine iff_of_false ?_ (by simp)
      unfold parsedVerdict
      dsimp only
      split_ifs <;> simp [Retry.Verdict.settle, givenUp]
    · simp [parsedVerdict, Retry.Verdict.settle]

variable (J formats jsonError) in
/-- Where the parsing of a reply does not panic, the server is busy exactly if another attempt is
made. -/
theorem isAgain_iff (hreply : ¬Panics reply) :
    (replyVerdict J formats jsonError reply).IsAgain ↔ Busy reply := by
  cases reply with
  | error e => exact iff_of_false (by simp [replyVerdict, Retry.Verdict.IsAgain]) (by simp [Busy])
  | ok raw =>
    have hcut : ¬Uncuttable raw := fun h => hreply ⟨raw, rfl, h⟩
    rw [replyVerdict]
    constructor
    · rintro ⟨e, he⟩
      rcases hparse : parseResponse J formats jsonError raw with _ | ⟨status, msg⟩ | val
      · simp [hparse, parsedVerdict] at he
      · have hbusy : status = 429 ∨ 500 ≤ status := by
          by_contra hidle
          rw [hparse, parsedVerdict, if_neg hidle] at he
          split_ifs at he
        have hstatus : status ≠ 0 := by omega
        obtain ⟨head, body, hsplit, hcode⟩ := exists_of_parseResponse_eq_error hparse hstatus
        exact ⟨raw, head, body, status, rfl, hsplit, hcode, hbusy⟩
      · simp [hparse, parsedVerdict] at he
    · rintro ⟨_, head, body, status, ⟨rfl⟩, hsplit, hstatus, hbusy⟩
      have hfail : status ≠ 200 := by omega
      obtain ⟨front, -, -, hparse⟩ :=
        exists_front_of_failure J formats jsonError hsplit hstatus hfail hcut
      rw [hparse]
      exact ⟨(status, front), if_pos hbusy⟩

theorem exists_lastAttempt (replies : ℕ → Except String String) :
    ∃ k, LastAttempt replies k := by
  classical
  -- the policy of the one who only looks at the status
  let idle : ℕ → Retry.Verdict Unit Unit := fun i =>
    if Busy (replies i) then .again () else .stop ()
  have hidle : ∀ i, (idle i).IsAgain ↔ Busy (replies i) := by
    intro i
    by_cases h : Busy (replies i) <;> simp [idle, h, Retry.Verdict.IsAgain]
  obtain ⟨k, hk⟩ := Retry.exists_stopsAt idle (Nat.succ_pos MAX_RETRIES) 0
  refine ⟨k, ?_, fun i hi => (hidle i).mp (hk.again i (Nat.zero_le i) hi), ?_⟩
  · have := hk.lt
    omega
  · rcases hk.last with hlast | hlast
    · exact Or.inl (mt (hidle k).mpr hlast)
    · right
      omega

/-- The policy goes as far as the last attempt, if no reply on the way panics. -/
theorem stopsAt_of_lastAttempt {k : ℕ} (hk : LastAttempt replies k)
    (hpanics : ∀ i ≤ k, ¬Panics (replies i)) :
    Retry.StopsAt (fun i => replyVerdict J formats jsonError (replies i)) (MAX_RETRIES + 1) 0
      k := by
  refine ⟨Nat.zero_le k, ?_, ?_, ?_⟩
  · have := hk.le
    omega
  · intro i _ hi
    exact (isAgain_iff J formats jsonError (hpanics i hi.le)).mpr (hk.busy i hi)
  · rcases hk.last with hlast | hlast
    · exact Or.inl (mt (isAgain_iff J formats jsonError (hpanics k (le_refl k))).mp hlast)
    · right
      omega

/-- A reply that panics before the policy is through is where it stops. -/
theorem panics_of_stopsAt {k k' i : ℕ} (hk : LastAttempt replies k)
    (hk' : Retry.StopsAt (fun i => replyVerdict J formats jsonError (replies i)) (MAX_RETRIES + 1) 0
      k') (hi : i ≤ k) (hpanics : Panics (replies i)) : Panics (replies k') := by
  have hstuck : ¬(replyVerdict J formats jsonError (replies i)).IsAgain := by
    rintro ⟨e, he⟩
    have := (settle_eq_none_iff J formats jsonError).mpr hpanics
    rw [he] at this
    cases this
  have hle : k' ≤ i := hk'.le_of_not_isAgain (Nat.zero_le i) hstuck
  rcases Nat.eq_or_lt_of_le hle with rfl | hlt
  · exact hpanics
  · by_contra hno
    have hbusy := (isAgain_iff J formats jsonError hno).mpr
      (hk.busy k' (hlt.trans_le hi))
    rcases hk'.last with hlast | hlast
    · exact hlast hbusy
    · have := hk.le
      omega

variable (J formats jsonError nanos replies) in
theorem postJsonEx_run {base path : String} {target : Target}
    (htarget : parseBase formats base path = .ok target) (body : Value)
    (extraHeaders : List (String × String)) {k : ℕ}
    (hk : Retry.StopsAt (fun i => replyVerdict J formats jsonError (replies i)) (MAX_RETRIES + 1) 0
      k) :
    (postJsonEx J formats jsonError nanos replies base path body extraHeaders).keepActions
        HttpStep.exchanged 0 =
      (List.replicate (k + 1)
          (target, buildRequestEx J target.host target.fullPath body extraHeaders),
        ((replyVerdict J formats jsonError (replies k)).settle givenUp).map fun r =>
          (r, k + 1)) := by
  obtain ⟨-, hrun⟩ := postAttempts_run J formats jsonError nanos replies target body extraHeaders
    (MAX_RETRIES + 1) 0 none 0
  unfold postJsonEx
  rw [htarget]
  dsimp only
  rw [hrun, Retry.run_eq_of_stopsAt hk]
  rfl

variable (J formats jsonError nanos replies) in
/-- A post keeps to the policy exactly if its base can be parsed, and then no reply up to the last
attempt panics. -/
theorem postsRight_iff (base path : String) (body : Value) (extraHeaders : List (String × String)) :
    PostsRight J formats replies base path body extraHeaders
        ((postJsonEx J formats jsonError nanos replies base path body extraHeaders).keepActions
          HttpStep.exchanged 0) ↔
      ∀ target k, parseBase formats base path = .ok target → LastAttempt replies k →
        ∀ i ≤ k, ¬Panics (replies i) := by
  constructor
  · -- a reply that panics leaves no result, though the last attempt would have one
    rintro ⟨-, hparsed⟩ target k htarget hk i hi hpanics
    obtain ⟨_, -, -, r, n, hresult, -⟩ := hparsed target htarget
    obtain ⟨k', hk'⟩ := Retry.exists_stopsAt
      (fun i => replyVerdict J formats jsonError (replies i)) (Nat.succ_pos MAX_RETRIES) 0
    rw [postJsonEx_run J formats jsonError nanos replies htarget body extraHeaders hk',
      (settle_eq_none_iff J formats jsonError).mpr (panics_of_stopsAt hk hk' hi hpanics)] at hresult
    cases hresult
  · intro h
    constructor
    · intro e he
      unfold postJsonEx
      rw [he]
      exact ⟨rfl, rfl⟩
    · intro target htarget
      obtain ⟨k, hk⟩ := exists_lastAttempt replies
      have hpanics := h target k htarget hk
      refine ⟨k, hk, ?_⟩
      rw [postJsonEx_run J formats jsonError nanos replies htarget body extraHeaders
        (stopsAt_of_lastAttempt hk hpanics)]
      refine ⟨rfl, ?_⟩
      cases hsettle : (replyVerdict J formats jsonError (replies k)).settle givenUp with
      | none =>
        have hstuck := (settle_eq_none_iff J formats jsonError).mp hsettle
        exact absurd hstuck (hpanics k (le_refl k))
      | some r =>
        refine ⟨r, k + 1, rfl, fun v => ?_⟩
        rw [← settle_eq_ok_iff J formats jsonError, hsettle,
          Option.some_inj]

/-- The two loops, at whatever times they run, send the same requests and return the same; and they
keep to the policy exactly if no reply up to the last attempt panics. -/
theorem posts_agree_iff (J : JsonText) (formats : Formats) (jsonError : String → String)
    (nanos nanos' : ℕ → ℕ) (replies : ℕ → Except String String) (base path : String) (body : Value)
    (extraHeaders : List (String × String)) :
    let run := (postJsonEx J formats jsonError nanos replies base path body
      extraHeaders).keepActions HttpStep.exchanged 0
    let runAsync := (postJsonExAsync J formats jsonError nanos' replies base path body
      extraHeaders).keepActions HttpStep.exchanged 0
    run = runAsync ∧
      (PostsRight J formats replies base path body extraHeaders run ↔
        ∀ target k, parseBase formats base path = .ok target → LastAttempt replies k →
          ∀ i ≤ k, ¬Panics (replies i)) := by
  refine ⟨?_, postsRight_iff J formats jsonError nanos replies base path body extraHeaders⟩
  have hasync : postJsonExAsync J formats jsonError nanos' replies base path body extraHeaders =
      postJsonEx J formats jsonError nanos' replies base path body extraHeaders := by
    unfold postJsonExAsync postJsonEx
    simp only [postAttemptsAsync_eq]
  rw [hasync]
  cases hbase : parseBase formats base path with
  | error e =>
    unfold postJsonEx
    rw [hbase]
  | ok target =>
    obtain ⟨k, hk⟩ := Retry.exists_stopsAt
      (fun i => replyVerdict J formats jsonError (replies i)) (Nat.succ_pos MAX_RETRIES) 0
    rw [postJsonEx_run J formats jsonError nanos replies hbase body extraHeaders hk,
      postJsonEx_run J formats jsonError nanos' replies hbase body extraHeaders hk]

/-- A server that fails each time, with accents in its excuse, is not asked again. -/
theorem accentedFailure_not_posted :
    ¬PostsRight ⟨fun _ => "", fun _ => none⟩ ⟨fun _ => "", id⟩ (fun _ => .ok accentedFailure)
      "http://127.0.0.1:11434/v1" "/chat/completions" .null []
      ((postJsonEx ⟨fun _ => "", fun _ => none⟩ ⟨fun _ => "", id⟩ id (fun _ => 0)
        (fun _ => .ok accentedFailure) "http://127.0.0.1:11434/v1" "/chat/completions" .null
        []).keepActions HttpStep.exchanged 0) := by
  have hbusy : Busy (.ok accentedFailure) :=
    ⟨accentedFailure, _, _, 500, rfl, splitResponseBody_accentedFailure, by decide, by decide⟩
  have hlast : LastAttempt (fun _ => .ok accentedFailure) MAX_RETRIES :=
    ⟨le_refl _, fun _ _ => hbusy, Or.inr rfl⟩
  have htarget : parseBase ⟨fun _ => "", id⟩ "http://127.0.0.1:11434/v1" "/chat/completions" =
      .ok ⟨.http, "127.0.0.1", 11434, "/v1/chat/completions"⟩ := by decide
  intro h
  exact (postsRight_iff _ _ _ _ _ _ _ _ _).mp h _ _ htarget hlast 0 (Nat.zero_le _)
    ⟨accentedFailure, rfl, uncuttable_accentedFailure⟩

end Pan
