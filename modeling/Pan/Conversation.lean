import Pan.Library.Machine
import Pan.Session
import Pan.Termination
import Mathlib.Data.List.Perm.Basic

namespace Pan

open Eff

/-! ## A dispatch of the daemon returns -/

theorem resolve_responsive (registry : CapabilityRegistry) (g : ResolveGovernor) :
    (⟨registry, g.governor, EchoExecutor Unit, []⟩ : Pipeline Unit).Responsive where
  govern _ capability _ _ := by
    unfold ResolveGovernor.governor
    dsimp only
    split <;> rfl
  preInvoke _ h := by cases h
  postInvoke _ h := by cases h
  execute _ _ _ := rfl
  executeWithInvoker _ _ _ := .returns

theorem dispatchIntents_returns (formats : Formats) {P : Pipeline Unit} (hP : P.Responsive)
    (scope : Scope) (intents out : List ActionIntent) :
    Returns (dispatchIntents formats P scope intents out) := by
  induction intents generalizing out with
  | nil => exact Returns.pure _
  | cons intent intents ih =>
    cases intent with
    | invoke capability args correlation =>
      unfold dispatchIntents
      refine Returns.bind (Pipeline.dispatch_returns hP _) fun r => ?_
      cases r with
      | error e => exact Returns.pure _
      | ok effected => exact ih _
    | express body => exact ih _
    | conclude outcome => exact ih _

theorem runJob_returns (d : Daemon) (answer : LlmAnswer) (job : PerceiveJob) :
    Returns (Session.runJob d answer job) :=
  dispatchIntents_returns _ (resolve_responsive _ _) _ _ _

/-- No error of the pipeline is reported as superseded. -/
theorem dispatchIntents_errorCode (formats : Formats) (P : Pipeline Unit) (scope : Scope)
    (intents out : List ActionIntent) :
    Triple (fun _ _ => True) (dispatchIntents formats P scope intents out)
      (fun r _ _ => ∀ message, r ≠ .failed .superseded message) fun _ => True := by
  induction intents generalizing out with
  | nil => exact Triple.pure fun _ _ _ _ h => by cases h
  | cons intent intents ih =>
    cases intent with
    | invoke capability args correlation =>
      unfold dispatchIntents
      refine Triple.bind (Triple.unknown _) fun r => ?_
      cases r with
      | error e => exact Triple.pure fun _ _ _ _ h => by cases e <;> cases h
      | ok effected => exact ih _
    | express body => exact ih _
    | conclude outcome => exact ih _

/-- The outcome that a job can have: its mind decided and the decision was dispatched. -/
def PerceiveJob.Yields (d : Daemon) (job : PerceiveJob) (outcome : DispatchOutcome) : Prop :=
  ∃ answer, (Session.runJob d answer job ()).2 = some (outcome, ())

theorem PerceiveJob.Yields.ne_superseded {d : Daemon} {job : PerceiveJob}
    {outcome : DispatchOutcome} (h : job.Yields d outcome) (message : String) :
    outcome ≠ .failed .superseded message := by
  obtain ⟨answer, hr⟩ := h
  exact (dispatchIntents_errorCode _ _ _ _ _).returns (h := []) trivial hr message

/-! ## The machine -/

/-- A `hello` that is refused: it does not speak this version of the protocol. -/
def Envelope.versionRefused (env : Envelope) : Bool :=
  match env.ty, env.body with
  | .hello, .hello b => decide (b.protocolVersion ≠ PROTOCOL_VERSION ∨ b.profile ≠ "reachlock/0")
  | _, _ => false

def Session.begins (d : Daemon) (s : Session) (env : Envelope) : Option PerceiveJob :=
  if env.ty = .perceive then
    match (s.beginPerceive d env.seq env.body).1 with
    | .ok job => some job
    | .error _ => none
  else none

inductive SessionEvent where
  /-- `handle`, where the endpoint would answer so. -/
  | handle (env : Envelope) (answer : LlmAnswer)
  /-- `begin_perceive` with a `perceive`. -/
  | beginPerceive (env : Envelope)
  /-- `finish_perceive_with_outcome` for the job at this place among those in flight. -/
  | finishPerceive (i : ℕ) (outcome : DispatchOutcome)
  /-- An error of the transport, with a number from `alloc_seq`. -/
  | transport (code : ErrorCode) (message : String)

structure Conversation where
  session : Session
  received : List Envelope
  /-- The jobs in flight, each with the number of its envelope among those received. -/
  inFlight : List (ℕ × PerceiveJob)
  begun : List PerceiveJob
  /-- The envelopes built, each with the number of the one it answers. -/
  sent : List (Option ℕ × Envelope)

namespace Conversation

def start : Conversation := ⟨.new, [], [], [], []⟩

variable (d : Daemon)

def step (c : Conversation) : SessionEvent → Conversation
  | .handle env answer =>
    match (c.session.handle d answer env ()).2 with
    | none => c
    | some ((result, session), ()) =>
      -- a hello of another version is answered by the transport
      let outs := match result with
        | .ok outs => outs
        | .error _ => []
      { c with
        session
        received := c.received ++ [env]
        begun := c.begun ++ (c.session.begins d env).toList
        sent := c.sent ++ outs.map fun out => (some c.received.length, out) }
  | .beginPerceive env =>
    if env.ty = .perceive then
      match c.session.beginPerceive d env.seq env.body with
      | (.error outs, session) =>
        { c with
          session
          received := c.received ++ [env]
          sent := c.sent ++ outs.map fun out => (some c.received.length, out) }
      | (.ok job, session) =>
        { c with
          session
          received := c.received ++ [env]
          inFlight := c.inFlight ++ [(c.received.length, job)]
          begun := c.begun ++ [job] }
    else c
  | .finishPerceive i outcome =>
    match c.inFlight[i]? with
    | none => c
    | some (n, job) =>
      let (outs, session) := c.session.finishPerceiveWithOutcome job outcome
      { c with
        session
        inFlight := c.inFlight.eraseIdx i
        sent := c.sent ++ outs.map fun out => (some n, out) }
  | .transport code message =>
    let (out, session) := c.session.out none (.error ⟨code, message⟩)
    { c with session, sent := c.sent ++ [(none, out)] }

end Conversation

def conversation (d : Daemon) : Machine Conversation SessionEvent := ⟨.start, Conversation.step d⟩

/-! ## The ledger -/

def newest (goalId : String) : List PerceiveJob → ℕ
  | [] => 0
  | job :: jobs =>
    if job.goal.id = goalId then max job.goal.revision (newest goalId jobs)
    else newest goalId jobs

theorem newest_append (goalId : String) (jobs jobs' : List PerceiveJob) :
    newest goalId (jobs ++ jobs') = max (newest goalId jobs) (newest goalId jobs') := by
  induction jobs with
  | nil => simp [newest]
  | cons job jobs ih =>
    rw [List.cons_append, newest, newest, ih]
    by_cases hid : job.goal.id = goalId
    · rw [if_pos hid, if_pos hid]
      omega
    · rw [if_neg hid, if_neg hid]

theorem lt_newest {goalId : String} {jobs : List PerceiveJob} {r : ℕ} :
    r < newest goalId jobs ↔ ∃ job ∈ jobs, job.goal.id = goalId ∧ r < job.goal.revision := by
  induction jobs with
  | nil => simp [newest]
  | cons job jobs ih =>
    rw [newest, List.exists_mem_cons_iff, ← ih]
    by_cases hid : job.goal.id = goalId
    · rw [if_pos hid]
      simp only [hid, true_and]
      omega
    · rw [if_neg hid]
      simp [hid]

/-- Jobs for other goals do not count. -/
theorem newest_filter (goalId : String) (jobs : List PerceiveJob) :
    newest goalId (jobs.filter fun job => job.goal.id == goalId) = newest goalId jobs := by
  induction jobs with
  | nil => rfl
  | cons job jobs ih =>
    by_cases hid : job.goal.id = goalId
    · rw [List.filter_cons_of_pos (by simpa using hid), newest, newest, ih]
    · rw [List.filter_cons_of_neg (by simpa using hid), newest, if_neg hid, ih]

namespace Session

/-- So many numbers were allocated and these jobs were put on the ledger. -/
structure After (s s' : Session) (used : ℕ) (begun : List PerceiveJob) : Prop where
  nextSeq : s'.nextSeq = s.nextSeq + used
  latest : ∀ goalId, s'.latest goalId = max (s.latest goalId) (newest goalId begun)

/-- One envelope answers `re`; the ledger is as before. -/
def Answers (s : Session) (re : ℕ) (r : Handled) : Prop :=
  ∃ body s', r = (.ok [.outgoing s.nextSeq (some re) body], s') ∧ s.After s' 1 []

variable {d : Daemon} {s : Session} {re : ℕ} {body : Body}

theorem After.of_eq {s' : Session} {used : ℕ} (hseq : s'.nextSeq = s.nextSeq + used)
    (hledger : s'.latestRevision = s.latestRevision) : s.After s' used [] := by
  refine ⟨hseq, fun goalId => ?_⟩
  have hlatest : s'.latest goalId = s.latest goalId := by
    unfold Session.latest
    rw [hledger]
  rw [hlatest, newest]
  omega

theorem reply_answers {s' : Session} (hseq : s'.nextSeq = s.nextSeq)
    (hledger : s'.latestRevision = s.latestRevision) : s.Answers re (s'.reply re body) := by
  refine ⟨body, { s' with nextSeq := s'.nextSeq + 1 }, ?_, .of_eq (congrArg (· + 1) hseq) hledger⟩
  rw [← hseq]
  rfl

theorem errorResponse_answers (code : ErrorCode) (message : String) :
    s.Answers re (s.errorResponse re code message) :=
  reply_answers rfl rfl

theorem onRegister_answers : s.Answers re (s.onRegister re body) := by
  unfold onRegister
  split
  · split
    · exact errorResponse_answers _ _
    · exact reply_answers rfl rfl
  · exact errorResponse_answers _ _

theorem onInstantiate_answers : s.Answers re (s.onInstantiate re body) := by
  unfold onInstantiate
  split
  · exact reply_answers rfl rfl
  · exact errorResponse_answers _ _

theorem onRelease_answers : s.Answers re (s.onRelease re body) := by
  unfold onRelease
  split
  · split
    · exact errorResponse_answers _ _
    · exact reply_answers rfl rfl
  · exact errorResponse_answers _ _

theorem latest_update (s : Session) (goalId goalId' : String) (entry : ℕ) :
    { s with latestRevision := Function.update s.latestRevision goalId' (some entry) }.latest
      goalId = if goalId = goalId' then entry else s.latest goalId := by
  show (Function.update s.latestRevision goalId' (some entry) goalId).getD 0 = _
  by_cases hid : goalId = goalId'
  · subst hid
    rw [if_pos rfl, Function.update_self, Option.getD_some]
  · rw [if_neg hid, Function.update_of_ne hid]
    rfl

/-- The outcome of `begin_perceive`: an error at once, or a job that is put on the ledger. -/
theorem beginPerceive_spec (d : Daemon) (s : Session) (re : ℕ) (body : Body) :
    (∃ body' s', s.beginPerceive d re body =
        (.error [.outgoing s.nextSeq (some re) body'], s') ∧ s.After s' 1 []) ∨
      ∃ job s', s.beginPerceive d re body = (.ok job, s') ∧ job.re = re ∧ s.After s' 0 [job] := by
  unfold beginPerceive
  split
  · rename_i b
    split
    · exact Or.inl ⟨_, _, rfl, .of_eq rfl rfl⟩
    · refine Or.inr ⟨_, _, rfl, rfl, rfl, fun goalId => ?_⟩
      rw [latest_update, newest, newest]
      dsimp only
      by_cases hid : goalId = b.goal.id
      · subst hid
        rw [if_pos rfl, if_pos rfl]
        by_cases hlt : s.latest b.goal.id < b.goal.revision
        · rw [if_pos hlt]
          omega
        · rw [if_neg hlt]
          omega
      · rw [if_neg hid, if_neg (Ne.symm hid)]
        omega
  · exact Or.inl ⟨_, _, rfl, .of_eq rfl rfl⟩

/-- What a finished job is answered with, given the newest revision of its goal. -/
def answerBody (latest : ℕ) (job : PerceiveJob) (outcome : DispatchOutcome) : Body :=
  if job.goal.revision < latest then .error ⟨.superseded, supersededMessage job.goal latest⟩
  else outcomeBody job outcome

theorem finishPerceive_spec (s : Session) (job : PerceiveJob) (outcome : DispatchOutcome) :
    ∃ s', s.finishPerceiveWithOutcome job outcome = ([.outgoing s.nextSeq (some job.re)
      (answerBody (s.latest job.goal.id) job outcome)], s') ∧ s.After s' 1 [] := by
  unfold finishPerceiveWithOutcome answerBody
  dsimp only
  split
  · exact ⟨_, rfl, .of_eq rfl rfl⟩
  · exact ⟨_, rfl, .of_eq rfl rfl⟩

theorem onPerceive_spec (d : Daemon) (answer : LlmAnswer) (s : Session) (env : Envelope)
    (hty : env.ty = .perceive) : ∃ body s', (s.onPerceive d answer env.seq env.body ()).2 =
      some ((.ok [.outgoing s.nextSeq (some env.seq) body], s'), ()) ∧
      s.After s' 1 (s.begins d env).toList := by
  have hbegins : s.begins d env = match (s.beginPerceive d env.seq env.body).1 with
      | .ok job => some job
      | .error _ => none := if_pos hty
  unfold onPerceive
  rcases s.beginPerceive_spec d env.seq env.body with
    ⟨body, s', hbegin, hafter⟩ | ⟨job, s', hbegin, hre, hafter⟩
  · rw [hbegin] at hbegins ⊢
    rw [hbegins]
    exact ⟨body, s', rfl, hafter⟩
  · rw [hbegin] at hbegins ⊢
    rw [hbegins]
    obtain ⟨outcome, ⟨⟩, hrun⟩ := runJob_returns d answer job ()
    obtain ⟨s'', hfinish, hafter'⟩ := s'.finishPerceive_spec job outcome
    have hseq : s'.nextSeq = s.nextSeq := hafter.nextSeq
    refine ⟨answerBody (s'.latest job.goal.id) job outcome, s'', ?_, ?_, fun goalId => ?_⟩
    · dsimp only
      rw [bind_of_some hrun, hfinish, hre, hseq]
      rfl
    · rw [hafter'.nextSeq, hseq]
    · rw [hafter'.latest, hafter.latest, newest]
      exact Nat.max_zero _

/-- An envelope is answered with one envelope, unless it is a `hello` that is refused. -/
theorem handle_spec (d : Daemon) (answer : LlmAnswer) (s : Session) (env : Envelope) :
    (env.versionRefused = true ∧ s.begins d env = none ∧
      ∃ client, (s.handle d answer env ()).2 =
        some ((.error (.versionUnsupported client PROTOCOL_VERSION), s), ())) ∨
    (env.versionRefused = false ∧ ∃ body s', (s.handle d answer env ()).2 =
        some ((.ok [.outgoing s.nextSeq (some env.seq) body], s'), ()) ∧
      s.After s' 1 (s.begins d env).toList) := by
  obtain ⟨v, seq, re, ty, body⟩ := env
  have hanswers : ∀ r : Handled, s.Answers seq r → ∃ body s',
      some (r, ()) = some ((.ok [.outgoing s.nextSeq (some seq) body], s'), ()) ∧
        s.After s' 1 [] := by
    rintro r ⟨body, s', rfl, hafter⟩
    exact ⟨body, s', rfl, hafter⟩
  -- only a hello can be refused, and only a perceive begins a job
  cases ty with
  | hello =>
    cases body with
    | hello b =>
      by_cases hrefused : b.protocolVersion ≠ PROTOCOL_VERSION ∨ b.profile ≠ "reachlock/0"
      · refine Or.inl ⟨decide_eq_true hrefused, rfl, b.protocolVersion, ?_⟩
        unfold handle onHello
        dsimp only
        rw [if_pos hrefused]
        rfl
      · refine Or.inr ⟨decide_eq_false hrefused, hanswers (s.onHello d seq (.hello b)) ?_⟩
        unfold onHello
        dsimp only
        rw [if_neg hrefused]
        exact reply_answers rfl rfl
    | _ => exact Or.inr ⟨rfl, hanswers _ (errorResponse_answers _ _)⟩
  | registerCapabilities => exact Or.inr ⟨rfl, hanswers _ onRegister_answers⟩
  | instantiateSoul => exact Or.inr ⟨rfl, hanswers _ onInstantiate_answers⟩
  | releaseSoul => exact Or.inr ⟨rfl, hanswers _ onRelease_answers⟩
  | shutdown => exact Or.inr ⟨rfl, hanswers _ (reply_answers rfl rfl)⟩
  | perceive => exact Or.inr ⟨rfl, s.onPerceive_spec d answer ⟨v, seq, re, .perceive, body⟩ rfl⟩
  | _ => exact Or.inr ⟨rfl, hanswers _ (errorResponse_answers _ _)⟩

end Session

/-! ## What a step does -/

namespace Conversation

/-- The conversation goes on with this session, having received `env`. -/
def receive (c : Conversation) (env : Envelope) (session : Session) : Conversation :=
  { c with session, received := c.received ++ [env] }

/-- An envelope is built that answers the inbound one with the number `n`. -/
def send (c : Conversation) (n : Option ℕ) (out : Envelope) : Conversation :=
  { c with sent := c.sent ++ [(n, out)] }

inductive Turn (c : Conversation) : Conversation → Prop
  | idle : Turn c c
  | refused {env} : env.versionRefused = true → Turn c (c.receive env c.session)
  | answered {env session jobs body} : env.versionRefused = false →
      c.session.After session 1 jobs →
      Turn c ({ c.receive env session with begun := c.begun ++ jobs }.send
        (some c.received.length) (.outgoing c.session.nextSeq (some env.seq) body))
  | begun {env session} {job : PerceiveJob} : env.versionRefused = false → job.re = env.seq →
      c.session.After session 0 [job] →
      Turn c { c.receive env session with
        begun := c.begun ++ [job]
        inFlight := c.inFlight ++ [(c.received.length, job)] }
  | finished {i n session body} {job : PerceiveJob} : c.inFlight[i]? = some (n, job) →
      c.session.After session 1 [] →
      Turn c ({ c with session, inFlight := c.inFlight.eraseIdx i }.send (some n)
        (.outgoing c.session.nextSeq (some job.re) body))
  | transport {session body} : c.session.After session 1 [] →
      Turn c ({ c with session }.send none (.outgoing c.session.nextSeq none body))

theorem versionRefused_of_perceive {env : Envelope} (hty : env.ty = .perceive) :
    env.versionRefused = false := by
  unfold Envelope.versionRefused
  rw [hty]

section Steps

variable {d : Daemon} {c : Conversation} {env : Envelope} {session : Session}

theorem step_handle_refused {answer : LlmAnswer} {e : SessionError}
    (hr : (c.session.handle d answer env ()).2 = some ((.error e, c.session), ()))
    (hbegins : c.session.begins d env = none) :
    c.step d (.handle env answer) = c.receive env c.session := by
  simp [step, hr, hbegins, receive]

theorem step_handle_answered {answer : LlmAnswer} {out : Envelope}
    (hr : (c.session.handle d answer env ()).2 = some ((.ok [out], session), ())) :
    c.step d (.handle env answer) = ({ c.receive env session with
      begun := c.begun ++ (c.session.begins d env).toList }.send (some c.received.length) out) := by
  simp [step, hr, receive, send]

theorem step_begin_answered {out : Envelope} (hty : env.ty = .perceive)
    (hr : c.session.beginPerceive d env.seq env.body = (.error [out], session)) :
    c.step d (.beginPerceive env) =
      (c.receive env session).send (some c.received.length) out := by
  simp [step, hty, hr, receive, send]

theorem step_begin_job {job : PerceiveJob} (hty : env.ty = .perceive)
    (hr : c.session.beginPerceive d env.seq env.body = (.ok job, session)) :
    c.step d (.beginPerceive env) = { c.receive env session with
      begun := c.begun ++ [job]
      inFlight := c.inFlight ++ [(c.received.length, job)] } := by
  simp [step, hty, hr, receive]

theorem step_finish {i n : ℕ} {job : PerceiveJob} {outcome : DispatchOutcome} {out : Envelope}
    (hjob : c.inFlight[i]? = some (n, job))
    (hr : c.session.finishPerceiveWithOutcome job outcome = ([out], session)) :
    c.step d (.finishPerceive i outcome) =
      ({ c with session, inFlight := c.inFlight.eraseIdx i }.send (some n) out) := by
  simp [step, hjob, hr, send]

end Steps

theorem step_turn (d : Daemon) (c : Conversation) (e : SessionEvent) : c.Turn (c.step d e) := by
  cases e with
  | handle env answer =>
    rcases c.session.handle_spec d answer env with
      ⟨hrefused, hbegins, client, hr⟩ | ⟨hrefused, body, s', hr, hafter⟩
    · rw [step_handle_refused hr hbegins]
      exact .refused hrefused
    · rw [step_handle_answered hr]
      exact .answered hrefused hafter
  | beginPerceive env =>
    by_cases hty : env.ty = .perceive
    · have hrefused := versionRefused_of_perceive hty
      rcases c.session.beginPerceive_spec d env.seq env.body with
        ⟨body, s', hbegin, hafter⟩ | ⟨job, s', hbegin, hre, hafter⟩
      · rw [step_begin_answered hty hbegin]
        have hturn : c.Turn ({ c.receive env s' with begun := c.begun ++ [] }.send
            (some c.received.length) (.outgoing c.session.nextSeq (some env.seq) body)) :=
          .answered hrefused hafter
        rwa [List.append_nil] at hturn
      · rw [step_begin_job hty hbegin]
        exact .begun hrefused hre hafter
    · have hstep : c.step d (.beginPerceive env) = c := if_neg hty
      rw [hstep]
      exact .idle
  | finishPerceive i outcome =>
    rcases hjob : c.inFlight[i]? with _ | ⟨n, job⟩
    · have hstep : c.step d (.finishPerceive i outcome) = c := by
        simp [step, hjob]
      rw [hstep]
      exact .idle
    · obtain ⟨s', hfinish, hafter⟩ := c.session.finishPerceive_spec job outcome
      rw [step_finish hjob hfinish]
      exact .finished hjob hafter
  | transport code message => exact .transport (.of_eq rfl rfl)

/-! ## Replies and numbers -/

/-- The number of replies that the inbound envelope with this number is due. -/
def due (c : Conversation) (n : ℕ) : ℕ :=
  match c.received[n]? with
  | some env => if env.versionRefused then 0 else 1
  | none => 0

/-- The replies that are built or still to come from a job in flight. -/
def replies (c : Conversation) (n : ℕ) : ℕ :=
  c.sent.countP (fun r => r.1 == some n) + c.inFlight.countP (fun p => p.1 == n)

/-- What a session sends is numbered without a gap, and what it receives has its one reply, or a
job in flight that will reply. -/
structure Disciplined (c : Conversation) : Prop where
  nextSeq : c.session.nextSeq = c.sent.length
  seqs : c.sent.map (fun r => r.2.seq) = List.range c.sent.length
  replies : ∀ n, c.replies n = c.due n
  re : ∀ n out, (some n, out) ∈ c.sent →
    ∃ env, c.received[n]? = some env ∧ out.re = some env.seq
  unsolicited : ∀ out, (none, out) ∈ c.sent → out.re = none
  jobs : ∀ n job, (n, job) ∈ c.inFlight → ∃ env, c.received[n]? = some env ∧ job.re = env.seq

variable {c : Conversation}

theorem received_concat (env : Envelope) (n : ℕ) : (c.received ++ [env])[n]? =
    if n = c.received.length then some env else c.received[n]? := by
  rw [List.getElem?_append]
  by_cases hlt : n < c.received.length
  · rw [if_pos hlt, if_neg (by omega)]
  · rw [if_neg hlt]
    by_cases heq : n = c.received.length
    · rw [if_pos heq, heq, Nat.sub_self]
      rfl
    · rw [if_neg heq, List.getElem?_eq_none (by simp; omega), List.getElem?_eq_none (by omega)]

theorem getElem?_receive {n : ℕ} {env env' : Envelope} (h : c.received[n]? = some env) :
    (c.received ++ [env'])[n]? = some env := by
  have hlt : n < c.received.length := (List.getElem?_eq_some_iff.mp h).1
  rw [List.getElem?_append_left hlt, h]

theorem due_receive (env : Envelope) (session : Session) (n : ℕ) :
    (c.receive env session).due n =
      if n = c.received.length then if env.versionRefused then 0 else 1 else c.due n := by
  have h := received_concat (c := c) env n
  unfold due receive
  dsimp only
  rw [h]
  by_cases heq : n = c.received.length
  · rw [if_pos heq, if_pos heq]
  · rw [if_neg heq, if_neg heq]

/-- Nothing answers an envelope that is still to be received. -/
theorem due_length : c.due c.received.length = 0 := by
  unfold due
  rw [List.getElem?_eq_none (Nat.le_refl _)]

theorem replies_send (k : Option ℕ) (out : Envelope) (n : ℕ) :
    (c.send k out).replies n = c.replies n + if k = some n then 1 else 0 := by
  unfold replies send
  simp only [List.countP_append, List.countP_singleton, beq_iff_eq]
  omega

/-- Sending one envelope under the next number. -/
theorem seqs_send (hseqs : c.sent.map (fun r => r.2.seq) = List.range c.sent.length)
    (hnext : c.session.nextSeq = c.sent.length) (k : Option ℕ) (re : Option ℕ) (body : Body) :
    (c.send k (.outgoing c.session.nextSeq re body)).sent.map (fun r => r.2.seq) =
      List.range (c.send k (.outgoing c.session.nextSeq re body)).sent.length := by
  unfold send
  rw [List.map_append, hseqs, List.length_append, List.length_singleton, List.range_succ, hnext]
  rfl

/-- The numbers of a session have no gap, and the next one is that of the next envelope. -/
theorem Turn.numbered {c' : Conversation} (ht : c.Turn c')
    (hnext : c.session.nextSeq = c.sent.length)
    (hseqs : c.sent.map (fun r => r.2.seq) = List.range c.sent.length) :
    c'.session.nextSeq = c'.sent.length ∧
      c'.sent.map (fun r => r.2.seq) = List.range c'.sent.length := by
  have hone : ∀ {session : Session} {jobs : List PerceiveJob} {r : Option ℕ × Envelope},
      c.session.After session 1 jobs → session.nextSeq = (c.sent ++ [r]).length := by
    intro session jobs r hafter
    rw [hafter.nextSeq, hnext, List.length_append, List.length_singleton]
  cases ht with
  | idle => exact ⟨hnext, hseqs⟩
  | refused => exact ⟨hnext, hseqs⟩
  | answered _ hafter => exact ⟨hone hafter, seqs_send hseqs hnext _ _ _⟩
  | begun _ _ hafter => exact ⟨hafter.nextSeq.trans hnext, hseqs⟩
  | finished _ hafter => exact ⟨hone hafter, seqs_send hseqs hnext _ _ _⟩
  | transport hafter => exact ⟨hone hafter, seqs_send hseqs hnext _ _ _⟩

/-- Each envelope that is received becomes due its reply, which is built or put in flight, and a
job that finishes has its reply built. -/
theorem Turn.replies_eq_due {c' : Conversation} (ht : c.Turn c')
    (hc : ∀ n, c.replies n = c.due n) (n : ℕ) : c'.replies n = c'.due n := by
  have hn := hc n
  cases ht with
  | idle => exact hn
  | @refused env hrefused =>
    have hreplies : (c.receive env c.session).replies n = c.due n := hn
    rw [due_receive, hreplies, hrefused]
    by_cases heq : n = c.received.length
    · rw [if_pos heq, heq, due_length]
      rfl
    · rw [if_neg heq]
  | @answered env session jobs body hrefused =>
    rw [replies_send]
    show c.replies n + _ = (c.receive env session).due n
    rw [due_receive, hn, hrefused]
    by_cases heq : n = c.received.length
    · rw [if_pos heq, heq, due_length]
      simp
    · rw [if_neg heq, if_neg (by simpa using Ne.symm heq)]
      omega
  | @begun env session job hrefused =>
    show c.sent.countP _ + (c.inFlight ++ [(c.received.length, job)]).countP _ =
      (c.receive env session).due n
    unfold Conversation.replies at hn
    rw [due_receive, hrefused, List.countP_append, List.countP_singleton, ← Nat.add_assoc, hn]
    by_cases heq : n = c.received.length
    · rw [if_pos heq, heq, due_length]
      simp
    · rw [if_neg heq, if_neg (by simpa using Ne.symm heq), Nat.add_zero]
  | @finished i m session body job hjob =>
    obtain ⟨hlt, hget⟩ := List.getElem?_eq_some_iff.mp hjob
    have hperm := List.getElem_cons_eraseIdx_perm hlt
    rw [hget] at hperm
    -- the job is no longer in flight, and its reply is built
    have hcount := hperm.countP_eq fun p => p.1 == n
    rw [List.countP_cons] at hcount
    rw [replies_send]
    show c.sent.countP _ + (c.inFlight.eraseIdx i).countP _ + _ = c.due n
    unfold Conversation.replies at hn
    by_cases heq : m = n
    · simp only [heq, beq_self_eq_true, if_true] at hcount ⊢
      omega
    · have hne : (m == n) = false := by simpa using heq
      simp only [hne, Option.some.injEq, heq, if_false, Bool.false_eq_true] at hcount ⊢
      omega
  | transport =>
    rw [replies_send]
    exact hn

/-- What has been received stays received. -/
theorem Turn.received {c' : Conversation} (ht : c.Turn c') {n : ℕ} {env : Envelope}
    (h : c.received[n]? = some env) : c'.received[n]? = some env := by
  cases ht with
  | idle => exact h
  | refused => exact getElem?_receive h
  | answered => exact getElem?_receive h
  | begun => exact getElem?_receive h
  | finished => exact h
  | transport => exact h

def Correlated (c : Conversation) (r : Option ℕ × Envelope) : Prop :=
  match r.1 with
  | some n => ∃ env, c.received[n]? = some env ∧ r.2.re = some env.seq
  | none => r.2.re = none

theorem Disciplined.correlated (hc : c.Disciplined) : ∀ r ∈ c.sent, c.Correlated r := by
  rintro ⟨_ | n, out⟩ hr
  · exact hc.unsolicited out hr
  · exact hc.re n out hr

theorem Correlated.turn {c' : Conversation} (ht : c.Turn c') {r : Option ℕ × Envelope}
    (hr : c.Correlated r) : c'.Correlated r := by
  obtain ⟨_ | n, out⟩ := r
  · exact hr
  · obtain ⟨env, henv, hre⟩ := hr
    exact ⟨env, ht.received henv, hre⟩

/-- What a step builds is correlated, and so is the job that it puts in flight. -/
theorem Turn.correlated {c' : Conversation} (ht : c.Turn c') (hc : c.Disciplined) :
    (∀ r ∈ c'.sent, c'.Correlated r) ∧ ∀ n job, (n, job) ∈ c'.inFlight →
      ∃ env, c'.received[n]? = some env ∧ job.re = env.seq := by
  have hsent : ∀ r ∈ c.sent, c'.Correlated r := fun r hr => (hc.correlated r hr).turn ht
  have hjobs : ∀ n job, (n, job) ∈ c.inFlight →
      ∃ env, c'.received[n]? = some env ∧ job.re = env.seq := by
    intro n job hp
    obtain ⟨env, henv, hre⟩ := hc.jobs n job hp
    exact ⟨env, ht.received henv, hre⟩
  cases ht with
  | idle => exact ⟨hsent, hjobs⟩
  | refused => exact ⟨hsent, hjobs⟩
  | @answered env =>
    refine ⟨List.forall_mem_append.mpr ⟨hsent, List.forall_mem_singleton.mpr ?_⟩, hjobs⟩
    exact ⟨env, List.getElem?_concat_length, rfl⟩
  | @begun env session job _ hre =>
    refine ⟨hsent, fun n job' hp => ?_⟩
    rcases List.mem_append.mp hp with hp | hp
    · exact hjobs n job' hp
    · cases List.mem_singleton.mp hp
      exact ⟨env, List.getElem?_concat_length, hre⟩
  | @finished i n session body job hjob =>
    obtain ⟨env, henv, hre⟩ := hjobs n job (List.mem_of_getElem? hjob)
    refine ⟨List.forall_mem_append.mpr ⟨hsent, List.forall_mem_singleton.mpr ?_⟩,
      fun m job' hp => hjobs m job' (List.mem_of_mem_eraseIdx hp)⟩
    exact ⟨env, henv, congrArg some hre⟩
  | transport =>
    exact ⟨List.forall_mem_append.mpr ⟨hsent, List.forall_mem_singleton.mpr rfl⟩, hjobs⟩

theorem Turn.disciplined {c' : Conversation} (ht : c.Turn c') (hc : c.Disciplined) :
    c'.Disciplined := by
  obtain ⟨hnext, hseqs⟩ := ht.numbered hc.nextSeq hc.seqs
  obtain ⟨hsent, hjobs⟩ := ht.correlated hc
  exact {
    nextSeq := hnext
    seqs := hseqs
    replies := ht.replies_eq_due hc.replies
    re := fun n out hr => hsent (some n, out) hr
    unsolicited := fun out hr => hsent (none, out) hr
    jobs := hjobs }

/-- The ledger has the newest revision of each goal among the perceives that were accepted. -/
theorem Turn.ledger {c' : Conversation} (ht : c.Turn c')
    (hc : ∀ goalId, c.session.latest goalId = newest goalId c.begun) (goalId : String) :
    c'.session.latest goalId = newest goalId c'.begun := by
  have hafter : ∀ {session : Session} {used : ℕ} {jobs : List PerceiveJob},
      c.session.After session used jobs →
      session.latest goalId = newest goalId (c.begun ++ jobs) := by
    intro session used jobs h
    rw [h.latest, hc, newest_append]
  cases ht with
  | idle => exact hc goalId
  | refused => exact hc goalId
  | answered _ h => exact hafter h
  | begun _ _ h => exact hafter h
  | finished _ h =>
    have := hafter h
    rwa [List.append_nil] at this
  | transport h =>
    have := hafter h
    rwa [List.append_nil] at this

end Conversation

section Runs

variable (d : Daemon) (es : List SessionEvent)

theorem reached_disciplined : ((conversation d).reached es).Disciplined := by
  apply Machine.invariant (M := conversation d) (I := fun _ c => c.Disciplined)
  · exact ⟨rfl, rfl, fun _ => rfl, fun _ _ h => (by cases h), fun _ h => (by cases h),
      fun _ _ h => (by cases h)⟩
  · intro _ c e hc
    exact (Conversation.step_turn d c e).disciplined hc

theorem reached_latest (goalId : String) : ((conversation d).reached es).session.latest goalId =
    newest goalId ((conversation d).reached es).begun := by
  apply Machine.invariant (M := conversation d)
    (I := fun _ c => ∀ goalId, c.session.latest goalId = newest goalId c.begun)
  · intro goalId
    rfl
  · intro _ c e hc
    exact (Conversation.step_turn d c e).ledger hc

/-- Whatever the order of the calls, a job that finishes is answered with one envelope that refers
to it. It is superseded if and only if a perceive for the same goal with a newer revision has been
accepted before; perceives for other goals make no difference. -/
theorem superseded_iff_newer_begun (i n : ℕ) (job : PerceiveJob) (outcome : DispatchOutcome)
    (hjob : ((conversation d).reached es).inFlight[i]? = some (n, job)) :
    ∃ out, (((conversation d).reached es).step d (.finishPerceive i outcome)).sent =
        ((conversation d).reached es).sent ++ [(some n, out)] ∧ out.re = some job.re ∧
      ((∃ rival ∈ ((conversation d).reached es).begun, rival.goal.id = job.goal.id ∧
          job.goal.revision < rival.goal.revision) →
        ∃ message, out.body = .error ⟨.superseded, message⟩) ∧
      ((¬∃ rival ∈ ((conversation d).reached es).begun, rival.goal.id = job.goal.id ∧
          job.goal.revision < rival.goal.revision) → out.body = match outcome with
            | .ok intents => .decision ⟨job.soulId, job.goal.id, job.goal.revision, ⟨intents⟩⟩
            | .failed code message => .error ⟨code, message⟩) ∧
      (job.Yields d outcome → (out.body.errorCode = some .superseded ↔
        ∃ rival ∈ ((conversation d).reached es).begun, rival.goal.id = job.goal.id ∧
          job.goal.revision < rival.goal.revision)) ∧
      out.body = Session.answerBody (newest job.goal.id (((conversation d).reached es).begun.filter
        fun rival => rival.goal.id == job.goal.id)) job outcome := by
  have hlatest := reached_latest d es job.goal.id
  generalize (conversation d).reached es = c at hjob hlatest ⊢
  -- the answer is settled by the ledger alone, and the ledger by the perceives that were begun
  obtain ⟨s', hfinish, -⟩ := c.session.finishPerceive_spec job outcome
  have hsent : (c.step d (.finishPerceive i outcome)).sent = c.sent ++ [(some n, .outgoing
      c.session.nextSeq (some job.re)
        (Session.answerBody (c.session.latest job.goal.id) job outcome))] := by
    rw [Conversation.step_finish hjob hfinish]
    rfl
  rw [hlatest] at hsent
  refine ⟨_, hsent, rfl, fun hnewer => ?_, fun hnewer => ?_, fun hyields => ?_, ?_⟩
  · exact ⟨_, if_pos (lt_newest.mpr hnewer)⟩
  · have hbody : Session.answerBody (newest job.goal.id c.begun) job outcome =
        Session.outcomeBody job outcome := if_neg fun hlt => hnewer (lt_newest.mp hlt)
    refine hbody.trans ?_
    cases outcome <;> rfl
  · rw [← lt_newest]
    by_cases hlt : job.goal.revision < newest job.goal.id c.begun
    · exact iff_of_true (congrArg Body.errorCode (if_pos hlt)) hlt
    · -- no dispatch fails with this code, so it can only come from the ledger
      refine iff_of_false (fun hcode => ?_) hlt
      have hbody : Session.answerBody (newest job.goal.id c.begun) job outcome =
          Session.outcomeBody job outcome := if_neg hlt
      have hcode' : (Session.outcomeBody job outcome).errorCode = some .superseded := by
        rw [← hbody]
        exact hcode
      cases outcome with
      | ok intents => cases hcode'
      | failed code message =>
        cases hcode'
        exact hyields.ne_superseded message rfl
  · rw [newest_filter]
    rfl

end Runs

def quietDaemon : Daemon := ⟨⟨fun _ => "", id⟩, false⟩

/-- A `perceive` of a soul. -/
def perceiveEnvelope (seq : ℕ) (soulId : String) (goal : Goal) : Envelope :=
  ⟨PROTOCOL_VERSION, seq, none, .perceive, .perceive ⟨soulId, goal, ⟨[]⟩⟩⟩

/-- A soul without rules and two perceives of one goal, the second with a newer revision. -/
def twoPerceives : List SessionEvent :=
  [.handle ⟨PROTOCOL_VERSION, 0, none, .instantiateSoul, .instantiateSoul ⟨"s", .rules, .null⟩⟩
      fun _ _ _ => ⟨[]⟩,
    .beginPerceive (perceiveEnvelope 1 "s" (tickGoal "g" 1)),
    .beginPerceive (perceiveEnvelope 2 "s" (tickGoal "g" 2))]

/-- The first of the two is superseded, the second decided. -/
theorem superseded_iff_newer_begun_two : ∃ job job' out out',
    ((conversation quietDaemon).reached twoPerceives).inFlight = [(1, job), (2, job')] ∧
    (((conversation quietDaemon).reached twoPerceives).step quietDaemon
      (.finishPerceive 0 (.ok []))).sent =
        ((conversation quietDaemon).reached twoPerceives).sent ++ [(some 1, out)] ∧
    out.re = some 1 ∧ (∃ message, out.body = .error ⟨.superseded, message⟩) ∧
    (((conversation quietDaemon).reached twoPerceives).step quietDaemon
      (.finishPerceive 1 (.ok []))).sent =
        ((conversation quietDaemon).reached twoPerceives).sent ++ [(some 2, out')] ∧
    out'.re = some 2 ∧ out'.body = .decision ⟨"s", "g", 2, ⟨[]⟩⟩ := by
  have hjobs : ((conversation quietDaemon).reached twoPerceives).inFlight =
      [(1, ⟨1, "s", tickGoal "g" 1, ⟨[]⟩, .rules ⟨[]⟩, [], .empty, .new .empty⟩),
        (2, ⟨2, "s", tickGoal "g" 2, ⟨[]⟩, .rules ⟨[]⟩, [], .empty, .new .empty⟩)] := rfl
  have hbegun : ((conversation quietDaemon).reached twoPerceives).begun =
      [⟨1, "s", tickGoal "g" 1, ⟨[]⟩, .rules ⟨[]⟩, [], .empty, .new .empty⟩,
        ⟨2, "s", tickGoal "g" 2, ⟨[]⟩, .rules ⟨[]⟩, [], .empty, .new .empty⟩] := rfl
  obtain ⟨out, hsent, hre, hnewer, -⟩ :=
    superseded_iff_newer_begun quietDaemon twoPerceives 0 1 _ (.ok [])
      (congrArg (fun l => l[0]?) hjobs)
  obtain ⟨out', hsent', hre', -, hnewest, -⟩ :=
    superseded_iff_newer_begun quietDaemon twoPerceives 1 2 _ (.ok [])
      (congrArg (fun l => l[1]?) hjobs)
  refine ⟨_, _, out, out', hjobs, hsent, hre, hnewer ?_, hsent', hre', hnewest ?_⟩
  · rw [hbegun]
    exact ⟨_, List.mem_cons_of_mem _ (List.mem_singleton_self _), rfl, Nat.one_lt_two⟩
  · rw [hbegun]
    simp [tickGoal]

end Pan
