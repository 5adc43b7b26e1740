import Pan.ReadLoop

namespace Pan

open Eff

namespace Session

@[simp] theorem renumber_renumber (s : Session) (n m : ℕ) :
    (s.renumber n).renumber m = s.renumber m := rfl

@[simp] theorem renumber_self (s : Session) : s.renumber s.nextSeq = s := rfl

variable (d : Daemon) (answer : LlmAnswer) (s : Session)

/-- What begins does not depend on the numbers. -/
theorem beginPerceive_renumber (re : ℕ) (body : Body) :
    (∃ body' : Body, ∀ n, (s.renumber n).beginPerceive d re body =
      (.error [.outgoing n (some re) body'], s.renumber (n + 1))) ∨
    ∃ (job : PerceiveJob) (s' : Session), ∀ n,
      (s.renumber n).beginPerceive d re body = (.ok job, s'.renumber n) := by
  cases body with
  | perceive b =>
    rcases hsoul : s.souls b.soulId with _ | soul
    · refine Or.inl ⟨.error ⟨.unknownSoul, s!"soul_id `{b.soulId}` is not instantiated"⟩,
        fun n => ?_⟩
      have hsoul' : (s.renumber n).souls b.soulId = none := hsoul
      unfold beginPerceive
      dsimp only
      rw [hsoul']
      rfl
    · refine Or.inr ⟨⟨re, b.soulId, b.goal, b.context, soul.provider d.llmResolved,
        s.registry.all, s.registry, s.pipeline⟩, { s with
        latestRevision := Function.update s.latestRevision b.goal.id
          (some (if s.latest b.goal.id < b.goal.revision then b.goal.revision
            else s.latest b.goal.id)) }, fun n => ?_⟩
      have hsoul' : (s.renumber n).souls b.soulId = some soul := hsoul
      unfold beginPerceive
      dsimp only
      rw [hsoul']
      rfl
  | _ => exact Or.inl ⟨_, fun n => rfl⟩

theorem begins_renumber (env : Envelope) (n : ℕ) :
    (s.renumber n).begins d env = s.begins d env := by
  unfold begins
  rcases s.beginPerceive_renumber d env.seq env.body with ⟨body, hbegin⟩ | ⟨job, s', hbegin⟩
  · have hbegin' := hbegin s.nextSeq
    rw [renumber_self] at hbegin'
    rw [hbegin n, hbegin']
  · have hbegin' := hbegin s.nextSeq
    rw [renumber_self] at hbegin'
    rw [hbegin n, hbegin']

/-- The handler gives `re` one answer, the same whatever the next number is. -/
def AnswersAlike (s : Session) (re : ℕ) (handler : Session → Handled) : Prop :=
  ∃ (body : Body) (s' : Session), ∀ n,
    handler (s.renumber n) = (.ok [.outgoing n (some re) body], s'.renumber (n + 1))

section Handlers

variable (re : ℕ) (body : Body)

theorem errorResponse_alike (code : ErrorCode) (message : String) :
    s.AnswersAlike re fun s => s.errorResponse re code message :=
  ⟨.error ⟨code, message⟩, s, fun _ => rfl⟩

theorem onRegister_alike : s.AnswersAlike re fun s => s.onRegister re body := by
  cases body with
  | registerCapabilities b =>
    unfold onRegister
    dsimp only
    -- The outcome of the registration is the host's alone.
    rcases b.capabilities.foldlM CapabilityRegistry.register CapabilityRegistry.empty with
      e | registry
    · exact s.errorResponse_alike re _ _
    · exact ⟨.ack, { s with registry, pipeline := .new registry }, fun _ => rfl⟩
  | _ => exact s.errorResponse_alike re _ _

theorem onInstantiate_alike : s.AnswersAlike re fun s => s.onInstantiate re body := by
  cases body with
  | instantiateSoul b =>
    exact ⟨.ack, { s with
      souls := Function.update s.souls b.soulId (some (.fromBody b)) }, fun _ => rfl⟩
  | _ => exact s.errorResponse_alike re _ _

theorem onRelease_alike : s.AnswersAlike re fun s => s.onRelease re body := by
  cases body with
  | releaseSoul b =>
    have hsouls : ∀ n, (s.renumber n).souls b.soulId = s.souls b.soulId := fun _ => rfl
    unfold AnswersAlike onRelease
    dsimp only
    simp only [hsouls]
    rcases s.souls b.soulId with _ | soul
    · exact s.errorResponse_alike re _ _
    · exact ⟨.ack, { s with souls := Function.update s.souls b.soulId none }, fun _ => rfl⟩
  | _ => exact s.errorResponse_alike re _ _

/-- A perceive runs a mind between its halves, and the mind is handed the job alone. -/
theorem onPerceive_renumber : ∃ (body' : Body) (s' : Session), ∀ n,
    ((s.renumber n).onPerceive d answer re body ()).2 =
      some ((.ok [.outgoing n (some re) body'], s'.renumber (n + 1)), ()) := by
  rcases s.beginPerceive_renumber d re body with ⟨body', hbegin⟩ | ⟨job, s', hbegin⟩
  · refine ⟨body', s, fun n => ?_⟩
    unfold onPerceive
    rw [hbegin n]
    rfl
  · have hre : job.re = re := by
      rcases s.beginPerceive_spec d re body with ⟨_, _, hanswered, -⟩ | ⟨_, _, hjob, hre, -⟩
      · have hok := (hbegin s.nextSeq).symm.trans hanswered
        cases hok
      · have hok := (hbegin s.nextSeq).symm.trans hjob
        cases hok
        exact hre
    obtain ⟨outcome, ⟨⟩, hrun⟩ := runJob_returns d answer job ()
    refine ⟨answerBody (s'.latest job.goal.id) job outcome, s', fun n => ?_⟩
    unfold onPerceive
    rw [hbegin n]
    dsimp only
    rw [bind_of_some hrun, finishPerceive_eq, hre]
    rfl

end Handlers

/-- What an envelope that is no `hello` does, and what it is answered with, does not depend on the
numbers. -/
theorem handle_renumber (env : Envelope) (hty : env.ty ≠ .hello) :
    ∃ (body : Body) (s' : Session), ∀ n, ((s.renumber n).handle d answer env ()).2 =
      some ((.ok [.outgoing n (some env.seq) body], s'.renumber (n + 1)), ()) := by
  obtain ⟨v, seq, re, ty, body⟩ := env
  -- All but the perceive run no effect: they return what their handler does.
  have hreturn : ∀ handler, s.AnswersAlike seq handler → ∃ (body : Body) (s' : Session), ∀ n,
      some (handler (s.renumber n), ()) =
        some ((.ok [.outgoing n (some seq) body], s'.renumber (n + 1)), ()) :=
    fun _ ⟨body, s', hs'⟩ => ⟨body, s', fun n => by rw [hs' n]⟩
  cases ty with
  | hello => exact absurd rfl hty
  | registerCapabilities => exact hreturn _ (s.onRegister_alike seq body)
  | instantiateSoul => exact hreturn _ (s.onInstantiate_alike seq body)
  | releaseSoul => exact hreturn _ (s.onRelease_alike seq body)
  | perceive => exact s.onPerceive_renumber d answer seq body
  | shutdown => exact ⟨.ack, s, fun _ => rfl⟩
  | welcome => exact hreturn _ (s.errorResponse_alike seq _ _)
  | decision => exact hreturn _ (s.errorResponse_alike seq _ _)
  | ack => exact hreturn _ (s.errorResponse_alike seq _ _)
  | error => exact hreturn _ (s.errorResponse_alike seq _ _)

end Session

/-! ## A conversation without its hellos -/

def SessionEvent.isHello : SessionEvent → Bool
  | .handle env _ => env.ty = .hello
  | _ => false

namespace Conversation

def answers (d : Daemon) (c : Conversation) (e : SessionEvent) : List (Option ℕ × Body) :=
  ((c.step d e).sent.drop c.sent.length).map fun r => (r.2.re, r.2.body)

/-- The two differ in numbers only: the registry, the souls, the ledger and the jobs are the
same. -/
structure SameButNumbers (c c' : Conversation) : Prop where
  session : ∃ n, c'.session = c.session.renumber n
  jobs : c'.inFlight.map Prod.snd = c.inFlight.map Prod.snd
  begun : c'.begun = c.begun

variable {d : Daemon} {c c' : Conversation}

/-- A `hello` has no effect but on the numbers. -/
theorem SameButNumbers.step_hello (h : c.SameButNumbers c') {e : SessionEvent}
    (he : e.isHello = true) : (c.step d e).SameButNumbers c' := by
  cases e with
  | handle env answer =>
    obtain ⟨v, seq, re, ty, body⟩ := env
    have hty : ty = .hello := of_decide_eq_true he
    subst hty
    obtain ⟨n, hsession⟩ := h.session
    have hbegins : c.session.begins d ⟨v, seq, re, .hello, body⟩ = none := rfl
    have hbegun : c'.begun = c.begun ++ [] := by rw [List.append_nil, h.begun]
    have hsame : ∃ m result, (c.session.handle d answer ⟨v, seq, re, .hello, body⟩ ()).2 =
        some ((result, c.session.renumber m), ()) := by
      cases body with
      | hello b =>
        unfold Session.handle Session.onHello
        dsimp only
        split
        · exact ⟨c.session.nextSeq, _, rfl⟩
        · exact ⟨c.session.nextSeq + 1, _, rfl⟩
      | _ => exact ⟨c.session.nextSeq + 1, _, rfl⟩
    obtain ⟨m, result, hr⟩ := hsame
    simp only [step, hr, hbegins]
    exact ⟨⟨n, hsession⟩, h.jobs, hbegun⟩
  | beginPerceive env => cases he
  | finishPerceive i outcome => cases he
  | transport code message => cases he

theorem answers_of_sent {e : SessionEvent} {rs : List (Option ℕ × Envelope)}
    (h : (c.step d e).sent = c.sent ++ rs) :
    c.answers d e = rs.map fun r => (r.2.re, r.2.body) := by
  unfold answers
  rw [h, List.drop_left]

theorem answers_of_unsent {e : SessionEvent} (h : (c.step d e).sent = c.sent) :
    c.answers d e = [] := by
  unfold answers
  rw [h, List.drop_length, List.map_nil]

/-- What a session computes the same under every number, it computes the same in both. -/
theorem SameButNumbers.both (h : c.SameButNumbers c') {p : ℕ → Session → Prop}
    (hp : ∀ n, p n (c.session.renumber n)) :
    p c.session.nextSeq c.session ∧ p c'.session.nextSeq c'.session := by
  obtain ⟨n, hsession⟩ := h.session
  have hpc := hp c.session.nextSeq
  rw [Session.renumber_self] at hpc
  rw [hsession]
  exact ⟨hpc, hp n⟩

/-- The step has the same effect in both, and the same answer. -/
def StepsAlike (d : Daemon) (c c' : Conversation) (e : SessionEvent) : Prop :=
  c.answers d e = c'.answers d e ∧ (c.step d e).SameButNumbers (c'.step d e)

theorem SameButNumbers.idle (h : c.SameButNumbers c') {e : SessionEvent}
    (hstep : c.step d e = c) (hstep' : c'.step d e = c') : StepsAlike d c c' e := by
  refine ⟨?_, ?_⟩
  · rw [answers_of_unsent (congrArg sent hstep), answers_of_unsent (congrArg sent hstep')]
  · rw [hstep, hstep']
    exact h

theorem SameButNumbers.step_handle (h : c.SameButNumbers c') {env : Envelope} {answer : LlmAnswer}
    (hty : env.ty ≠ .hello) : StepsAlike d c c' (.handle env answer) := by
  obtain ⟨body, s', hr⟩ := c.session.handle_renumber d answer env hty
  obtain ⟨hrc, hrc'⟩ := h.both (p := fun n s => (s.handle d answer env ()).2 =
    some ((.ok [.outgoing n (some env.seq) body], s'.renumber (n + 1)), ())) hr
  obtain ⟨-, hbegins⟩ := h.both (p := fun _ s => s.begins d env = c.session.begins d env)
    (c.session.begins_renumber d env)
  have hstep := step_handle_answered hrc
  have hstep' := step_handle_answered hrc'
  refine ⟨?_, ?_⟩
  · rw [answers_of_sent (congrArg sent hstep), answers_of_sent (congrArg sent hstep')]
    rfl
  · rw [hstep, hstep', hbegins, h.begun]
    exact ⟨⟨c'.session.nextSeq + 1, rfl⟩, h.jobs, rfl⟩

theorem SameButNumbers.step_begin (h : c.SameButNumbers c') (env : Envelope) :
    StepsAlike d c c' (.beginPerceive env) := by
  by_cases hty : env.ty = .perceive
  · rcases c.session.beginPerceive_renumber d env.seq env.body with
      ⟨body, hbegin⟩ | ⟨job, s', hbegin⟩
    · obtain ⟨hbc, hbc'⟩ := h.both (p := fun n s => s.beginPerceive d env.seq env.body =
        (.error [.outgoing n (some env.seq) body], c.session.renumber (n + 1))) hbegin
      have hstep := step_begin_answered hty hbc
      have hstep' := step_begin_answered hty hbc'
      refine ⟨?_, ?_⟩
      · rw [answers_of_sent (congrArg sent hstep), answers_of_sent (congrArg sent hstep')]
        rfl
      · rw [hstep, hstep']
        exact ⟨⟨c'.session.nextSeq + 1, rfl⟩, h.jobs, h.begun⟩
    · obtain ⟨hbc, hbc'⟩ := h.both (p := fun n s => s.beginPerceive d env.seq env.body =
        (.ok job, s'.renumber n)) hbegin
      have hstep := step_begin_job hty hbc
      have hstep' := step_begin_job hty hbc'
      refine ⟨?_, ?_⟩
      · have hsent : (c.step d (.beginPerceive env)).sent = c.sent := by rw [hstep]; rfl
        have hsent' : (c'.step d (.beginPerceive env)).sent = c'.sent := by rw [hstep']; rfl
        rw [answers_of_unsent hsent, answers_of_unsent hsent']
      · rw [hstep, hstep']
        refine ⟨⟨c'.session.nextSeq, rfl⟩, ?_, ?_⟩
        · simp [h.jobs]
        · simp [h.begun]
  · have hstep : c.step d (.beginPerceive env) = c := if_neg hty
    have hstep' : c'.step d (.beginPerceive env) = c' := if_neg hty
    exact h.idle hstep hstep'

theorem SameButNumbers.step_finish (h : c.SameButNumbers c') (i : ℕ) (outcome : DispatchOutcome) :
    StepsAlike d c c' (.finishPerceive i outcome) := by
  -- The jobs stand at the same indices, each under its own request's number.
  have hjobs : (c'.inFlight[i]?).map Prod.snd = (c.inFlight[i]?).map Prod.snd := by
    rw [← List.getElem?_map, ← List.getElem?_map, h.jobs]
  rcases hjob : c.inFlight[i]? with _ | ⟨k, job⟩
  · rw [hjob, Option.map_none, Option.map_eq_none_iff] at hjobs
    have hstep : c.step d (.finishPerceive i outcome) = c := by simp [step, hjob]
    have hstep' : c'.step d (.finishPerceive i outcome) = c' := by simp [step, hjobs]
    exact h.idle hstep hstep'
  · rw [hjob, Option.map_some, Option.map_eq_some_iff] at hjobs
    obtain ⟨⟨k', job'⟩, hjob', hsame⟩ := hjobs
    obtain rfl : job' = job := hsame
    obtain ⟨n, hsession⟩ := h.session
    have hstep := Conversation.step_finish (d := d) hjob (c.session.finishPerceive_eq job' outcome)
    have hstep' :=
      Conversation.step_finish (d := d) hjob' (c'.session.finishPerceive_eq job' outcome)
    have hlatest : c'.session.latest job'.goal.id = c.session.latest job'.goal.id := by
      rw [hsession]
      rfl
    refine ⟨?_, ?_⟩
    · rw [answers_of_sent (congrArg sent hstep), answers_of_sent (congrArg sent hstep'), hlatest]
      rfl
    · rw [hstep, hstep']
      refine ⟨⟨c'.session.nextSeq + 1, ?_⟩, ?_, h.begun⟩
      · show c'.session.renumber (c'.session.nextSeq + 1) = _
        rw [hsession]
        rfl
      · show (c'.inFlight.eraseIdx i).map Prod.snd = (c.inFlight.eraseIdx i).map Prod.snd
        rw [← List.eraseIdx_map, ← List.eraseIdx_map, h.jobs]

theorem SameButNumbers.step_transport (h : c.SameButNumbers c') (code : ErrorCode)
    (message : String) : StepsAlike d c c' (.transport code message) := by
  obtain ⟨n, hsession⟩ := h.session
  refine ⟨?_, ⟨⟨n + 1, ?_⟩, h.jobs, h.begun⟩⟩
  · rw [answers_of_sent (c := c) rfl, answers_of_sent (c := c') rfl]
    rfl
  · show c'.session.renumber (c'.session.nextSeq + 1) = _
    rw [hsession]
    rfl

/-- Any step but a `hello`'s has the same effect in both, and the same answer. -/
theorem SameButNumbers.step_other (h : c.SameButNumbers c') {e : SessionEvent}
    (he : e.isHello = false) : StepsAlike d c c' e := by
  cases e with
  | handle env answer => exact h.step_handle (of_decide_eq_false he)
  | beginPerceive env => exact h.step_begin env
  | finishPerceive i outcome => exact h.step_finish i outcome
  | transport code message => exact h.step_transport code message

end Conversation

/-! ## A connection after a hello that is refused -/

namespace Connection

variable {server : Server} {k k' : Connection} {e : ConnectionEvent}

def Ending (k : Connection) : Prop :=
  k.reader ≠ .idle ∧ ∀ outs close, k.reader = .writing outs close → close = true

/-- What is left to do changes the numbers only. -/
theorem Moves.ending (h : Moves server k e k') (hk : k.Ending) : k'.Ending ∧
    (∃ n, k'.session = k.session.renumber n) ∧ k'.tasks.length = k.tasks.length := by
  have hsame : ∃ n, k.session = k.session.renumber n := ⟨k.session.nextSeq, rfl⟩
  cases h with
  | idle => exact ⟨hk, hsame, rfl⟩
  | read hidle => exact absurd hidle hk.1
  | close hidle => exact absurd hidle hk.1
  | @write out outs close hwriting =>
    obtain rfl : close = true := hk.2 _ _ hwriting
    refine ⟨⟨?_, fun outs' close' hreader => ?_⟩, hsame, rfl⟩
    · cases outs <;> simp [Reader.write]
    · cases outs with
      | nil => cases hreader
      | cons next outs => exact ((Reader.writing.inj hreader).2).symm
  | finish => exact ⟨hk, ⟨_, rfl⟩, List.length_set⟩
  | writeTask => exact ⟨hk, hsame, List.length_set⟩

theorem Ending.foldl (server : Server) (hk : k.Ending) (es : List ConnectionEvent) :
    (∃ n, (es.foldl (step server) k).session = k.session.renumber n) ∧
      (es.foldl (step server) k).tasks.length = k.tasks.length := by
  induction es generalizing k with
  | nil => exact ⟨⟨k.session.nextSeq, rfl⟩, rfl⟩
  | cons e es ih =>
    obtain ⟨hk', ⟨n, hsession⟩, htasks⟩ := (step_moves server k e).ending hk
    obtain ⟨⟨n', hsession'⟩, htasks'⟩ := ih hk'
    rw [List.foldl_cons]
    refine ⟨⟨n', ?_⟩, htasks'.trans htasks⟩
    rw [hsession', hsession, Session.renumber_renumber]

/-- The line with a `hello` that is refused is the last that is read. -/
theorem ending_of_refused {line : String} {env : Envelope} (answer : LlmAnswer)
    (hidle : k.reader = .idle) (hreceived : server.received line = some env)
    (hrefused : env.versionRefused = true) : (k.step server (.line line answer)).Ending ∧
      (∃ n, (k.step server (.line line answer)).session = k.session.renumber n) ∧
      (k.step server (.line line answer)).tasks.length = k.tasks.length := by
  obtain ⟨session, reader, task, hdrive, hreads⟩ := server.drive_reads answer k.session line
  have hstep : k.step server (.line line answer) =
      ⟨session, reader, k.tasks ++ task.toList, k.wire⟩ := by
    simp only [step, hidle, hdrive]
  -- a perceive is never refused for its version
  have hperceive : ∀ {env' : Envelope}, server.received line = some env' →
      env'.ty ≠ .perceive := by
    intro env' hreceived' hty
    obtain rfl : env = env' := Option.some.inj (hreceived.symm.trans hreceived')
    rw [Conversation.versionRefused_of_perceive hty] at hrefused
    cases hrefused
  rw [hstep]
  cases hreads with
  | blank hempty =>
    have hnone : server.received line = none := if_pos (Or.inl hempty)
    rw [hnone] at hreceived
    cases hreceived
  | unreadable _ hnone =>
    rw [hnone] at hreceived
    cases hreceived
  | refused => exact ⟨⟨by simp, by simp⟩, ⟨_, rfl⟩, by simp⟩
  | @answered env' body s' hreceived' haccepted =>
    obtain rfl : env = env' := Option.some.inj (hreceived.symm.trans hreceived')
    rw [hrefused] at haccepted
    cases haccepted
  | unperceived hreceived' hty => exact absurd hty (hperceive hreceived')
  | perceived hreceived' hty => exact absurd hty (hperceive hreceived')

end Connection

/-- Without its hellos a conversation goes on as with them: the other calls have the same effect on
the registry, the souls, the ledger and the jobs, and the same answers. On a connection, a `hello`
that is refused is the last that is read: the registry, the souls and the ledger stay as they are
and no perceive begins. -/
theorem hello_leaves_no_trace (server : Server) :
    (∀ es : List SessionEvent,
      ((conversation server.daemon).reached es).SameButNumbers
        ((conversation server.daemon).reached (es.filter fun e => !e.isHello)) ∧
      ((conversation server.daemon).transcript (Conversation.answers server.daemon) .start
        es).filter (fun r => !r.1.isHello) =
          (conversation server.daemon).transcript (Conversation.answers server.daemon) .start
            (es.filter fun e => !e.isHello)) ∧
    ∀ es line answer env, ((connection server).reached es).reader = .idle →
      server.received line = some env → env.versionRefused = true →
      ∀ post, (∃ n, ((connection server).reached (es ++ .line line answer :: post)).session =
          ((connection server).reached es).session.renumber n) ∧
        ((connection server).reached (es ++ .line line answer :: post)).tasks.length =
          ((connection server).reached es).tasks.length := by
  constructor
  · intro es
    apply Machine.transcript_filter (M := conversation server.daemon)
      (R := Conversation.SameButNumbers)
    · intro c c' e he h
      exact h.step_other (by simpa using he)
    · intro c c' e he h
      exact h.step_hello (by simpa using he)
    · exact ⟨⟨0, rfl⟩, rfl, rfl⟩
  · intro es line answer env hidle hreceived hrefused post
    obtain ⟨hending, ⟨n, hsession⟩, htasks⟩ :=
      Connection.ending_of_refused answer hidle hreceived hrefused
    obtain ⟨⟨n', hsession'⟩, htasks'⟩ := hending.foldl server post
    rw [Machine.reached_append, List.foldl_cons]
    refine ⟨⟨n', ?_⟩, htasks'.trans htasks⟩
    exact hsession'.trans (by rw [hsession, Session.renumber_renumber])

/-- The first line instantiates a soul, without a `hello`, and is acknowledged. -/
theorem instantiated_without_hello :
    ((connection quietServer).reached [.line instantiateLine fun _ _ _ => ⟨[]⟩]).session.souls
      "s" ≠ none ∧
    ((connection quietServer).reached [.line instantiateLine fun _ _ _ => ⟨[]⟩, .write]).wire.map
      (fun out => (out.re, out.ty)) = [(some 0, .ack)] := by
  have hread := Connection.step_of_parse trims_instantiateLine (by decide) (by decide)
    quietServer_parse.1 fun _ _ _ => ⟨[]⟩
  simp only [Machine.reached, connection, List.foldl_cons, List.foldl_nil, hread]
  refine ⟨fun hnone => ?_, rfl⟩
  cases hnone

end Pan
