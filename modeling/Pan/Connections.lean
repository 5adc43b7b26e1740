import Pan.ReadLoop
import Pan.Library.Family

namespace Pan

open Eff

theorem SoulState.provider_agree {s : SoulState} (h : s.mind ≠ .llm) (llm llm' : Bool) :
    s.provider llm = s.provider llm' := by
  unfold provider
  cases hmind : s.mind with
  | rules => rfl
  | llm => exact absurd hmind h
  | behaviorTree => rfl

theorem SoulState.resolved_of_provider {s : SoulState} {llm : Bool} (h : s.provider llm = .llm) :
    llm = true := by
  unfold provider at h
  cases hmind : s.mind with
  | rules => rw [hmind] at h; cases h
  | llm =>
    rw [hmind] at h
    by_contra hllm
    rw [Bool.eq_false_iff.mpr hllm] at h
    cases h
  | behaviorTree => rw [hmind] at h; cases h

namespace Session

/-- Handling the envelope asks for the endpoint: a `hello` that is welcomed, and a perceive of a
soul that thinks with it. -/
def consultsLlm (s : Session) (env : Envelope) : Bool :=
  match env.ty, env.body with
  | .hello, .hello _ => !env.versionRefused
  | .perceive, .perceive b => (s.souls b.soulId).any fun soul => decide (soul.mind = .llm)
  | _, _ => false

theorem beginPerceive_agree {s : Session} {env : Envelope} (hty : env.ty = .perceive)
    (h : s.consultsLlm env = false) (d d' : Daemon) :
    s.beginPerceive d env.seq env.body = s.beginPerceive d' env.seq env.body := by
  obtain ⟨v, seq, re, ty, body⟩ := env
  obtain rfl : ty = .perceive := hty
  cases body with
  | perceive b =>
    change (s.souls b.soulId).any (fun soul => decide (soul.mind = .llm)) = false at h
    unfold beginPerceive
    dsimp only
    rcases hsoul : s.souls b.soulId with _ | soul
    · rfl
    · rw [hsoul] at h
      have hmind : soul.mind ≠ .llm := of_decide_eq_false h
      dsimp only
      rw [SoulState.provider_agree hmind d.llmResolved d'.llmResolved]
  | _ => rfl

theorem onHello_agree {s : Session} {env : Envelope} (hty : env.ty = .hello)
    (h : s.consultsLlm env = false) (d d' : Daemon) :
    s.onHello d env.seq env.body = s.onHello d' env.seq env.body := by
  obtain ⟨v, seq, re, ty, body⟩ := env
  obtain rfl : ty = .hello := hty
  cases body with
  | hello b =>
    have hrefused : decide (b.protocolVersion ≠ PROTOCOL_VERSION ∨ b.profile ≠ "reachlock/0") =
        true := by
      have hnot : (!_) = false := h
      rwa [Bool.not_eq_false'] at hnot
    unfold onHello
    dsimp only
    rw [if_pos (of_decide_eq_true hrefused), if_pos (of_decide_eq_true hrefused)]
  | _ => rfl

theorem handle_agree {s : Session} {env : Envelope} (hty : env.ty ≠ .perceive)
    (h : s.consultsLlm env = false) (answer : LlmAnswer) (d d' : Daemon) :
    s.handle d answer env = s.handle d' answer env := by
  unfold handle
  cases hty' : env.ty with
  | hello => simp only [onHello_agree hty' h d d']
  | perceive => exact absurd hty' hty
  | _ => rfl

end Session

/-! ## A connection under either outcome -/

def Server.probed (formats : Formats) (parse : String → Option Envelope) (llm : Bool) : Server :=
  ⟨⟨formats, llm⟩, parse⟩

namespace Connection

variable (formats : Formats) (parse : String → Option Envelope)

def consultsLlm (k : Connection) : ConnectionEvent → Bool
  | .line line _ =>
    match k.reader with
    | .idle =>
      -- what is received is the same for all servers with one decoder
      match (Server.probed formats parse false).received line with
      | some env => k.session.consultsLlm env
      | none => false
    | _ => false
  | _ => false

variable {formats parse}

theorem drive_agree {s : Session} {line : String} (h : ∀ env,
    (Server.probed formats parse false).received line = some env → s.consultsLlm env = false)
    (answer : LlmAnswer) (llm llm' : Bool) :
    (Server.probed formats parse llm).drive answer s line =
      (Server.probed formats parse llm').drive answer s line := by
  unfold Server.drive
  dsimp only
  by_cases hempty : (trimLine line).isEmpty = true
  · rw [if_pos hempty, if_pos hempty]
  rw [if_neg hempty, if_neg hempty]
  by_cases hlong : MAX_LINE_BYTES < (trimLine line).utf8ByteSize
  · rw [if_pos hlong, if_pos hlong]
  rw [if_neg hlong, if_neg hlong]
  have henvelope : ∀ llm, (Server.probed formats parse llm).parseEnvelope (trimLine line) =
      (Server.probed formats parse false).parseEnvelope (trimLine line) := fun _ => rfl
  rw [henvelope llm, henvelope llm']
  unfold Server.parseEnvelope
  rcases hparse : (Server.probed formats parse false).parse (trimLine line) with _ | env
  · rfl
  have hconsults : s.consultsLlm env = false :=
    h env ((if_neg (not_or.mpr ⟨hempty, hlong⟩)).trans hparse)
  dsimp only
  by_cases hty : env.ty = .perceive
  · rw [if_pos hty, if_pos hty, Session.beginPerceive_agree hty hconsults _
      (Server.probed formats parse llm').daemon]
  · rw [if_neg hty, if_neg hty, Session.handle_agree hty hconsults answer _
      (Server.probed formats parse llm').daemon]

/-- A step that does not ask for the endpoint is the same whether it is there or not. -/
theorem step_agree (llm llm' : Bool) (k : Connection) (e : ConnectionEvent)
    (h : k.consultsLlm formats parse e = false) :
    k.step (Server.probed formats parse llm) e = k.step (Server.probed formats parse llm') e := by
  cases e with
  | line line answer =>
    unfold step
    dsimp only
    rcases hreader : k.reader with _ | ⟨outs, close⟩ | _
    · have hconsults : ∀ env, (Server.probed formats parse false).received line = some env →
          k.session.consultsLlm env = false := by
        intro env henv
        simp only [consultsLlm, hreader] at h
        rwa [henv] at h
      have hdrive := drive_agree hconsults answer llm llm'
      dsimp only
      rw [hdrive]
    · rfl
    · rfl
  | eof => rfl
  | write => rfl
  | finish i answer => rfl
  | writeTask i => rfl

end Connection

/-- The connections of a daemon as a family: decided once is whether there is an endpoint. -/
def daemonFamily (formats : Formats) (parse : String → Option Envelope) :
    Family Bool Connection ConnectionEvent where
  init := .start
  step llm := Connection.step (Server.probed formats parse llm)
  consults := Connection.consultsLlm formats parse
  agree := Connection.step_agree

/-- Every order of the connections that are accepted, and of the steps of each. -/
def connections (formats : Formats) (parse : String → Option Envelope) :
    Machine (Family.System Bool Connection) (Family.Event Bool ConnectionEvent) :=
  (daemonFamily formats parse).system

/-! ## What a connection announces -/

/-- What is said of the endpoint is said of this outcome of the probe. -/
def Envelope.Announces (llm : Bool) (out : Envelope) : Prop :=
  ∀ w, out.body = .welcome w → w.minds = advertisedMinds llm

/-- Its envelopes announce the outcome, and it works with the endpoint only if there is one. -/
def Task.GoesBy (llm : Bool) (t : Task) : Prop :=
  (∀ out ∈ t.outs, out.Announces llm) ∧ ∀ job, t.job = some job → job.provider = .llm → llm = true

/-- All that a connection has written, is to write and works on goes by one outcome. -/
structure Connection.GoesBy (llm : Bool) (k : Connection) : Prop where
  wire : ∀ out ∈ k.wire, out.Announces llm
  reader : ∀ out ∈ k.reader.outs, out.Announces llm
  tasks : ∀ t ∈ k.tasks, t.GoesBy llm

theorem Envelope.announces_error {llm : Bool} {seq : ℕ} {re : Option ℕ} {b : ErrorBody} :
    (Envelope.outgoing seq re (.error b)).Announces llm := fun _ h => by cases h

namespace Session

variable {d : Daemon} {answer : LlmAnswer} {s s' : Session} {env : Envelope} {body : Body}

/-- Whatever the handler answers announces the outcome. -/
def Announces (llm : Bool) (r : Handled) : Prop :=
  ∀ outs, r.1 = .ok outs → ∀ out ∈ outs, out.Announces llm

theorem announces_reply {llm : Bool} {re : ℕ}
    (h : ∀ w, body = .welcome w → w.minds = advertisedMinds llm) :
    Announces llm (s.reply re body) := by
  intro outs houts out hout
  obtain rfl : [Envelope.outgoing s.nextSeq (some re) body] = outs := Except.ok.inj houts
  obtain rfl := List.mem_singleton.mp hout
  exact h

theorem announces_errorResponse {llm : Bool} {re : ℕ} {code : ErrorCode} {message : String} :
    Announces llm (s.errorResponse re code message) :=
  announces_reply fun _ h => by cases h

theorem announces_ack {llm : Bool} {re : ℕ} : Announces llm (s.reply re .ack) :=
  announces_reply fun _ h => by cases h

theorem announces_onHello {re : ℕ} : Announces d.llmResolved (s.onHello d re body) := by
  unfold onHello
  split
  · split
    · intro outs houts
      cases houts
    · refine announces_reply fun w hw => ?_
      obtain rfl := Body.welcome.inj hw
      rfl
  · exact announces_errorResponse

theorem announces_onRegister {llm : Bool} {re : ℕ} : Announces llm (s.onRegister re body) := by
  unfold onRegister
  split
  · split
    · exact announces_errorResponse
    · exact announces_ack
  · exact announces_errorResponse

theorem announces_onInstantiate {llm : Bool} {re : ℕ} :
    Announces llm (s.onInstantiate re body) := by
  unfold onInstantiate
  split
  · exact announces_ack
  · exact announces_errorResponse

theorem announces_onRelease {llm : Bool} {re : ℕ} : Announces llm (s.onRelease re body) := by
  unfold onRelease
  split
  · split
    · exact announces_errorResponse
    · exact announces_ack
  · exact announces_errorResponse

/-- Only a `hello` is welcomed. -/
theorem announces_handle (hty : env.ty ≠ .perceive) {r : Handled}
    (h : (s.handle d answer env ()).2 = some (r, ())) : Announces d.llmResolved r := by
  have hreturn : ∀ {r' : Handled}, Announces d.llmResolved r' → some (r', ()) = some (r, ()) →
      Announces d.llmResolved r := by
    intro r' hr' heq
    exact (Prod.mk.inj (Option.some.inj heq)).1 ▸ hr'
  unfold handle at h
  cases hty' : env.ty with
  | hello => rw [hty'] at h; exact hreturn announces_onHello h
  | registerCapabilities => rw [hty'] at h; exact hreturn announces_onRegister h
  | instantiateSoul => rw [hty'] at h; exact hreturn announces_onInstantiate h
  | releaseSoul => rw [hty'] at h; exact hreturn announces_onRelease h
  | perceive => exact absurd hty' hty
  | shutdown => rw [hty'] at h; exact hreturn announces_ack h
  | welcome => rw [hty'] at h; exact hreturn announces_errorResponse h
  | decision => rw [hty'] at h; exact hreturn announces_errorResponse h
  | ack => rw [hty'] at h; exact hreturn announces_errorResponse h
  | error => rw [hty'] at h; exact hreturn announces_errorResponse h

theorem announces_refusal {outs : List Envelope} {re : ℕ}
    (h : s.beginPerceive d re body = (.error outs, s')) :
    ∀ out ∈ outs, out.Announces d.llmResolved := by
  unfold beginPerceive at h
  split at h
  · split at h
    · cases h
      intro out hout
      obtain rfl := List.mem_singleton.mp hout
      exact Envelope.announces_error
    · cases h
  · cases h
    intro out hout
    obtain rfl := List.mem_singleton.mp hout
    exact Envelope.announces_error

/-- A job is given to the endpoint only if there is one. -/
theorem resolved_of_job {job : PerceiveJob} {re : ℕ}
    (h : s.beginPerceive d re body = (.ok job, s')) (hllm : job.provider = .llm) :
    d.llmResolved = true := by
  unfold beginPerceive at h
  split at h
  · split at h
    · cases h
    · cases h
      exact SoulState.resolved_of_provider hllm
  · cases h

theorem announces_answerBody {llm : Bool} {seq latest : ℕ} {re : Option ℕ} {job : PerceiveJob}
    {outcome : DispatchOutcome} :
    (Envelope.outgoing seq re (answerBody latest job outcome)).Announces llm := by
  intro w hw
  change answerBody latest job outcome = .welcome w at hw
  unfold answerBody outcomeBody at hw
  split_ifs at hw
  cases outcome <;> cases hw

end Session

namespace Connection

theorem goesBy_reads {server : Server} {answer : LlmAnswer} {s s' : Session} {line : String}
    {reader : Reader} {task : Option Task} (h : server.Reads answer s line s' reader task) :
    (∀ out ∈ reader.outs, out.Announces server.daemon.llmResolved) ∧
    ∀ t ∈ task.toList, t.GoesBy server.daemon.llmResolved := by
  have hone : ∀ {out : Envelope} {close : Bool}, out.Announces server.daemon.llmResolved →
      ∀ out' ∈ (Reader.writing [out] close).outs, out'.Announces server.daemon.llmResolved :=
    fun h out' hout' => List.mem_singleton.mp hout' ▸ h
  cases h with
  | blank => exact ⟨by simp [Reader.outs], by simp⟩
  | unreadable => exact ⟨hone Envelope.announces_error, by simp⟩
  | refused => exact ⟨hone Envelope.announces_error, by simp⟩
  | answered hreceived hrefused hty hr =>
    exact ⟨hone (Session.announces_handle hty hr _ rfl _ List.mem_cons_self), by simp⟩
  | unperceived hreceived hty hbegin =>
    exact ⟨hone (Session.announces_refusal hbegin _ List.mem_cons_self), by simp⟩
  | perceived hreceived hty hbegin =>
    refine ⟨by simp [Reader.outs], fun t ht => ?_⟩
    obtain rfl := List.mem_singleton.mp ht
    refine ⟨by simp [Task.outs], fun job hjob hllm => ?_⟩
    obtain rfl := Option.some.inj hjob
    exact Session.resolved_of_job hbegin hllm

theorem Moves.goesBy {server : Server} {k k' : Connection} {e : ConnectionEvent}
    (h : Moves server k e k') (hk : k.GoesBy server.daemon.llmResolved) :
    k'.GoesBy server.daemon.llmResolved := by
  cases h with
  | idle => exact hk
  | read hidle hreads =>
    obtain ⟨hreader, htask⟩ := goesBy_reads hreads
    refine ⟨hk.wire, hreader, fun t ht => ?_⟩
    rcases List.mem_append.mp ht with ht | ht
    · exact hk.tasks t ht
    · exact htask t ht
  | close => exact ⟨hk.wire, by simp [Reader.outs], hk.tasks⟩
  | @write out outs close hwriting =>
    have houts : ∀ out' ∈ out :: outs, out'.Announces server.daemon.llmResolved := by
      intro out' hout'
      refine hk.reader out' ?_
      rw [hwriting]
      exact hout'
    refine ⟨fun out' hout' => ?_, fun out' hout' => ?_, hk.tasks⟩
    · rcases List.mem_append.mp hout' with hout' | hout'
      · exact hk.wire out' hout'
      · exact houts out' (List.mem_singleton.mp hout' ▸ List.mem_cons_self)
    · rw [Reader.write_outs] at hout'
      exact houts out' (List.mem_cons_of_mem _ hout')
  | @finish i answer job outcome htask hrun =>
    refine ⟨hk.wire, hk.reader, fun t ht => ?_⟩
    rcases List.mem_or_eq_of_mem_set ht with ht | rfl
    · exact hk.tasks t ht
    · refine ⟨fun out hout => ?_, fun job hjob => by cases hjob⟩
      -- the answer to a perceive announces nothing
      obtain rfl := List.mem_singleton.mp hout
      exact Session.announces_answerBody
  | @writeTask i out outs htask =>
    have hbefore := hk.tasks _ (List.mem_of_getElem? htask)
    refine ⟨fun out' hout' => ?_, hk.reader, fun t ht => ?_⟩
    · rcases List.mem_append.mp hout' with hout' | hout'
      · exact hk.wire out' hout'
      · exact hbefore.1 out' (List.mem_singleton.mp hout' ▸ List.mem_cons_self)
    · rcases List.mem_or_eq_of_mem_set ht with ht | rfl
      · exact hk.tasks t ht
      · exact ⟨fun out' hout' => hbefore.1 out' (List.mem_cons_of_mem _ hout'), hbefore.2⟩

end Connection

theorem reached_goesBy (server : Server) (es : List ConnectionEvent) :
    ((connection server).reached es).GoesBy server.daemon.llmResolved := by
  apply Machine.invariant (M := connection server)
    (I := fun _ k => k.GoesBy server.daemon.llmResolved)
  · constructor <;> intro _ h <;> cases h
  · intro _ k e hk
    exact (Connection.step_moves server k e).goesBy hk

/-- However the connections of a daemon and their steps interleave, there is one outcome of the
probe such that each connection is where it would be alone on a server with this outcome. All that
is ever announced goes by it, and without an endpoint no perceive is given to one. -/
theorem connections_share_probe (formats : Formats) (parse : String → Option Envelope)
    (es : List (Family.Event Bool ConnectionEvent)) : ∃ llm,
      (∀ outcome, ((connections formats parse).reached es).cell = some outcome → outcome = llm) ∧
      ∀ i k, ((connections formats parse).reached es).parts[i]? = some k →
        k = (connection (Server.probed formats parse llm)).reached (Family.turnsOf i es) ∧
        (∀ out ∈ k.wire, ∀ w, out.body = .welcome w → w.minds = advertisedMinds llm) ∧
        ∀ job, .deciding job ∈ k.tasks → job.provider = .llm → llm = true := by
  obtain ⟨llm, hcell, hparts⟩ := Family.exists_value (F := daemonFamily formats parse) es
  refine ⟨llm, hcell, fun i k hk => ?_⟩
  have hreached : k = (connection (Server.probed formats parse llm)).reached
      (Family.turnsOf i es) := hparts i k hk
  have hgoes : k.GoesBy llm := hreached ▸ reached_goesBy (Server.probed formats parse llm) _
  exact ⟨hreached, hgoes.wire, fun job hjob => (hgoes.tasks _ hjob).2 job rfl⟩

end Pan
