import Pan.WireOrder

namespace Pan

open Eff

/-- The session as it is, with this number for its next envelope. -/
def Session.renumber (s : Session) (n : ℕ) : Session := { s with nextSeq := n }

theorem Session.finishPerceive_eq (s : Session) (job : PerceiveJob) (outcome : DispatchOutcome) :
    s.finishPerceiveWithOutcome job outcome = ([.outgoing s.nextSeq (some job.re)
      (answerBody (s.latest job.goal.id) job outcome)], s.renumber (s.nextSeq + 1)) := by
  unfold finishPerceiveWithOutcome answerBody
  dsimp only
  split
  · rfl
  · rfl

namespace Server

variable (server : Server)

/-- The envelope that the read loop gets from a line, if it gets one. -/
def received (line : String) : Option Envelope :=
  if (trimLine line).isEmpty ∨ MAX_LINE_BYTES < (trimLine line).utf8ByteSize then none
  else server.parse (trimLine line)

/-- All that the read loop can make of a line: the session it leaves, how it goes on and the task
that it spawns. -/
inductive Reads (answer : LlmAnswer) (s : Session) (line : String) :
    Session → Reader → Option Task → Prop
  | blank : (trimLine line).isEmpty = true → Reads answer s line s .idle none
  | unreadable {message} : (trimLine line).isEmpty = false → server.received line = none →
      Reads answer s line (s.renumber (s.nextSeq + 1))
        (.writing [.outgoing s.nextSeq none (.error ⟨.badFrame, message⟩)] false) none
  | refused {env message} : server.received line = some env → env.versionRefused = true →
      Reads answer s line (s.renumber (s.nextSeq + 1))
        (.writing [.outgoing s.nextSeq none (.error ⟨.versionUnsupported, message⟩)] true) none
  | answered {env body s'} : server.received line = some env → env.versionRefused = false →
      env.ty ≠ .perceive → (s.handle server.daemon answer env ()).2 =
        some ((.ok [.outgoing s.nextSeq (some env.seq) body], s'), ()) →
      Reads answer s line s'
        (.writing [.outgoing s.nextSeq (some env.seq) body] (env.ty = .shutdown)) none
  | unperceived {env body s'} : server.received line = some env → env.ty = .perceive →
      s.beginPerceive server.daemon env.seq env.body =
        (.error [.outgoing s.nextSeq (some env.seq) body], s') →
      Reads answer s line s' (.writing [.outgoing s.nextSeq (some env.seq) body] false) none
  | perceived {env job s'} : server.received line = some env → env.ty = .perceive →
      s.beginPerceive server.daemon env.seq env.body = (.ok job, s') →
      Reads answer s line s' .idle (some (.deciding job))

theorem drive_reads (answer : LlmAnswer) (s : Session) (line : String) :
    ∃ session reader task, (server.drive answer s line ()).2 =
      some ((session, reader, task), ()) ∧ server.Reads answer s line session reader task := by
  unfold drive
  dsimp only
  by_cases hempty : (trimLine line).isEmpty = true
  · rw [if_pos hempty]
    exact ⟨_, _, _, rfl, .blank hempty⟩
  rw [if_neg hempty]
  by_cases hlong : MAX_LINE_BYTES < (trimLine line).utf8ByteSize
  · rw [if_pos hlong]
    have hreceived : server.received line = none := if_pos (Or.inr hlong)
    exact ⟨_, _, _, rfl, .unreadable (Bool.eq_false_iff.mpr hempty) hreceived⟩
  rw [if_neg hlong]
  have hreceived : server.received line = server.parse (trimLine line) :=
    if_neg (not_or.mpr ⟨hempty, hlong⟩)
  unfold parseEnvelope
  rcases hparse : server.parse (trimLine line) with _ | env
  · rw [hparse] at hreceived
    exact ⟨_, _, _, rfl, .unreadable (Bool.eq_false_iff.mpr hempty) hreceived⟩
  rw [hparse] at hreceived
  dsimp only
  by_cases hty : env.ty = .perceive
  · rw [if_pos hty]
    rcases s.beginPerceive_spec server.daemon env.seq env.body with
      ⟨body, s', hbegin, -⟩ | ⟨job, s', hbegin, -⟩
    · rw [hbegin]
      exact ⟨_, _, _, rfl, .unperceived hreceived hty hbegin⟩
    · rw [hbegin]
      exact ⟨_, _, _, rfl, .perceived hreceived hty hbegin⟩
  · rw [if_neg hty]
    rcases s.handle_spec server.daemon answer env with
      ⟨hrefused, -, client, hr⟩ | ⟨hrefused, body, s', hr, -⟩
    · rw [bind_of_some hr]
      exact ⟨_, _, _, rfl, .refused hreceived hrefused⟩
    · rw [bind_of_some hr]
      exact ⟨_, _, _, rfl, .answered hreceived hrefused hty hr⟩

/-- A shutdown is acknowledged. -/
theorem handle_shutdown {server : Server} {answer : LlmAnswer} {s s' : Session} {env : Envelope}
    {seq : ℕ} {body : Body} (hty : env.ty = .shutdown)
    (hr : (s.handle server.daemon answer env ()).2 =
      some ((.ok [.outgoing seq (some env.seq) body], s'), ())) : body = .ack := by
  unfold Session.handle at hr
  rw [hty] at hr
  have hack : (some ((.ok [.outgoing s.nextSeq (some env.seq) .ack], { s with
      nextSeq := s.nextSeq + 1 }), ()) : Option (Handled × Unit)) =
      some ((.ok [.outgoing seq (some env.seq) body], s'), ()) := hr
  simp only [Option.some.injEq, Prod.mk.injEq, Except.ok.injEq, List.cons.injEq] at hack
  have hbody := congrArg Envelope.body hack.1.1.1
  exact hbody.symm

end Server

/-! ## What a step of a connection does -/

namespace Connection

inductive Moves (server : Server) (k : Connection) : ConnectionEvent → Connection → Prop
  | idle {e} : Moves server k e k
  | read {line answer session reader task} : k.reader = .idle →
      server.Reads answer k.session line session reader task →
      Moves server k (.line line answer) ⟨session, reader, k.tasks ++ task.toList, k.wire⟩
  | close : k.reader = .idle → Moves server k .eof { k with reader := .closed }
  | write {out outs close} : k.reader = .writing (out :: outs) close →
      Moves server k .write { k with reader := .write outs close, wire := k.wire ++ [out] }
  | finish {i answer job outcome} : k.tasks[i]? = some (.deciding job) →
      (Session.runJob server.daemon answer job ()).2 = some (outcome, ()) →
      Moves server k (.finish i answer) { k with
        session := k.session.renumber (k.session.nextSeq + 1)
        tasks := k.tasks.set i (.writing [.outgoing k.session.nextSeq (some job.re)
          (Session.answerBody (k.session.latest job.goal.id) job outcome)]) }
  | writeTask {i out outs} : k.tasks[i]? = some (.writing (out :: outs)) →
      Moves server k (.writeTask i)
        { k with tasks := k.tasks.set i (.writing outs), wire := k.wire ++ [out] }

theorem step_moves (server : Server) (k : Connection) (e : ConnectionEvent) :
    Moves server k e (k.step server e) := by
  -- an event that the reader or the task is not ready for moves nothing
  cases e with
  | line line answer =>
    rcases hreader : k.reader with _ | ⟨outs, close⟩ | _
    · obtain ⟨session, reader, task, hdrive, hreads⟩ := server.drive_reads answer k.session line
      have hstep : k.step server (.line line answer) =
          ⟨session, reader, k.tasks ++ task.toList, k.wire⟩ := by
        simp only [step, hreader, hdrive]
      rw [hstep]
      exact .read hreader hreads
    · simpa only [step, hreader] using Moves.idle
    · simpa only [step, hreader] using Moves.idle
  | eof =>
    rcases hreader : k.reader with _ | ⟨outs, close⟩ | _
    · simpa only [step, hreader] using Moves.close hreader
    · simpa only [step, hreader] using Moves.idle
    · simpa only [step, hreader] using Moves.idle
  | write =>
    rcases hreader : k.reader with _ | ⟨_ | ⟨out, outs⟩, close⟩ | _
    · simpa only [step, hreader] using Moves.idle
    · simpa only [step, hreader] using Moves.idle
    · simpa only [step, hreader] using Moves.write hreader
    · simpa only [step, hreader] using Moves.idle
  | finish i answer =>
    rcases htask : k.tasks[i]? with _ | ⟨job | outs⟩
    · simpa only [step, htask] using Moves.idle
    · obtain ⟨outcome, ⟨⟩, hrun⟩ := runJob_returns server.daemon answer job ()
      have hfinish := k.session.finishPerceive_eq job outcome
      simpa only [step, htask, hrun, hfinish] using Moves.finish htask hrun
    · simpa only [step, htask] using Moves.idle
  | writeTask i =>
    rcases htask : k.tasks[i]? with _ | ⟨job | ⟨_ | ⟨out, outs⟩⟩⟩
    · simpa only [step, htask] using Moves.idle
    · simpa only [step, htask] using Moves.idle
    · simpa only [step, htask] using Moves.idle
    · simpa only [step, htask] using Moves.writeTask htask

end Connection

/-! ## The last envelope of the reader -/

/-- The ack of a shutdown, or the error that refuses a version. -/
def Envelope.IsFarewell (out : Envelope) : Prop :=
  out.body = .ack ∨ ∃ message, out.body = .error ⟨.versionUnsupported, message⟩

/-- If the reader is about to close the connection, it has one envelope to write before. -/
def Reader.ClosesWithOne (reader : Reader) : Prop :=
  ∀ outs, reader = .writing outs true → ∃ out, outs = [out] ∧ out.IsFarewell

namespace Connection

variable {server : Server}

/-- The envelope after which the reader closes the connection, if this step writes it. -/
def closing (k : Connection) : ConnectionEvent → Option Envelope
  | .write =>
    match k.reader with
    | .writing [out] true => some out
    | _ => none
  | _ => none

/-- The replies of all the perceives that were spawned have been written. -/
def Settled (k : Connection) : Prop := ∀ t ∈ k.tasks, t = .writing []

/-- The reader closes the connection only when it is settled. -/
def ClosesSettled (k : Connection) (e : ConnectionEvent) : Prop :=
  k.closing e ≠ none → k.Settled

theorem closing_eq_some {k : Connection} {e : ConnectionEvent} {out : Envelope}
    (h : k.closing e = some out) : e = .write ∧ k.reader = .writing [out] true := by
  unfold closing at h
  split at h
  · split at h
    · rename_i out' hreader
      obtain rfl : out' = out := Option.some.inj h
      exact ⟨rfl, hreader⟩
    · cases h
  · cases h

theorem reads_closesWithOne {answer : LlmAnswer} {s s' : Session} {line : String}
    {reader : Reader} {task : Option Task} (h : server.Reads answer s line s' reader task) :
    reader.ClosesWithOne := by
  intro outs hreader
  cases h with
  | blank => cases hreader
  | unreadable => cases hreader
  | @refused env message hreceived hrefused =>
    cases hreader
    exact ⟨_, rfl, Or.inr ⟨message, rfl⟩⟩
  | @answered env body s' hreceived hrefused hty hr =>
    obtain ⟨houts, hclose⟩ := Reader.writing.inj hreader
    have hshutdown : env.ty = .shutdown := of_decide_eq_true hclose
    exact ⟨_, houts.symm, Or.inl (Server.handle_shutdown hshutdown hr)⟩
  | unperceived => cases hreader
  | perceived => cases hreader

theorem Moves.closesWithOne {k k' : Connection} {e : ConnectionEvent} (h : Moves server k e k')
    (hk : k.reader.ClosesWithOne) : k'.reader.ClosesWithOne := by
  cases h with
  | idle => exact hk
  | read _ hreads => exact reads_closesWithOne hreads
  | close =>
    intro outs hreader
    cases hreader
  | @write out outs close hreader =>
    intro outs' hwrite
    cases outs with
    | nil => cases close <;> cases hwrite
    | cons next outs =>
      obtain ⟨-, rfl⟩ := Reader.writing.inj hwrite
      obtain ⟨out', hone, -⟩ := hk _ hreader
      cases hone
  | finish => exact hk
  | writeTask => exact hk

/-- Whatever comes, a settled connection that is closed stays as it is. -/
theorem Settled.step_eq {k : Connection} (hk : k.Settled) (hclosed : k.reader = .closed)
    (e : ConnectionEvent) : k.step server e = k := by
  have htask : ∀ {i : ℕ} {t : Task}, k.tasks[i]? = some t → t = .writing [] :=
    fun ht => hk _ (List.mem_of_getElem? ht)
  have hmoves : Moves server k e (k.step server e) := step_moves server k e
  generalize k.step server e = k' at hmoves
  cases hmoves with
  | idle => rfl
  | read hidle => rw [hclosed] at hidle; cases hidle
  | close hidle => rw [hclosed] at hidle; cases hidle
  | write hwriting => rw [hclosed] at hwriting; cases hwriting
  | finish hjob => cases htask hjob
  | writeTask hout => cases htask hout

theorem Settled.foldl_eq {k : Connection} (hk : k.Settled) (hclosed : k.reader = .closed)
    (es : List ConnectionEvent) : es.foldl (step server) k = k := by
  induction es with
  | nil => rfl
  | cons e es ih => rw [List.foldl_cons, hk.step_eq hclosed e, ih]

/-- A task that is not done has written an envelope after two steps. -/
theorem exists_writes (server : Server) {k : Connection} (hk : ¬k.Settled) :
    ∃ es : List ConnectionEvent, (es.foldl (step server) k).wire ≠ k.wire := by
  have hopen : ∃ t ∈ k.tasks, t ≠ .writing [] := by
    by_contra hnone
    exact hk fun t ht => by_contra fun hne => hnone ⟨t, ht, hne⟩
  obtain ⟨t, ht, hne⟩ := hopen
  obtain ⟨i, hi⟩ := List.mem_iff_getElem?.mp ht
  have hwrites : ∀ {k : Connection} {out : Envelope} {outs : List Envelope},
      k.tasks[i]? = some (.writing (out :: outs)) →
      (k.step server (.writeTask i)).wire = k.wire ++ [out] := by
    intro k out outs hout
    simp [step, hout]
  -- a task with its job still to do finishes it first
  cases t with
  | deciding job =>
    obtain ⟨outcome, ⟨⟩, hrun⟩ := runJob_returns server.daemon (fun _ _ _ => ⟨[]⟩) job ()
    have hfinish := k.session.finishPerceive_eq job outcome
    refine ⟨[.finish i fun _ _ _ => ⟨[]⟩, .writeTask i], ?_⟩
    have hstep : k.step server (.finish i fun _ _ _ => ⟨[]⟩) = { k with
        session := k.session.renumber (k.session.nextSeq + 1)
        tasks := k.tasks.set i (.writing [.outgoing k.session.nextSeq (some job.re)
          (Session.answerBody (k.session.latest job.goal.id) job outcome)]) } := by
      simp only [step, hi, hrun, hfinish]
    have hlt : i < k.tasks.length := (List.getElem?_eq_some_iff.mp hi).1
    rw [List.foldl_cons, List.foldl_cons, List.foldl_nil, hstep,
      hwrites (List.getElem?_set_self hlt)]
    simp
  | writing outs =>
    cases outs with
    | nil => exact absurd rfl hne
    | cons out outs =>
      refine ⟨[.writeTask i], ?_⟩
      rw [List.foldl_cons, List.foldl_nil, hwrites hi]
      simp

end Connection

theorem reached_closesWithOne (server : Server) (es : List ConnectionEvent) :
    ((connection server).reached es).reader.ClosesWithOne := by
  apply Machine.invariant (M := connection server) (I := fun _ k => k.reader.ClosesWithOne)
  · intro outs hreader
    cases hreader
  · intro _ k e hk
    exact (Connection.step_moves server k e).closesWithOne hk

namespace Connection

/-- With its last envelope the reader closes the connection; the tasks are left as they are. -/
theorem step_closing (server : Server) {k : Connection} {e : ConnectionEvent} {out : Envelope}
    (h : k.closing e = some out) : (k.step server e).wire = k.wire ++ [out] ∧
      (k.step server e).reader = .closed ∧ ((k.step server e).Settled ↔ k.Settled) := by
  obtain ⟨rfl, hreader⟩ := closing_eq_some h
  simp [step, hreader, Reader.write, Settled]

/-- On a settled connection nothing comes after the reader's last envelope. -/
theorem Settled.silent {es post : List ConnectionEvent} {e : ConnectionEvent} {out : Envelope}
    (h : ((connection server).reached es).Settled)
    (hclosing : ((connection server).reached es).closing e = some out) :
    ((connection server).reached (es ++ e :: post)).wire =
      ((connection server).reached es).wire ++ [out] := by
  obtain ⟨hwire, hclosed, hsettled⟩ := step_closing server hclosing
  rw [Machine.reached_append, List.foldl_cons]
  exact (congrArg wire ((hsettled.mpr h).foldl_eq hclosed post)).trans hwire

end Connection

/-- When the reader has written its last envelope, which acknowledges a shutdown or refuses a
version, nothing more is written exactly if all the perceives it had spawned were settled before.
So in a run in which the reader always waits for that, the last envelope is the last. -/
theorem farewell_is_last (server : Server) (es : List ConnectionEvent) :
    ((connection server).Guarded Connection.ClosesSettled es → ∀ pre e post out,
      es = pre ++ e :: post → ((connection server).reached pre).closing e = some out →
        ((connection server).reached es).wire = ((connection server).reached pre).wire ++ [out]) ∧
    ∀ e out, ((connection server).reached es).closing e = some out → out.IsFarewell ∧
      ((∀ post, ((connection server).reached (es ++ e :: post)).wire =
          ((connection server).reached es).wire ++ [out]) ↔
        ((connection server).reached es).Settled) := by
  constructor
  · rintro hguarded pre e post out rfl hclosing
    have hsettled : ((connection server).reached pre).Settled :=
      hguarded pre e post rfl (by rw [hclosing]; simp)
    exact hsettled.silent hclosing
  · intro e out hclosing
    refine ⟨?_, fun hnothing => ?_, fun hsettled post => hsettled.silent hclosing⟩
    · obtain ⟨rfl, hreader⟩ := Connection.closing_eq_some hclosing
      obtain ⟨out', hone, hfarewell⟩ := reached_closesWithOne server es _ hreader
      obtain rfl : out = out' := List.singleton_inj.mp hone
      exact hfarewell
    · -- A task that is left can still be run to write something.
      obtain ⟨hwire, -, hsettled⟩ := Connection.step_closing server hclosing
      by_contra hopen
      obtain ⟨post, hpost⟩ := Connection.exists_writes server (fun h => hopen (hsettled.mp h))
      have hpost' := hnothing post
      rw [Machine.reached_append, List.foldl_cons] at hpost'
      exact hpost (hpost'.trans hwire.symm)

/-! ## A decision after the ack -/

def shutdownLine : String :=
  "\x7b\"v\":0,\"seq\":2,\"type\":\"shutdown\",\"body\":\x7b\x7d\x7d\n"

theorem trims_shutdownLine : Trims shutdownLine 43 :=
  .of_ofList rfl (by decide) (by decide) rfl

def stoppingServer : Server where
  daemon := quietDaemon
  parse line :=
    if line = trimLine shutdownLine then some ⟨0, 2, none, .shutdown, .shutdown⟩
    else quietServer.parse line

theorem stoppingServer_parse :
    stoppingServer.parse (trimLine instantiateLine) =
      some ⟨0, 0, none, .instantiateSoul, .instantiateSoul ⟨"s", .rules, .null⟩⟩ ∧
    stoppingServer.parse (trimLine perceiveLine) =
      some (perceiveEnvelope 1 "s" (tickGoal "g" 1)) ∧
    stoppingServer.parse (trimLine shutdownLine) = some ⟨0, 2, none, .shutdown, .shutdown⟩ := by
  have hinstantiate := trims_instantiateLine.ne trims_shutdownLine (by decide)
  have hperceive := trims_perceiveLine.ne trims_shutdownLine (by decide)
  obtain ⟨hinstantiated, hperceived, -⟩ := quietServer_parse
  unfold stoppingServer
  dsimp only
  rw [if_neg hinstantiate, if_neg hperceive, if_pos rfl]
  exact ⟨hinstantiated, hperceived, rfl⟩

def stopped : List ConnectionEvent :=
  [.line instantiateLine fun _ _ _ => ⟨[]⟩, .write, .line perceiveLine fun _ _ _ => ⟨[]⟩,
    .line shutdownLine fun _ _ _ => ⟨[]⟩]

/-- The ack of the shutdown has the number 1; a decision with the number 2 is written after it. -/
theorem decision_after_ack :
    (((connection stoppingServer).reached stopped).closing .write).map
      (fun out => (out.seq, out.re, out.ty)) = some (1, some 2, .ack) ∧
    ((connection stoppingServer).reached (stopped ++ [.write])).wire.map Envelope.ty =
      [.ack, .ack] ∧
    ((connection stoppingServer).reached (stopped ++
      [.write, .finish 0 fun _ _ _ => ⟨[]⟩, .writeTask 0])).wire.map
        (fun out => (out.seq, out.re, out.ty)) =
      [(0, some 0, .ack), (1, some 2, .ack), (2, some 1, .decision)] := by
  obtain ⟨hinstantiate, hperceive, hshutdown⟩ := stoppingServer_parse
  simp only [Machine.reached, stopped, List.cons_append, List.nil_append, List.foldl_cons,
    List.foldl_nil, connection,
    Connection.step_of_parse trims_instantiateLine (by decide) (by decide) hinstantiate,
    Connection.step_of_parse trims_perceiveLine (by decide) (by decide) hperceive,
    Connection.step_of_parse trims_shutdownLine (by decide) (by decide) hshutdown]
  decide +kernel

end Pan
