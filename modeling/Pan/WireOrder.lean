import Pan.Library.Text
import Pan.Server
import Mathlib.Data.List.Perm.Basic

namespace Pan

open Eff

/-! ## What is allocated but not written -/

def Reader.outs : Reader → List Envelope
  | .writing outs _ => outs
  | _ => []

def Task.outs : Task → List Envelope
  | .writing outs => outs
  | .deciding _ => []

def Task.job : Task → Option PerceiveJob
  | .deciding job => some job
  | .writing _ => none

/-- The envelopes that have a number and are still to be written. -/
def Connection.outstanding (k : Connection) : List Envelope :=
  k.reader.outs ++ k.tasks.flatMap Task.outs

@[simp] theorem Reader.write_outs (outs : List Envelope) (close : Bool) :
    (Reader.write outs close).outs = outs := by
  cases outs with
  | nil => cases close <;> rfl
  | cons out outs => rfl

/-! ## A connection is a conversation -/

/-- The read loop took these steps of a conversation, up to the writing. -/
structure Drives (c : Conversation) (session : Session) (reader : Reader) (task : Option Task)
    (c' : Conversation) : Prop where
  session : c'.session = session
  sent : c'.sent.map Prod.snd =
    c.sent.map Prod.snd ++ (reader.outs ++ task.toList.flatMap Task.outs)
  inFlight : c'.inFlight.map Prod.snd =
    c.inFlight.map Prod.snd ++ task.toList.filterMap Task.job
  next : ∀ out ∈ reader.outs ++ task.toList.flatMap Task.outs, c.session.nextSeq ≤ out.seq

theorem Drives.refl {c : Conversation} {reader : Reader} (hreader : reader.outs = []) :
    Drives c c.session reader none c :=
  ⟨rfl, by simp [hreader], by simp, by simp [hreader]⟩

theorem Drives.of_send {c c' : Conversation} {session : Session} {k : Option ℕ} {out : Envelope}
    {close : Bool} (hsession : c'.session = session) (hsent : c'.sent = c.sent ++ [(k, out)])
    (hflight : c'.inFlight = c.inFlight) (hseq : out.seq = c.session.nextSeq) :
    Drives c session (.write [out] close) none c' :=
  ⟨hsession, by simp [hsent], by simp [hflight], by simp [hseq]⟩

namespace Server

theorem drive_spec (server : Server) (answer : LlmAnswer) (c : Conversation) (line : String) :
    ∃ session reader task, ∃ es : List SessionEvent,
      (server.drive answer c.session line ()).2 = some ((session, reader, task), ()) ∧
      Drives c session reader task (es.foldl (Conversation.step server.daemon) c) := by
  have htransport : ∀ code message close, Drives c (c.session.out none (.error ⟨code, message⟩)).2
      (.write [(c.session.out none (.error ⟨code, message⟩)).1] close) none
      ([SessionEvent.transport code message].foldl (Conversation.step server.daemon) c) :=
    fun _ _ _ => .of_send rfl rfl rfl rfl
  unfold drive
  dsimp only
  -- the branches of the reader in their order: nothing on the line, too long, no envelope, perceive
  by_cases hempty : (trimLine line).isEmpty = true
  · rw [if_pos hempty]
    exact ⟨c.session, .idle, none, [], rfl, .refl rfl⟩
  rw [if_neg hempty]
  by_cases hlong : MAX_LINE_BYTES < (trimLine line).utf8ByteSize
  · rw [if_pos hlong]
    exact ⟨_, _, _, _, rfl, htransport _ _ _⟩
  rw [if_neg hlong]
  cases server.parseEnvelope (trimLine line) with
  | error e => exact ⟨_, _, _, _, rfl, htransport _ _ _⟩
  | ok env =>
    dsimp only
    by_cases hty : env.ty = .perceive
    · rw [if_pos hty]
      rcases c.session.beginPerceive_spec server.daemon env.seq env.body with
        ⟨body, s', hbegin, hafter⟩ | ⟨job, s', hbegin, hre, hafter⟩
      · rw [hbegin]
        refine ⟨_, _, _, [.beginPerceive env], rfl, ?_⟩
        have hstep := Conversation.step_begin_answered (c := c) hty hbegin
        rw [List.foldl_cons, List.foldl_nil, hstep]
        exact .of_send rfl rfl rfl rfl
      · rw [hbegin]
        refine ⟨_, _, _, [.beginPerceive env], rfl, ?_⟩
        have hstep := Conversation.step_begin_job (c := c) hty hbegin
        rw [List.foldl_cons, List.foldl_nil, hstep]
        exact ⟨rfl, by simp [Conversation.receive, Reader.outs, Task.outs], by simp [Task.job],
          by simp [Reader.outs, Task.outs]⟩
    · rw [if_neg hty]
      rcases c.session.handle_spec server.daemon answer env with
        ⟨hrefused, hbegins, client, hr⟩ | ⟨hrefused, body, s', hr, hafter⟩
      · rw [bind_of_some hr]
        -- a refused hello is answered by the reader, not by the session
        refine ⟨_, _, _, [.handle env answer, .transport .versionUnsupported
          s!"protocol_version mismatch: client={client}, daemon={PROTOCOL_VERSION}"], rfl, ?_⟩
        have hstep := Conversation.step_handle_refused hr hbegins
        rw [List.foldl_cons, hstep]
        exact .of_send rfl rfl rfl rfl
      · rw [bind_of_some hr]
        refine ⟨_, _, _, [.handle env answer], rfl, ?_⟩
        have hstep := Conversation.step_handle_answered hr
        rw [List.foldl_cons, List.foldl_nil, hstep]
        exact .of_send rfl rfl rfl rfl

end Server

namespace Connection

variable {server : Server} {k : Connection} {c : Conversation}

def writes (k : Connection) : ConnectionEvent → Option Envelope
  | .write => k.reader.outs.head?
  | .writeTask i => (k.tasks[i]?).bind fun t => t.outs.head?
  | _ => none

/-- All that a step can do, with the envelope it writes and those that are new, beside a
conversation with the session. -/
inductive Turn (server : Server) (c : Conversation) (k : Connection) :
    Option Envelope → List Envelope → Connection → Prop
  | idle : Turn server c k none [] k
  | drive {session reader task} {es : List SessionEvent} : k.reader.outs = [] →
      Drives c session reader task (es.foldl (Conversation.step server.daemon) c) →
      Turn server c k none (reader.outs ++ task.toList.flatMap Task.outs)
        ⟨session, reader, k.tasks ++ task.toList, k.wire⟩
  | close : k.reader.outs = [] → Turn server c k none [] { k with reader := .closed }
  | write {out outs close} : k.reader = .writing (out :: outs) close →
      Turn server c k (some out) []
        { k with reader := .write outs close, wire := k.wire ++ [out] }
  | finish {i job outcome out session} : k.tasks[i]? = some (.deciding job) →
      k.session.finishPerceiveWithOutcome job outcome = ([out], session) →
      k.session.nextSeq ≤ out.seq →
      Turn server c k none [out] { k with session, tasks := k.tasks.set i (.writing [out]) }
  | writeTask {i out outs} : k.tasks[i]? = some (.writing (out :: outs)) →
      Turn server c k (some out) []
        { k with tasks := k.tasks.set i (.writing outs), wire := k.wire ++ [out] }

theorem step_turn (hk : k.session = c.session) (e : ConnectionEvent) :
    ∃ new, Turn server c k (k.writes e) new (k.step server e) := by
  obtain ⟨session, reader, tasks, wire⟩ := k
  obtain rfl : session = c.session := hk
  cases e with
  | line line answer =>
    cases reader with
    | idle =>
      obtain ⟨session, reader, task, es, hdrive, hdrives⟩ := server.drive_spec answer c line
      have hstep : (⟨c.session, .idle, tasks, wire⟩ : Connection).step server (.line line answer) =
          ⟨session, reader, tasks ++ task.toList, wire⟩ := by
        simp [step, hdrive]
      rw [hstep]
      exact ⟨_, .drive rfl hdrives⟩
    | writing outs close => exact ⟨_, .idle⟩
    | closed => exact ⟨_, .idle⟩
  | eof =>
    cases reader with
    | idle => exact ⟨_, .close rfl⟩
    | writing outs close => exact ⟨_, .idle⟩
    | closed => exact ⟨_, .idle⟩
  | write =>
    cases reader with
    | idle => exact ⟨_, .idle⟩
    | writing outs close =>
      cases outs with
      | nil => exact ⟨_, .idle⟩
      | cons out outs => exact ⟨_, .write rfl⟩
    | closed => exact ⟨_, .idle⟩
  | finish i answer =>
    -- there is no such task, or it has its job still to do, or it has begun to write
    rcases htask : tasks[i]? with _ | ⟨job | outs⟩
    · exact ⟨[], by simpa [step, htask, writes] using Turn.idle⟩
    · obtain ⟨outcome, ⟨⟩, hrun⟩ := runJob_returns server.daemon answer job ()
      obtain ⟨s', hfinish, -⟩ := c.session.finishPerceive_spec job outcome
      have hstep : (⟨c.session, reader, tasks, wire⟩ : Connection).step server (.finish i answer) =
          ⟨s', reader, tasks.set i (.writing [.outgoing c.session.nextSeq (some job.re)
            (Session.answerBody (c.session.latest job.goal.id) job outcome)]), wire⟩ := by
        simp only [step, htask, hrun, hfinish]
      rw [hstep]
      exact ⟨_, .finish htask hfinish (Nat.le_refl _)⟩
    · exact ⟨[], by simpa [step, htask, writes] using Turn.idle⟩
  | writeTask i =>
    rcases htask : tasks[i]? with _ | ⟨job | ⟨_ | ⟨out, outs⟩⟩⟩
    · exact ⟨[], by simpa [step, htask, writes] using Turn.idle⟩
    · exact ⟨[], by simpa [step, htask, writes, Task.outs] using Turn.idle⟩
    · exact ⟨[], by simpa [step, htask, writes, Task.outs] using Turn.idle⟩
    · exact ⟨[], by simpa [step, htask, writes, Task.outs] using Turn.writeTask htask⟩

/-- A task and the others, before it is replaced and after. -/
theorem perm_of_task {tasks : List Task} {i : ℕ} {t : Task} (h : tasks[i]? = some t) :
    ∃ rest, tasks.Perm (t :: rest) ∧ ∀ t', (tasks.set i t').Perm (t' :: rest) := by
  obtain ⟨hlt, hget⟩ := List.getElem?_eq_some_iff.mp h
  refine ⟨tasks.eraseIdx i, ?_, fun t' => List.set_perm_cons_eraseIdx hlt t'⟩
  have hperm := List.getElem_cons_eraseIdx_perm hlt
  rw [hget] at hperm
  exact hperm.symm

/-- What the tasks have to write when one of them is replaced. -/
theorem outs_set_perm {tasks : List Task} {i : ℕ} {t : Task} (h : tasks[i]? = some t)
    (t' : Task) : (t.outs ++ (tasks.set i t').flatMap Task.outs).Perm
      (t'.outs ++ tasks.flatMap Task.outs) := by
  classical
  obtain ⟨rest, hbefore, hafter⟩ := perm_of_task h
  rw [List.perm_iff_count]
  intro out
  have hcount := (hbefore.flatMap_right Task.outs).count_eq out
  have hcount' := ((hafter t').flatMap_right Task.outs).count_eq out
  rw [List.flatMap_cons, List.count_append] at hcount hcount'
  rw [List.count_append, List.count_append]
  omega

/-- What is written was outstanding; what is outstanding then was so before, or is new. -/
theorem Turn.outstanding {k' : Connection} {w : Option Envelope} {new : List Envelope}
    (ht : Turn server c k w new k') : k'.wire = k.wire ++ w.toList ∧
      (w.toList ++ k'.outstanding).Perm (k.outstanding ++ new) := by
  classical
  cases ht with
  | idle => exact ⟨by simp, by simp⟩
  | @drive session reader task es hreader hdrives =>
    refine ⟨by simp, ?_⟩
    -- what is new goes to the reader or to a task, and both count as outstanding
    rw [List.perm_iff_count]
    intro out
    simp only [Connection.outstanding, hreader, Option.toList_none, List.nil_append,
      List.count_append, List.flatMap_append]
    omega
  | close hreader =>
    refine ⟨by simp, ?_⟩
    have hclosed : Reader.closed.outs = [] := rfl
    simp [Connection.outstanding, hreader, hclosed]
  | @write out outs close hreader =>
    refine ⟨rfl, ?_⟩
    have houts : k.reader.outs = out :: outs := by rw [hreader]; rfl
    simp [Connection.outstanding, houts]
  | @finish i job outcome out session hjob =>
    refine ⟨by simp, ?_⟩
    rw [List.perm_iff_count]
    intro out'
    have hcount := (outs_set_perm hjob (.writing [out])).count_eq out'
    simp only [Connection.outstanding, Option.toList_none, List.nil_append, List.count_append,
      Task.outs] at hcount ⊢
    omega
  | @writeTask i out outs hjob =>
    refine ⟨rfl, ?_⟩
    rw [List.perm_iff_count]
    intro out'
    have hcount := (outs_set_perm hjob (.writing outs)).count_eq out'
    simp only [Connection.outstanding, Option.toList_some, List.count_append, List.count_cons,
      List.count_nil, Task.outs] at hcount ⊢
    omega

/-- New envelopes have new numbers, and a step that writes has none. -/
theorem Turn.new {k' : Connection} {w : Option Envelope} {new : List Envelope}
    (hk : k.session = c.session) (ht : Turn server c k w new k') :
    (w = none ∨ new = []) ∧ ∀ out ∈ new, k.session.nextSeq ≤ out.seq := by
  cases ht with
  | idle => exact ⟨Or.inl rfl, by simp⟩
  | drive _ hdrives => exact ⟨Or.inl rfl, hk ▸ hdrives.next⟩
  | close => exact ⟨Or.inl rfl, by simp⟩
  | write => exact ⟨Or.inr rfl, by simp⟩
  | finish _ _ hseq => exact ⟨Or.inl rfl, by simpa using hseq⟩
  | writeTask => exact ⟨Or.inr rfl, by simp⟩

/-- The connection and the conversation have the same session; what the connection has written or
has still to write is what was built, and its tasks have the jobs in flight. -/
structure Refines (k : Connection) (c : Conversation) : Prop where
  session : k.session = c.session
  envelopes : (k.wire ++ k.outstanding).Perm (c.sent.map Prod.snd)
  jobs : (k.tasks.filterMap Task.job).Perm (c.inFlight.map Prod.snd)

/-- The job of a task is in flight; with the task's reply to be written it no longer is. -/
theorem Refines.job {i : ℕ} {job : PerceiveJob} (hk : k.Refines c)
    (hjob : k.tasks[i]? = some (.deciding job)) (outs : List Envelope) :
    ∃ j n, c.inFlight[j]? = some (n, job) ∧
      ((k.tasks.set i (.writing outs)).filterMap Task.job).Perm
        ((c.inFlight.eraseIdx j).map Prod.snd) := by
  obtain ⟨rest, hbefore, hafter⟩ := perm_of_task hjob
  have hjobs : (job :: rest.filterMap Task.job).Perm (c.inFlight.map Prod.snd) :=
    (hbefore.filterMap Task.job).symm.trans hk.jobs
  obtain ⟨⟨n, job'⟩, hmem, hjob'⟩ := List.mem_map.mp (hjobs.subset List.mem_cons_self)
  obtain rfl : job' = job := hjob'
  obtain ⟨j, hj⟩ := List.mem_iff_getElem?.mp hmem
  obtain ⟨hlt, hget⟩ := List.getElem?_eq_some_iff.mp hj
  have herase := (List.getElem_cons_eraseIdx_perm hlt).map Prod.snd
  rw [hget, List.map_cons] at herase
  have hrest : ((k.tasks.set i (.writing outs)).filterMap Task.job).Perm
      (rest.filterMap Task.job) := (hafter (.writing outs)).filterMap Task.job
  exact ⟨j, n, hj, hrest.trans (hjobs.trans herase.symm).cons_inv⟩

/-- Each step of a connection is some steps of a conversation. -/
theorem Refines.turn {k' : Connection} {w : Option Envelope} {new : List Envelope}
    (hk : k.Refines c) (ht : Turn server c k w new k') : ∃ es : List SessionEvent,
      k'.Refines (es.foldl (Conversation.step server.daemon) c) := by
  obtain ⟨hwire, hperm⟩ := ht.outstanding
  have henvelopes : ∀ {c' : Conversation}, c'.sent.map Prod.snd = c.sent.map Prod.snd ++ new →
      (k'.wire ++ k'.outstanding).Perm (c'.sent.map Prod.snd) := by
    intro c' hsent
    have hbuilt : (k.wire ++ (k.outstanding ++ new)).Perm (c.sent.map Prod.snd ++ new) := by
      rw [← List.append_assoc]
      exact hk.envelopes.append_right new
    rw [hwire, hsent, List.append_assoc]
    exact (hperm.append_left k.wire).trans hbuilt
  cases ht with
  | idle => exact ⟨[], hk⟩
  | drive hreader hdrives =>
    refine ⟨_, hdrives.session.symm, henvelopes hdrives.sent, ?_⟩
    rw [hdrives.inFlight, List.filterMap_append]
    exact hk.jobs.append_right _
  | close => exact ⟨[], hk.session, henvelopes (by simp), hk.jobs⟩
  | write => exact ⟨[], hk.session, henvelopes (by simp), hk.jobs⟩
  | @finish i job outcome out session hjob hfinish =>
    -- the task and the job in flight need not stand at the same place
    obtain ⟨j, n, hj, hjobs⟩ := hk.job hjob [out]
    have hfinish' : c.session.finishPerceiveWithOutcome job outcome = ([out], session) :=
      hk.session ▸ hfinish
    have hsent : (c.sent ++ [(some n, out)]).map Prod.snd = c.sent.map Prod.snd ++ [out] := by
      simp
    refine ⟨[.finishPerceive j outcome], ?_⟩
    rw [List.foldl_cons, List.foldl_nil, Conversation.step_finish hj hfinish']
    exact ⟨rfl, henvelopes hsent, hjobs⟩
  | @writeTask i out outs hjob =>
    obtain ⟨rest, hbefore, hafter⟩ := perm_of_task hjob
    refine ⟨[], hk.session, henvelopes (by simp), ?_⟩
    have hbefore' := hbefore.filterMap Task.job
    have hafter' := (hafter (.writing outs)).filterMap Task.job
    exact (hafter'.trans hbefore'.symm).trans hk.jobs

end Connection

theorem reached_refines (server : Server) (es : List ConnectionEvent) : ∃ ds,
    ((connection server).reached es).Refines ((conversation server.daemon).reached ds) := by
  apply Machine.exists_reached_of_matched (M := connection server) (R := Connection.Refines)
  · exact ⟨rfl, List.Perm.refl _, List.Perm.refl _⟩
  · intro k c e hk
    have hturn : ∃ new, Connection.Turn server c k (k.writes e) new (k.step server e) :=
      Connection.step_turn hk.session e
    exact hk.turn hturn.choose_spec

/-! ## The order on the wire -/

namespace Connection

/-- What is written or outstanding has numbers of its own, all of them allocated. -/
structure Numbered (k : Connection) : Prop where
  distinct : ((k.wire ++ k.outstanding).map Envelope.seq).Nodup
  lt : ∀ out ∈ k.wire ++ k.outstanding, out.seq < k.session.nextSeq

/-- The numbers on the wire increase, and those that are outstanding are greater. -/
structure Ordered (k : Connection) : Prop where
  increasing : k.wire.Pairwise fun out later => out.seq < later.seq
  before : ∀ out ∈ k.wire, ∀ later ∈ k.outstanding, out.seq < later.seq

/-- What the step writes, if it writes, is the least of what is outstanding. -/
def WritesLeast (k : Connection) (e : ConnectionEvent) : Prop :=
  ∀ out, k.writes e = some out → ∀ other ∈ k.outstanding, out.seq ≤ other.seq

variable {server : Server} {k : Connection} {c : Conversation}

theorem Refines.numbered (hk : k.Refines c) (hc : c.Disciplined) : k.Numbered := by
  have hseqs : ((k.wire ++ k.outstanding).map Envelope.seq).Perm (List.range c.sent.length) := by
    have hmap : (c.sent.map Prod.snd).map Envelope.seq = c.sent.map fun r => r.2.seq := by simp
    rw [← hc.seqs, ← hmap]
    exact hk.envelopes.map Envelope.seq
  refine ⟨hseqs.nodup_iff.mpr List.nodup_range, fun out hout => ?_⟩
  have hmem : out.seq ∈ List.range c.sent.length :=
    hseqs.subset (List.mem_map_of_mem hout)
  rw [hk.session, hc.nextSeq]
  exact List.mem_range.mp hmem

theorem Numbered.ne (hk : k.Numbered) {out other : Envelope} (hout : out ∈ k.wire)
    (hother : other ∈ k.outstanding) : out.seq ≠ other.seq := by
  have hdistinct := hk.distinct
  rw [List.map_append, List.nodup_append] at hdistinct
  exact hdistinct.2.2 _ (List.mem_map_of_mem hout) _ (List.mem_map_of_mem hother)

/-- A step keeps the order exactly if it writes the least that is outstanding. -/
theorem ordered_step (hk : k.Numbered) (e : ConnectionEvent) (hk' : (k.step server e).Numbered) :
    (k.step server e).Ordered ↔ k.Ordered ∧ k.WritesLeast e := by
  have hturn : ∃ new, Turn server ⟨k.session, [], [], [], []⟩ k (k.writes e) new
      (k.step server e) := step_turn rfl e
  obtain ⟨new, hturn⟩ := hturn
  obtain ⟨hwire, hperm⟩ := hturn.outstanding
  obtain ⟨hnone, hnew⟩ := hturn.new rfl
  generalize k.step server e = k' at hwire hperm hk' ⊢
  have hmem : ∀ out, (out ∈ k.writes e ∨ out ∈ k'.outstanding) ↔
      (out ∈ k.outstanding ∨ out ∈ new) := by
    intro out
    have hmem := hperm.mem_iff (a := out)
    rwa [List.mem_append, List.mem_append, Option.mem_toList] at hmem
  constructor
  · rintro ⟨hincreasing, hbefore⟩
    rw [hwire] at hincreasing hbefore
    obtain ⟨hwritten, -, hlast⟩ := List.pairwise_append.mp hincreasing
    refine ⟨⟨hwritten, fun out hout later hlater => ?_⟩, fun out hout other hother => ?_⟩
    · rcases (hmem later).mpr (Or.inl hlater) with hnow | hstill
      · exact hlast out hout later (Option.mem_toList.mpr hnow)
      · exact hbefore out (List.mem_append_left _ hout) later hstill
    · rcases (hmem other).mpr (Or.inl hother) with hnow | hstill
      · rw [Option.mem_unique hout hnow]
      · exact Nat.le_of_lt
          (hbefore out (List.mem_append_right _ (Option.mem_toList.mpr hout)) other hstill)
  · rintro ⟨⟨hincreasing, hbefore⟩, hleast⟩
    -- what is written, and what is allocated by the step, comes after what is on the wire
    have hlater : ∀ out ∈ k.wire, ∀ later, later ∈ k.writes e ∨ later ∈ k'.outstanding →
        out.seq < later.seq := by
      intro out hout later hlater
      rcases (hmem later).mp hlater with hold | hnewer
      · exact hbefore out hout later hold
      · exact Nat.lt_of_lt_of_le (hk.lt out (List.mem_append_left _ hout)) (hnew later hnewer)
    refine ⟨?_, fun out hout later hstill => ?_⟩
    · rw [hwire, List.pairwise_append]
      refine ⟨hincreasing, ?_, fun out hout later hnow => ?_⟩
      · cases k.writes e <;> simp
      · exact hlater out hout later (Or.inl (Option.mem_toList.mp hnow))
    · rw [hwire, List.mem_append, Option.mem_toList] at hout
      rcases hout with hout | hnow
      · exact hlater out hout later (Or.inr hstill)
      · have hwritten : out ∈ k'.wire := by
          rw [hwire]
          exact List.mem_append_right _ (Option.mem_toList.mpr hnow)
        rcases (hmem later).mp (Or.inr hstill) with hold | hnewer
        · exact Nat.lt_of_le_of_ne (hleast out hnow later hold) (hk'.ne hwritten hstill)
        · rcases hnone with hnone | hnone
          · rw [hnone] at hnow
            cases hnow
          · rw [hnone] at hnewer
            cases hnewer

end Connection

/-- The numbers on the wire increase in every run that always writes the least number outstanding,
and with nothing left to write in no other. -/
theorem wire_increasing (server : Server) (es : List ConnectionEvent) :
    ((connection server).Guarded Connection.WritesLeast es →
      ((connection server).reached es).wire.Pairwise fun out later => out.seq < later.seq) ∧
    (((connection server).reached es).outstanding = [] →
      ((connection server).reached es).wire.Pairwise (fun out later => out.seq < later.seq) →
        (connection server).Guarded Connection.WritesLeast es) := by
  have hnumbered : ∀ es, ((connection server).reached es).Numbered := by
    intro es
    obtain ⟨ds, hrefines⟩ := reached_refines server es
    exact hrefines.numbered (reached_disciplined server.daemon ds)
  have hstart : Connection.start.Ordered := ⟨List.Pairwise.nil, fun _ hout => by cases hout⟩
  have hordered := Machine.reached_iff_guarded (M := connection server) hnumbered hstart
    (fun _ e hk hk' => Connection.ordered_step hk e hk') es
  constructor
  · intro hleast
    exact (hordered.mpr hleast).increasing
  · intro hnothing hincreasing
    refine hordered.mp ⟨hincreasing, fun _ _ later hlater => ?_⟩
    rw [hnothing] at hlater
    cases hlater

/-! ## Lines that are decoded -/

/-- The line has so many characters without its line feed. -/
def Trims (line : String) (n : ℕ) : Prop :=
  ∃ l, trimLine line = String.ofList l ∧ l.length = n

namespace Trims

variable {line line' : String} {n n' : ℕ}

theorem of_ofList {l : List Char} (hline : line = String.ofList l)
    (hlast : l.getLast? = some '\n') (hreturn : l.dropLast.getLast? ≠ some '\r')
    (hlength : l.length = n + 1) : Trims line n := by
  refine ⟨l.dropLast, ?_, by rw [List.length_dropLast, hlength]; rfl⟩
  unfold trimLine
  dsimp only
  rw [hline, String.toList_ofList, if_pos hlast, if_neg hreturn]

/-- Lines of different lengths differ. -/
theorem ne (h : Trims line n) (h' : Trims line' n') (hn : n ≠ n') :
    trimLine line ≠ trimLine line' := by
  obtain ⟨l, hl, rfl⟩ := h
  obtain ⟨l', hl', rfl⟩ := h'
  rw [hl, hl']
  exact fun heq => hn (congrArg List.length (String.ofList_injective heq))

theorem isEmpty_eq (h : Trims line n) (hn : n ≠ 0) : (trimLine line).isEmpty = false := by
  obtain ⟨l, hl, rfl⟩ := h
  rw [hl, Bool.eq_false_iff]
  intro hempty
  have hnil : String.ofList l = String.ofList [] := String.isEmpty_iff.mp hempty
  rw [String.ofList_injective hnil] at hn
  exact hn rfl

theorem utf8ByteSize_le (h : Trims line n) : (trimLine line).utf8ByteSize ≤ 4 * n := by
  obtain ⟨l, hl, rfl⟩ := h
  rw [hl]
  exact Text.utf8ByteSize_ofList_le l

end Trims

theorem Server.drive_of_parse {server : Server} {line : String} {env : Envelope}
    (hempty : (trimLine line).isEmpty = false)
    (hshort : (trimLine line).utf8ByteSize ≤ MAX_LINE_BYTES)
    (hparse : server.parse (trimLine line) = some env) (answer : LlmAnswer) (session : Session) :
    server.drive answer session line =
      Server.drive ⟨server.daemon, fun _ => some env⟩ answer session "-" := by
  have hempty' : (trimLine "-").isEmpty = false := by decide
  have hshort' : (trimLine "-").utf8ByteSize ≤ MAX_LINE_BYTES := by decide
  unfold drive parseEnvelope
  dsimp only
  rw [if_neg (Bool.eq_false_iff.mp hempty), if_neg (not_lt.mpr hshort), hparse,
    if_neg (Bool.eq_false_iff.mp hempty'), if_neg (not_lt.mpr hshort')]

/-- A line does what its envelope does, whatever its text. -/
theorem Connection.step_of_parse {server : Server} {line : String} {env : Envelope} {n : ℕ}
    (hline : Trims line n) (hn : n ≠ 0) (hshort : 4 * n ≤ MAX_LINE_BYTES)
    (hparse : server.parse (trimLine line) = some env) (answer : LlmAnswer) (k : Connection) :
    k.step server (.line line answer) =
      k.step ⟨server.daemon, fun _ => some env⟩ (.line "-" answer) := by
  have hdrive := Server.drive_of_parse (hline.isEmpty_eq hn) (hline.utf8ByteSize_le.trans hshort)
    hparse answer k.session
  unfold Connection.step
  dsimp only
  rw [hdrive]

/-! ## Overtaking -/

def instantiateLine : String :=
  "\x7b\"v\":0,\"seq\":0,\"type\":\"instantiate_soul\",\"body\":\x7b\"soul_id\":\"s\"," ++
    "\"mind\":\"rules\",\"soul\":null\x7d\x7d\n"

def perceiveLine : String :=
  "\x7b\"v\":0,\"seq\":1,\"type\":\"perceive\",\"body\":\x7b\"soul_id\":\"s\"," ++
    "\"goal\":\x7b\"id\":\"g\",\"revision\":1,\"objective\":\"tick\"," ++
    "\"trigger\":\x7b\"kind\":\"tick\",\"sequence\":0\x7d\x7d," ++
    "\"context\":\x7b\"fragments\":[]\x7d\x7d\x7d\n"

def releaseLine : String :=
  "\x7b\"v\":0,\"seq\":2,\"type\":\"release_soul\",\"body\":\x7b\"soul_id\":\"s\"\x7d\x7d\n"

theorem trims_instantiateLine : Trims instantiateLine 91 :=
  .of_ofList (Text.append_eq_ofList rfl rfl) (by decide) (by decide) rfl

theorem trims_perceiveLine : Trims perceiveLine 172 :=
  .of_ofList (Text.append_eq_ofList (Text.append_eq_ofList (Text.append_eq_ofList rfl rfl) rfl) rfl)
    (by decide) (by decide) rfl

theorem trims_releaseLine : Trims releaseLine 60 :=
  .of_ofList rfl (by decide) (by decide) rfl

def quietServer : Server where
  daemon := quietDaemon
  parse line :=
    if line = trimLine instantiateLine then
      some ⟨0, 0, none, .instantiateSoul, .instantiateSoul ⟨"s", .rules, .null⟩⟩
    else if line = trimLine perceiveLine then some (perceiveEnvelope 1 "s" (tickGoal "g" 1))
    else if line = trimLine releaseLine then some ⟨0, 2, none, .releaseSoul, .releaseSoul ⟨"s"⟩⟩
    else none

theorem quietServer_parse :
    quietServer.parse (trimLine instantiateLine) =
      some ⟨0, 0, none, .instantiateSoul, .instantiateSoul ⟨"s", .rules, .null⟩⟩ ∧
    quietServer.parse (trimLine perceiveLine) =
      some (perceiveEnvelope 1 "s" (tickGoal "g" 1)) ∧
    quietServer.parse (trimLine releaseLine) =
      some ⟨0, 2, none, .releaseSoul, .releaseSoul ⟨"s"⟩⟩ := by
  have hperceive := trims_perceiveLine.ne trims_instantiateLine (by decide)
  have hrelease := trims_releaseLine.ne trims_instantiateLine (by decide)
  have hrelease' := trims_releaseLine.ne trims_perceiveLine (by decide)
  unfold quietServer
  dsimp only
  rw [if_pos rfl, if_neg hperceive, if_pos rfl, if_neg hrelease, if_neg hrelease', if_pos rfl]
  exact ⟨rfl, rfl, rfl⟩

/-- A perceive is finished before the soul is released, and its reply is written after that. -/
def overtaken : List ConnectionEvent :=
  [.line instantiateLine fun _ _ _ => ⟨[]⟩, .write, .line perceiveLine fun _ _ _ => ⟨[]⟩,
    .finish 0 fun _ _ _ => ⟨[]⟩, .line releaseLine fun _ _ _ => ⟨[]⟩, .write, .writeTask 0]

/-- The ack with number 2 is written before the decision with number 1. -/
theorem wire_overtaken :
    ((connection quietServer).reached overtaken).wire.map Envelope.seq = [0, 2, 1] ∧
    ¬((connection quietServer).reached overtaken).wire.Pairwise fun out later =>
      out.seq < later.seq := by
  have hwire : ((connection quietServer).reached overtaken).wire.map Envelope.seq = [0, 2, 1] := by
    obtain ⟨hinstantiate, hperceive, hrelease⟩ := quietServer_parse
    simp only [Machine.reached, overtaken, List.foldl_cons, List.foldl_nil, connection,
      Connection.step_of_parse trims_instantiateLine (by decide) (by decide) hinstantiate,
      Connection.step_of_parse trims_perceiveLine (by decide) (by decide) hperceive,
      Connection.step_of_parse trims_releaseLine (by decide) (by decide) hrelease]
    decide +kernel
  refine ⟨hwire, fun hincreasing => ?_⟩
  have hseqs : (((connection quietServer).reached overtaken).wire.map Envelope.seq).Pairwise
      (· < ·) := List.pairwise_map.mpr hincreasing
  rw [hwire] at hseqs
  exact absurd hseqs (by decide)

end Pan
