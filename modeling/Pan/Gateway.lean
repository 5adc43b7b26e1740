import Pan.DelegatedGrants
import Pan.Library.Machine

namespace Pan

open Eff

/-! ## The run -/

def Action.sent : Action → Option String
  | .token body => some body
  | _ => none

def sentTokens (h : List Action) : List String := h.filterMap Action.sent

theorem sentTokens_append (h t : List Action) :
    sentTokens (h ++ t) = sentTokens h ++ sentTokens t := List.filterMap_append

/-- `run_agent_streaming`, and `run_agent` without a token channel. -/
def AssembledAgent.serve {W : Type} (agent : AssembledAgent W) (formats : Formats) (stream : Bool)
    (goal : Goal) (ctx : Context) (fuel : ℕ) : Eff Action W RunReport := fun w =>
  let r := (agent.served formats stream).runSpan (Once W) ctx fuel (w, some goal)
  (r.1, r.2.map fun p => (p.1, p.2.1))

namespace Loop

variable {W O : Type} {L : Loop W} {obs : Observations W O} {ctx : Context} {o o' : O}

def report : Point → Option RunReport
  | .seeking report _ => some report
  | .ready _ report _ => some report
  | .compacting s => some s.report
  | .top s => some s.report
  | .deciding s => some s.report
  | .enacting _ _ _ e => some e.report
  | .enacted _ _ e => some e.report
  | .hung => none
  | .ended report => some report

theorem feedStall_report (e : Enacting) (capability : String) (args : Value) :
    (L.feedStall e capability args).report = e.report := by
  unfold feedStall
  split <;> rfl

theorem sentTokens_dispatchInvoke_append {capability : String} {args : Value}
    {correlation : Option String} {w : W} (t : List Action) :
    sentTokens ((L.dispatchInvoke capability args correlation w).1 ++ t) = sentTokens t := by
  have hsilent : sentTokens (L.dispatchInvoke capability args correlation w).1 = [] := by
    refine List.filterMap_eq_nil_iff.mpr fun a ha => ?_
    have hp := ofPipeline_of_mem_dispatchInvoke a ha
    cases a <;> first | rfl | cases hp
  rw [sentTokens_append, hsilent, List.nil_append]

/-- A move puts on the channel what it adds to the report. -/
theorem Moves.sends (hL : L.tokenTx = true) {p p' : Point} {t : List Action}
    (hm : L.Moves obs ctx p o t p' o') {r' : RunReport} (hr' : report p' = some r') :
    ∃ r, report p = some r ∧ r'.expressed = r.expressed ++ sentTokens t := by
  cases hm with
  | effect hd =>
    cases hr'
    refine ⟨_, rfl, ?_⟩
    rw [sentTokens_dispatchInvoke_append]
    simp [Enacting.effected, feedStall_report, sentTokens, Action.sent]
  | fail hd =>
    cases hr'
    refine ⟨_, rfl, ?_⟩
    rw [sentTokens_dispatchInvoke_append]
    simp [Enacting.failed, feedStall_report, sentTokens, Action.sent]
  | hang hd => cases hr'
  | express =>
    cases hr'
    refine ⟨_, rfl, ?_⟩
    rw [if_pos hL]
    rfl
  | _ =>
    cases hr'
    exact ⟨_, rfl, by simp [sentTokens, Action.sent]⟩

/-- What has been sent is what the report says has been expressed. -/
theorem Reaches.sends (hL : L.tokenTx = true) {o₀ : O} {p : Point} {h : List Action}
    (hr : L.Reaches obs ctx o₀ p o h) : ∀ r, report p = some r → sentTokens h = r.expressed := by
  refine Reaches.invariant (I := fun p _ h => ∀ r, report p = some r → sentTokens h = r.expressed)
    ?_ ?_ hr
  · intro r hr
    cases hr
    rfl
  · intro p o h t p' o' hp hm r' hr'
    obtain ⟨r, hr, hexpressed⟩ := hm.sends hL hr'
    rw [sentTokens_append, hp r hr, hexpressed]

end Loop

theorem AssembledAgent.sentTokens_serve {W : Type} {agent : AssembledAgent W} {formats : Formats}
    {goal : Goal} {ctx : Context} {fuel : ℕ} {w w' : W} {report : RunReport}
    (h : (agent.serve formats true goal ctx fuel w).2 = some (report, w')) :
    sentTokens (agent.serve formats true goal ctx fuel w).1 = report.expressed := by
  obtain ⟨⟨r, w''⟩, hr, heq⟩ := Option.map_eq_some_iff.mp h
  cases heq
  exact (Loop.reaches_ended hr).sends rfl _ rfl

/-! ## The events -/

/-- An event: its name, if it is given one, and its data. -/
structure SseEvent where
  name : Option String
  data : String
deriving DecidableEq

def GatewayResponse.toValue (response : GatewayResponse) : Value :=
  .object [("end", .string response.ending),
    ("expressed", .array (response.expressed.map .string)), ("results", .array response.results)]

def answer (report : RunReport) : Value := (toGatewayResponse report).toValue

def tokenEvent (formats : Formats) (token : String) : SseEvent :=
  ⟨none, formats.jsonText (.object [("content", .string token), ("type", .string "token")])⟩

def doneEvent (formats : Formats) (report : RunReport) : SseEvent :=
  ⟨some "done", formats.jsonText (answer report)⟩

/-- `report_to_sse_stream`: the events of a report, all at once. -/
def reportToSseStream (formats : Formats) (report : RunReport) : List SseEvent :=
  report.expressed.map (tokenEvent formats) ++ [doneEvent formats report]

/-! ## The channel and its reader -/

/-- The state of the `unfold`. -/
structure Unfold where
  /-- Whether the join handle is still there. -/
  handle : Bool
  doneSent : Bool

inductive SseStage where
  /-- About to run the closure. -/
  | unfold (state : Option Unfold)
  /-- The channel is exhausted and the run is awaited. -/
  | joining
  /-- The stream has returned `None`. -/
  | ended

structure SseState where
  /-- The bodies that the run has yet to send. -/
  unsent : List String
  channel : List String
  /-- Whether the run still holds the sender. -/
  isOpen : Bool
  /-- Whether the join handle is ready. -/
  finished : Bool
  stage : SseStage
  yielded : List SseEvent

inductive SseStep where
  | send
  /-- The sender is dropped. -/
  | close
  /-- The task of the run completes. -/
  | finish
  /-- The stream is polled. -/
  | poll

namespace SseState

variable (formats : Formats) (report : RunReport)

/-- The stream is polled until it has to wait, has an event or has changed its stage. -/
def poll (s : SseState) : SseState :=
  match s.stage with
  | .unfold none => { s with stage := .ended }
  | .unfold (some state) =>
    match s.channel with
    | token :: channel =>
      { s with channel, yielded := s.yielded ++ [tokenEvent formats token] }
    | [] =>
      if s.isOpen then s
      else if state.doneSent then { s with stage := .ended }
      -- the channel is closed and drained, so the report is awaited
      else if state.handle then { s with stage := .joining }
      else { s with
        stage := .unfold none
        yielded := s.yielded ++ [doneEvent formats .empty] }
  | .joining =>
    if s.finished then
      { s with stage := .unfold none, yielded := s.yielded ++ [doneEvent formats report] }
    else s
  | .ended => s

/-- One step. The sender is dropped, and the task completes, once all is sent. -/
def step (s : SseState) : SseStep → SseState
  | .send =>
    match s.unsent with
    | body :: unsent => { s with unsent, channel := s.channel ++ [body] }
    | [] => s
  | .close => if s.unsent.isEmpty then { s with isOpen := false } else s
  | .finish => if s.unsent.isEmpty then { s with finished := true } else s
  | .poll => s.poll formats report

end SseState

/-- `channel_to_sse`, over a run that sends these bodies and ends with this report. -/
def channelToSse (formats : Formats) (bodies : List String) (report : RunReport) :
    Machine SseState SseStep where
  init := ⟨bodies, [], true, false, .unfold (some ⟨true, false⟩), []⟩
  step := SseState.step formats report

/-! ## Every interleaving -/

namespace SseState

variable {formats : Formats} {bodies : List String} {report : RunReport} {s : SseState}

def eventsOf (formats : Formats) (bodies : List String) (report : RunReport) : List SseEvent :=
  bodies.map (tokenEvent formats) ++ [doneEvent formats report]

/-- What has been yielded at a stage, and what is still on its way. -/
def Relayed (formats : Formats) (bodies : List String) (report : RunReport) (s : SseState) : Prop :=
  match s.stage with
  | .unfold (some state) => state = ⟨true, false⟩ ∧ ∃ taken,
      bodies = taken ++ s.channel ++ s.unsent ∧ s.yielded = taken.map (tokenEvent formats)
  | .joining => s.isOpen = false ∧ s.channel = [] ∧ s.yielded = bodies.map (tokenEvent formats)
  | _ => s.isOpen = false ∧ s.channel = [] ∧ s.yielded = eventsOf formats bodies report

structure Relays (formats : Formats) (bodies : List String) (report : RunReport) (s : SseState) :
    Prop where
  unsent : s.isOpen = false → s.unsent = []
  relayed : Relayed formats bodies report s

/-- Whoever has read the end of the channel is reached by nothing that the run does. -/
theorem Relays.send (hs : Relays formats bodies report s) :
    Relays formats bodies report (s.step formats report .send) := by
  obtain ⟨unsent, channel, isOpen, finished, stage, yielded⟩ := s
  obtain ⟨hunsent, hrelayed⟩ := hs
  cases unsent with
  | nil => exact ⟨hunsent, hrelayed⟩
  | cons body unsent =>
    have hopen : isOpen = true := by
      cases isOpen with
      | true => rfl
      | false => cases hunsent rfl
    subst hopen
    refine ⟨fun h => (by cases h), ?_⟩
    match stage, hrelayed with
    | .unfold (some state), ⟨hstate, taken, hbodies, hyielded⟩ =>
      change bodies = taken ++ channel ++ body :: unsent at hbodies
      refine ⟨hstate, taken, ?_, hyielded⟩
      change bodies = taken ++ (channel ++ [body]) ++ unsent
      simpa using hbodies
    | .joining, h => cases h.1
    | .unfold none, h => cases h.1
    | .ended, h => cases h.1

theorem Relays.close (hs : Relays formats bodies report s) :
    Relays formats bodies report (s.step formats report .close) := by
  obtain ⟨unsent, channel, isOpen, finished, stage, yielded⟩ := s
  obtain ⟨hunsent, hrelayed⟩ := hs
  cases unsent with
  | cons body unsent => exact ⟨hunsent, hrelayed⟩
  | nil =>
    refine ⟨fun _ => rfl, ?_⟩
    match stage, hrelayed with
    | .unfold (some state), h => exact h
    | .joining, h => exact ⟨rfl, h.2⟩
    | .unfold none, h => exact ⟨rfl, h.2⟩
    | .ended, h => exact ⟨rfl, h.2⟩

theorem Relays.finish (hs : Relays formats bodies report s) :
    Relays formats bodies report (s.step formats report .finish) := by
  unfold step
  dsimp only
  split_ifs
  · exact ⟨hs.unsent, hs.relayed⟩
  · exact hs

theorem Relays.poll (hs : Relays formats bodies report s) :
    Relays formats bodies report (s.step formats report .poll) := by
  obtain ⟨unsent, channel, isOpen, finished, stage, yielded⟩ := s
  obtain ⟨hunsent, hrelayed⟩ := hs
  match stage, hrelayed with
  | .unfold none, h => exact ⟨hunsent, h⟩
  | .ended, h => exact ⟨hunsent, h⟩
  | .joining, h =>
    cases finished with
    | false => exact ⟨hunsent, h⟩
    | true => exact ⟨hunsent, h.1, h.2.1, congrArg (· ++ [doneEvent formats report]) h.2.2⟩
  | .unfold (some state), ⟨hstate, taken, hbodies, hyielded⟩ =>
    cases channel with
    | cons token channel =>
      change bodies = taken ++ token :: channel ++ unsent at hbodies
      change yielded = _ at hyielded
      refine ⟨hunsent, hstate, taken ++ [token], ?_, ?_⟩
      · change bodies = taken ++ [token] ++ channel ++ unsent
        simpa using hbodies
      · change yielded ++ [tokenEvent formats token] = _
        rw [hyielded, List.map_append, List.map_singleton]
    | nil =>
      cases isOpen with
      | true => exact ⟨hunsent, hstate, taken, hbodies, hyielded⟩
      | false =>
        -- the channel is closed and empty, so all that was sent has been taken
        subst hstate
        have hsent : unsent = [] := hunsent rfl
        change bodies = taken ++ [] ++ unsent at hbodies
        have htaken : bodies = taken := by simpa [hsent] using hbodies
        exact ⟨hunsent, rfl, rfl, htaken ▸ hyielded⟩

theorem relays_step (hs : Relays formats bodies report s) (a : SseStep) :
    Relays formats bodies report (s.step formats report a) := by
  cases a with
  | send => exact hs.send
  | close => exact hs.close
  | finish => exact hs.finish
  | poll => exact hs.poll

variable (formats bodies report) in
theorem relays_reached (schedule : List SseStep) :
    Relays formats bodies report ((channelToSse formats bodies report).reached schedule) := by
  have hinit : Relays formats bodies report (channelToSse formats bodies report).init :=
    ⟨fun h => (by cases h), rfl, [], rfl, rfl⟩
  exact Machine.invariant (I := fun _ s => Relays formats bodies report s) hinit
    (fun _ _ a hs => relays_step hs a) schedule

/-- What has been yielded is the beginning of what will be. -/
theorem Relays.prefix_eventsOf (hs : Relays formats bodies report s) :
    s.yielded <+: eventsOf formats bodies report := by
  obtain ⟨unsent, channel, isOpen, finished, stage, yielded⟩ := s
  match stage, hs.relayed with
  | .unfold (some state), ⟨_, taken, hbodies, hyielded⟩ =>
    change yielded <+: _
    rw [show yielded = _ from hyielded, show bodies = _ from hbodies]
    exact ⟨(channel ++ unsent).map (tokenEvent formats) ++ [doneEvent formats report], by
      simp [eventsOf]⟩
  | .joining, h => exact ⟨[doneEvent formats report], congrArg (· ++ _) h.2.2⟩
  | .unfold none, h => exact h.2.2 ▸ List.prefix_rfl
  | .ended, h => exact h.2.2 ▸ List.prefix_rfl

def Complete (formats : Formats) (report : RunReport) (s : SseState) : Prop :=
  ∀ a, s.step formats report a = s

/-- Nobody waits for ever: where no step is left the stream has ended, with all its events. -/
theorem Relays.of_complete (hs : Relays formats bodies report s)
    (hcomplete : s.Complete formats report) :
    s.stage = .ended ∧ s.yielded = eventsOf formats bodies report := by
  obtain ⟨unsent, channel, isOpen, finished, stage, yielded⟩ := s
  have hsend := hcomplete .send
  have hclose := hcomplete .close
  have hfinish := hcomplete .finish
  have hpoll := hcomplete .poll
  cases unsent with
  | cons body unsent => simp [step] at hsend
  | nil =>
    have hclosed : false = isOpen := congrArg SseState.isOpen hclose
    have hfinished : true = finished := congrArg SseState.finished hfinish
    subst hclosed hfinished
    match stage, hs.relayed with
    | .unfold (some state), ⟨hstate, _⟩ =>
      subst hstate
      cases channel with
      | cons token channel =>
        exact absurd (congrArg SseState.channel hpoll).symm (List.cons_ne_self token channel)
      | nil => cases congrArg SseState.stage hpoll
    | .joining, h => cases congrArg SseState.stage hpoll
    | .unfold none, h => cases congrArg SseState.stage hpoll
    | .ended, h => exact ⟨rfl, h.2.2⟩

def stepsLeft (s : SseState) : ℕ :=
  2 * s.unsent.length + s.channel.length + s.isOpen.toNat + (!s.finished).toNat +
    match s.stage with
    | .unfold (some _) => 3
    | .joining => 2
    | .unfold none => 1
    | .ended => 0

theorem stepsLeft_step {a : SseStep} (h : s.step formats report a ≠ s) :
    (s.step formats report a).stepsLeft < s.stepsLeft := by
  obtain ⟨unsent, channel, isOpen, finished, stage, yielded⟩ := s
  -- each of the four either moves nothing, against `h`, or uses up one of the steps left
  cases a with
  | send =>
    cases unsent with
    | nil => exact absurd rfl h
    | cons body unsent =>
      simp only [step, stepsLeft, List.length_append, List.length_cons, List.length_nil]
      omega
  | close =>
    cases unsent with
    | cons body unsent => exact absurd rfl h
    | nil =>
      cases isOpen with
      | false => exact absurd rfl h
      | true => simp [step, stepsLeft]
  | finish =>
    cases unsent with
    | cons body unsent => exact absurd rfl h
    | nil =>
      cases finished with
      | true => exact absurd rfl h
      | false => simp [step, stepsLeft]
  | poll =>
    match stage with
    | .unfold none => simp [step, poll, stepsLeft]
    | .ended => exact absurd rfl h
    | .joining =>
      cases finished with
      | false => exact absurd rfl h
      | true => simp [step, poll, stepsLeft]
    | .unfold (some state) =>
      cases channel with
      | cons token channel => simp [step, poll, stepsLeft]
      | nil =>
        cases isOpen with
        | true => exact absurd rfl h
        | false =>
          simp only [step, poll, Bool.false_eq_true, if_false]
          split_ifs <;> simp [stepsLeft]

end SseState

/-- A run that returns sends what its report says has been expressed, and however its steps and
those of the reader follow each other, the stream yields these bodies and then what is answered
for the report, ends, and never waits for ever. -/
theorem gateway_streams_report {W : Type} {agent : AssembledAgent W} {formats : Formats}
    {goal : Goal} {ctx : Context} {fuel : ℕ} {w w' : W} {report : RunReport}
    (h : (agent.serve formats true goal ctx fuel w).2 = some (report, w')) :
    let bodies := sentTokens (agent.serve formats true goal ctx fuel w).1
    bodies = report.expressed ∧ ∀ schedule : List SseStep,
      let s := (channelToSse formats bodies report).reached schedule
      s.yielded <+: reportToSseStream formats report ∧
        (s.Complete formats report → s.stage = .ended ∧
          s.yielded = report.expressed.map (fun body => ⟨none, formats.jsonText
              (.object [("content", .string body), ("type", .string "token")])⟩) ++
            [⟨some "done", formats.jsonText (answer report)⟩]) ∧
        ∀ a, s.step formats report a ≠ s →
          (s.step formats report a).stepsLeft < s.stepsLeft := by
  have hbodies := AssembledAgent.sentTokens_serve h
  refine ⟨hbodies, fun schedule => ?_⟩
  have hs := SseState.relays_reached formats report.expressed report schedule
  rw [hbodies]
  exact ⟨hs.prefix_eventsOf, hs.of_complete, fun _ => SseState.stepsLeft_step⟩

def greeter : AssembledAgent Unit where
  name := "greeter"
  instruction := ""
  scope := ⟨"persona.greeter"⟩
  grants := []
  provider := ScriptedProvider Unit ⟨[.express "hello", .conclude .achieved]⟩
  toolbox := .empty
  contextAssembler := none

theorem gateway_streams_report_greeter :
    sentTokens (greeter.serve ⟨fun _ => "", id⟩ true (tickGoal "g" 0) ⟨[]⟩ 1 ()).1 = ["hello"] := by
  have hreport : (greeter.serve ⟨fun _ => "", id⟩ true (tickGoal "g" 0) ⟨[]⟩ 1 ()).2 =
      some (⟨[], [], [], ["hello"], some (.concluded .achieved)⟩, ()) := rfl
  exact (gateway_streams_report hreport).1

end Pan
