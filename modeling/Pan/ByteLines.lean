import Pan.ReadLoop
import Pan.Codec

namespace Pan

/-! ## Lines of bytes -/

inductive StreamEvent where
  /-- The reader gets the bytes of a line; the endpoint would answer so. -/
  | bytes (raw : ByteArray) (answer : LlmAnswer)
  /-- The end of the input, or an error of the transport. -/
  | eof
  | write
  | finish (i : ℕ) (answer : LlmAnswer)
  | writeTask (i : ℕ)

/-- To the read loop, bytes that are not UTF-8 are an error of the read. -/
def StreamEvent.toEvent : StreamEvent → ConnectionEvent
  | bytes raw answer =>
    match String.fromUTF8? raw with
    | some line => .line line answer
    | none => .eof
  | eof => .eof
  | write => .write
  | finish i answer => .finish i answer
  | writeTask i => .writeTask i

def stream (server : Server) : Machine Connection StreamEvent :=
  ⟨.start, fun k e => k.step server e.toEvent⟩

/-- The run of a stream is one of its connection. -/
theorem stream_reached (server : Server) (es : List StreamEvent) :
    (stream server).reached es = (connection server).reached (es.map StreamEvent.toEvent) := by
  unfold Machine.reached
  rw [List.foldl_map]
  rfl

namespace Server

/-- The envelope that the read loop gets from the bytes of a line, if it gets one. -/
def decoded (server : Server) (raw : ByteArray) : Option Envelope :=
  (String.fromUTF8? raw).bind server.received

end Server

def blank (raw : ByteArray) : Bool :=
  match String.fromUTF8? raw with
  | some line => (trimLine line).isEmpty
  | none => false

/-! ## Malformed input -/

namespace Connection

variable {server : Server} {k : Connection} {e : StreamEvent}

/-- A line that is not blank and cannot be decoded is answered with an error, after which the
reader takes the next line; and the reader ends only at the end of the input, or by writing its last
envelope. -/
structure Survives (server : Server) (k : Connection) (e : StreamEvent) : Prop where
  answered : ∀ raw answer, e = .bytes raw answer → k.reader = .idle → blank raw = false →
    server.decoded raw = none → ∃ out, (k.step server e.toEvent).reader = .writing [out] false ∧
      out.body.errorCode ≠ none
  ends : k.reader ≠ .closed → (k.step server e.toEvent).reader = .closed →
    e = .eof ∨ ∃ out, k.closing e.toEvent = some out ∧ out.IsFarewell

def ReadsText (k : Connection) (e : StreamEvent) : Prop :=
  ∀ raw answer, e = .bytes raw answer → k.reader = .idle → (String.fromUTF8? raw).isSome = true

theorem toEvent_bytes {raw : ByteArray} {answer : LlmAnswer} {line : String}
    (h : String.fromUTF8? raw = some line) :
    (StreamEvent.bytes raw answer).toEvent = .line line answer := by
  simp only [StreamEvent.toEvent, h]

theorem toEvent_bytes_of_none {raw : ByteArray} {answer : LlmAnswer}
    (h : String.fromUTF8? raw = none) : (StreamEvent.bytes raw answer).toEvent = .eof := by
  simp only [StreamEvent.toEvent, h]

/-- A line that the reader cannot decode is answered with `bad_frame`, and nothing else happens. -/
theorem step_unreadable {line : String} (answer : LlmAnswer) (hidle : k.reader = .idle)
    (hnonempty : (trimLine line).isEmpty = false) (hnone : server.received line = none) :
    ∃ message, k.step server (.line line answer) =
      ⟨k.session.renumber (k.session.nextSeq + 1), .writing [.outgoing k.session.nextSeq none
        (.error ⟨.badFrame, message⟩)] false, k.tasks, k.wire⟩ := by
  obtain ⟨session, reader, task, hdrive, hreads⟩ := server.drive_reads answer k.session line
  have hstep : k.step server (.line line answer) =
      ⟨session, reader, k.tasks ++ task.toList, k.wire⟩ := by
    simp only [step, hidle, hdrive]
  have hreceived : ∀ {env : Envelope}, server.received line ≠ some env := by
    intro env h
    rw [hnone] at h
    cases h
  rw [hstep]
  cases hreads with
  | blank hempty =>
    rw [hnonempty] at hempty
    cases hempty
  | @unreadable message => exact ⟨message, by simp⟩
  | refused h => exact absurd h hreceived
  | answered h => exact absurd h hreceived
  | unperceived h => exact absurd h hreceived
  | perceived h => exact absurd h hreceived

theorem reads_ne_closed {answer : LlmAnswer} {s s' : Session} {line : String} {reader : Reader}
    {task : Option Task} (h : server.Reads answer s line s' reader task) : reader ≠ .closed := by
  cases h <;> simp

/-- Bytes that are not UTF-8 close the reader, which has written nothing. -/
theorem Survives.readsText (h : Survives server k e) : k.ReadsText e := by
  rintro raw answer rfl hidle
  by_contra hnone
  have hnone' : String.fromUTF8? raw = none := by simpa using hnone
  have hevent : (StreamEvent.bytes raw answer).toEvent = .eof := toEvent_bytes_of_none hnone'
  have hclosed : (k.step server (StreamEvent.bytes raw answer).toEvent).reader = .closed := by
    rw [hevent]
    simp only [step, hidle]
  rcases h.ends (by rw [hidle]; simp) hclosed with heof | ⟨out, hclosing, -⟩
  · cases heof
  · rw [hevent] at hclosing
    cases hclosing

theorem ReadsText.answered (htext : k.ReadsText e) {raw : ByteArray} {answer : LlmAnswer}
    (he : e = .bytes raw answer) (hidle : k.reader = .idle) (hnonblank : blank raw = false)
    (hnone : server.decoded raw = none) :
    ∃ out, (k.step server e.toEvent).reader = .writing [out] false ∧
      out.body.errorCode ≠ none := by
  obtain ⟨line, hline⟩ := Option.isSome_iff_exists.mp (htext raw answer he hidle)
  subst he
  have hnonempty : (trimLine line).isEmpty = false := by
    unfold blank at hnonblank
    rw [hline] at hnonblank
    exact hnonblank
  have hreceived : server.received line = none := by
    unfold Server.decoded at hnone
    rw [hline, Option.bind_some] at hnone
    exact hnone
  obtain ⟨message, hstep⟩ := step_unreadable answer hidle hnonempty hreceived
  rw [toEvent_bytes hline, hstep]
  exact ⟨_, rfl, by simp [Envelope.outgoing, Body.errorCode]⟩

/-- A reader that closes has written all that it had to write. -/
theorem closing_of_write_eq_closed {out : Envelope} {outs : List Envelope} {close : Bool}
    (hwriting : k.reader = .writing (out :: outs) close)
    (hclosed : Reader.write outs close = .closed) : k.closing .write = some out := by
  cases outs with
  | cons next outs => cases hclosed
  | nil =>
    cases close with
    | false => cases hclosed
    | true =>
      unfold closing
      dsimp only
      rw [hwriting]

theorem ReadsText.ends (htext : k.ReadsText e) (hk : k.reader.ClosesWithOne)
    (hopen : k.reader ≠ .closed) (hclosed : (k.step server e.toEvent).reader = .closed) :
    e = .eof ∨ ∃ out, k.closing e.toEvent = some out ∧ out.IsFarewell := by
  have hmoves : Moves server k e.toEvent (k.step server e.toEvent) := step_moves server k _
  generalize hevent : e.toEvent = ce at hmoves hclosed ⊢
  generalize k.step server ce = k' at hmoves hclosed
  cases hmoves with
  | idle => exact absurd hclosed hopen
  | read hidle hreads => exact absurd hclosed (reads_ne_closed hreads)
  | close hidle =>
    -- Only bytes that are no text could have taken the end of the input's place.
    cases e with
    | eof => exact Or.inl rfl
    | bytes raw answer =>
      obtain ⟨line, hline⟩ := Option.isSome_iff_exists.mp (htext raw answer rfl hidle)
      rw [toEvent_bytes hline] at hevent
      cases hevent
    | write => cases hevent
    | finish i answer => cases hevent
    | writeTask i => cases hevent
  | @write out outs close hwriting =>
    have hclosing : k.closing .write = some out := closing_of_write_eq_closed hwriting hclosed
    obtain ⟨-, hone⟩ := closing_eq_some hclosing
    obtain ⟨out', hout, hfarewell⟩ := hk _ hone
    obtain rfl : out = out' := List.singleton_inj.mp hout
    exact Or.inr ⟨out, hclosing, hfarewell⟩
  | finish => exact absurd hclosed hopen
  | writeTask => exact absurd hclosed hopen

/-- The reader survives a step exactly if what it reads is UTF-8. -/
theorem survives_iff (hk : k.reader.ClosesWithOne) : Survives server k e ↔ k.ReadsText e := by
  constructor
  · exact Survives.readsText
  · intro htext
    constructor
    · intro raw answer he hidle hnonblank hnone
      exact htext.answered he hidle hnonblank hnone
    · intro hopen hclosed
      exact htext.ends hk hopen hclosed

end Connection

/-- Along a run, malformed lines are answered and the reader goes on exactly if every line that it
takes is UTF-8. -/
theorem malformed_survived_iff (server : Server) (es : List StreamEvent) :
    (stream server).Guarded (Connection.Survives server) es ↔
      (stream server).Guarded Connection.ReadsText es := by
  apply Machine.guarded_congr
  intro pre e
  apply Connection.survives_iff
  rw [stream_reached]
  exact reached_closesWithOne server _

def badBytes : ByteArray := ⟨#[0xff, 0x0a]⟩

/-- They are not answered, and the next line is not read. -/
theorem bad_bytes_end :
    ¬(stream quietServer).Guarded (Connection.Survives quietServer)
      [.bytes badBytes fun _ _ _ => ⟨[]⟩] ∧
    ((stream quietServer).reached [.bytes badBytes fun _ _ _ => ⟨[]⟩,
      .bytes instantiateLine.toUTF8 fun _ _ _ => ⟨[]⟩, .write]).wire.map Envelope.ty = [] ∧
    ((stream quietServer).reached [.bytes instantiateLine.toUTF8 fun _ _ _ => ⟨[]⟩,
      .write]).wire.map Envelope.ty = [.ack] := by
  have hnone : String.fromUTF8? badBytes = none := by rfl
  have hclosed : ((stream quietServer).reached [.bytes badBytes fun _ _ _ => ⟨[]⟩]).reader =
      .closed := rfl
  have hline : (StreamEvent.bytes instantiateLine.toUTF8 fun _ _ _ => ⟨[]⟩).toEvent =
      .line instantiateLine fun _ _ _ => ⟨[]⟩ :=
    Connection.toEvent_bytes (Text.fromUTF8?_toUTF8 instantiateLine)
  refine ⟨fun hsurvives => ?_, ?_, ?_⟩
  · have hends := (hsurvives [] _ [] rfl).ends
    rcases hends (by simp [stream, Connection.start]) hclosed with heof | ⟨out, hclosing, -⟩
    · cases heof
    · rw [Connection.toEvent_bytes_of_none hnone] at hclosing
      cases hclosing
  · simp only [Machine.reached, stream, List.foldl_cons, List.foldl_nil, hline,
      Connection.toEvent_bytes_of_none hnone]
    rfl
  · simp only [Machine.reached, stream, List.foldl_cons, List.foldl_nil, hline,
      Connection.step_of_parse trims_instantiateLine (by decide) (by decide) quietServer_parse.1]
    rfl

/-! ## Types that are not of the protocol -/

/-- An object with a string for its type that is no spelling of a message type. -/
def Value.HasUnknownType (t : Value) : Prop :=
  ∃ members ty, t = .object members ∧ ("type", .string ty) ∈ members ∧
    MessageType.fromWire ty = none

def JsonText.UnknownType (J : JsonText) (raw : ByteArray) : Prop :=
  ∃ line t, String.fromUTF8? raw = some line ∧ J.read (trimLine line) = some t ∧ t.HasUnknownType

namespace Envelope

/-- Nothing can be made of an object after a member that cannot be read. -/
theorem foldlM_read_eq_none {members : List (String × Value)} {m : String × Value}
    (hm : m ∈ members) (hread : ∀ f : Fields, f.read m = none) (f : Fields) :
    members.foldlM Fields.read f = none := by
  induction members generalizing f with
  | nil => cases hm
  | cons m' members ih =>
    rw [List.foldlM_cons]
    rcases List.mem_cons.mp hm with rfl | hm
    · rw [hread f]
      rfl
    · cases hf : f.read m' with
      | none => rfl
      | some f' => exact ih hm f'

theorem decode_of_unknownType {t : Value} (h : t.HasUnknownType) : decode t = none := by
  obtain ⟨members, ty, rfl, hmem, hty⟩ := h
  have hread : ∀ f : Fields, f.read ("type", .string ty) = none := by
    intro f
    simp [Fields.read, MessageType.decode, unitVariant, hty]
  unfold decode
  dsimp only
  rw [foldlM_read_eq_none hmem hread]
  rfl

end Envelope

namespace Connection

/-- The line is answered with this error alone, and the reader goes on. -/
def Rejects (k k' : Connection) (code : ErrorCode) : Prop :=
  ∃ message, k' = ⟨k.session.renumber (k.session.nextSeq + 1), .writing [.outgoing
    k.session.nextSeq none (.error ⟨code, message⟩)] false, k.tasks, k.wire⟩

/-- What cannot be decoded is rejected with the error that its type calls for. -/
structure Classifies (d : Daemon) (J : JsonText) (k : Connection) (raw : ByteArray)
    (answer : LlmAnswer) : Prop where
  unknownType : J.UnknownType raw → k.Rejects
    (k.step (.ofJson d J) (StreamEvent.bytes raw answer).toEvent) .unknownType
  badFrame : ¬J.UnknownType raw → (Server.ofJson d J).decoded raw = none → k.Rejects
    (k.step (.ofJson d J) (StreamEvent.bytes raw answer).toEvent) .badFrame

theorem Rejects.code_eq {k k' : Connection} {code code' : ErrorCode} (h : k.Rejects k' code)
    (h' : k.Rejects k' code') : code = code' := by
  obtain ⟨message, rfl⟩ := h
  obtain ⟨message', heq⟩ := h'
  have hreader := Reader.writing.inj (congrArg Connection.reader heq)
  have hbody := congrArg Envelope.body (List.singleton_inj.mp hreader.1)
  have herror : (⟨code, message⟩ : ErrorBody) = ⟨code', message'⟩ := Body.error.inj hbody
  exact congrArg ErrorBody.code herror

end Connection

theorem received_of_unknownType {d : Daemon} {J : JsonText} {raw : ByteArray} {line : String}
    (hline : String.fromUTF8? raw = some line) (h : J.UnknownType raw) :
    (Server.ofJson d J).received line = none := by
  obtain ⟨line', t, hline', hread, htype⟩ := h
  obtain rfl : line = line' := Option.some.inj (hline.symm.trans hline')
  unfold Server.received
  split_ifs with hskip
  · rfl
  · show (J.read (trimLine line)).bind Envelope.decode = none
    rw [hread]
    exact Envelope.decode_of_unknownType htype

/-- In any state in which the reader takes a line, a line that is not blank is rejected with the
error that its type calls for exactly if it is UTF-8 and no object of an unknown type. -/
theorem classifies_iff (d : Daemon) (J : JsonText) (es : List StreamEvent) (raw : ByteArray)
    (answer : LlmAnswer) (hidle : ((stream (.ofJson d J)).reached es).reader = .idle)
    (hnonblank : blank raw = false) :
    ((stream (.ofJson d J)).reached es).Classifies d J raw answer ↔
      (String.fromUTF8? raw).isSome = true ∧ ¬J.UnknownType raw := by
  generalize (stream (.ofJson d J)).reached es = k at hidle ⊢
  -- text that is no envelope is always answered, and always with the same code
  have hrejects : ∀ {line : String}, String.fromUTF8? raw = some line →
      (Server.ofJson d J).received line = none →
      k.Rejects (k.step (.ofJson d J) (StreamEvent.bytes raw answer).toEvent) .badFrame := by
    intro line hline hreceived
    have hnonempty : (trimLine line).isEmpty = false := by
      unfold blank at hnonblank
      rw [hline] at hnonblank
      exact hnonblank
    rw [Connection.toEvent_bytes hline]
    exact Connection.step_unreadable answer hidle hnonempty hreceived
  constructor
  · rintro ⟨hunknown, hbad⟩
    rcases hline : String.fromUTF8? raw with _ | line
    · -- the reader is closed, and so nothing is rejected
      have htype : ¬J.UnknownType raw := by
        rintro ⟨line, t, hline', -⟩
        rw [hline] at hline'
        cases hline'
      have hdecoded : (Server.ofJson d J).decoded raw = none := by
        unfold Server.decoded
        rw [hline]
        rfl
      obtain ⟨message, hstep⟩ := hbad htype hdecoded
      rw [Connection.toEvent_bytes_of_none hline] at hstep
      have hreader := congrArg Connection.reader hstep
      simp only [Connection.step, hidle] at hreader
      cases hreader
    · refine ⟨rfl, fun htype => ?_⟩
      have hcode := (hunknown htype).code_eq (hrejects hline (received_of_unknownType hline htype))
      cases hcode
  · rintro ⟨hsome, htype⟩
    obtain ⟨line, hline⟩ := Option.isSome_iff_exists.mp hsome
    refine ⟨fun h => absurd h htype, fun _ hdecoded => ?_⟩
    unfold Server.decoded at hdecoded
    rw [hline, Option.bind_some] at hdecoded
    exact hrejects hline hdecoded

def frobnicateLine : String :=
  "\x7b\"v\":0,\"seq\":0,\"type\":\"frobnicate\",\"body\":\x7b\x7d\x7d\n"

def frobnicateTree : Value :=
  .object [("v", natTree 0), ("seq", natTree 0), ("type", .string "frobnicate"),
    ("body", .object [])]

def frobnicateText : JsonText where
  floatText _ := "0.0"
  read line :=
    if line = trimLine frobnicateLine then some frobnicateTree
    else if line = "\x7b\x7d" then some (.object [])
    else none

/-- An empty object is rejected as it should be. -/
theorem classifies_iff_empty : ((stream (.ofJson quietDaemon frobnicateText)).reached []).Classifies
    quietDaemon frobnicateText "\x7b\x7d\n".toUTF8 fun _ _ _ => ⟨[]⟩ := by
  have hline : String.fromUTF8? "\x7b\x7d\n".toUTF8 = some "\x7b\x7d\n" :=
    Text.fromUTF8?_toUTF8 _
  have htrim : trimLine "\x7b\x7d\n" = "\x7b\x7d" := by decide
  have htype : ¬frobnicateText.UnknownType "\x7b\x7d\n".toUTF8 := by
    rintro ⟨line, t, hline', hread, members, ty, rfl, hmem, -⟩
    obtain rfl := Option.some.inj (hline.symm.trans hline')
    have hempty : frobnicateText.read "\x7b\x7d" = some (.object []) := rfl
    rw [htrim, hempty] at hread
    cases hread
    cases hmem
  exact (classifies_iff quietDaemon frobnicateText [] _ _ rfl (by decide +kernel)).mpr
    ⟨by rw [hline]; rfl, htype⟩

/-- The unknown type is reported as a bad frame. -/
theorem frobnicate_bad_frame : frobnicateText.UnknownType frobnicateLine.toUTF8 ∧
    ((stream (.ofJson quietDaemon frobnicateText)).reached [.bytes frobnicateLine.toUTF8
      fun _ _ _ => ⟨[]⟩, .write]).wire.map (fun out => (out.re, out.body.errorCode)) =
        [(none, some .badFrame)] := by
  have hline : String.fromUTF8? frobnicateLine.toUTF8 = some frobnicateLine :=
    Text.fromUTF8?_toUTF8 frobnicateLine
  have hread : ∀ line, line = trimLine frobnicateLine →
      frobnicateText.read line = some frobnicateTree := fun _ h => if_pos h
  have hmem : ("type", .string "frobnicate") ∈ [("v", natTree 0), ("seq", natTree 0),
      ("type", .string "frobnicate"), ("body", .object [])] := by simp
  have htype : frobnicateText.UnknownType frobnicateLine.toUTF8 :=
    ⟨_, _, hline, hread _ rfl, _, "frobnicate", rfl, hmem, rfl⟩
  have htrims : Trims frobnicateLine 45 := .of_ofList rfl (by decide) (by decide) rfl
  obtain ⟨message, hstep⟩ := Connection.step_unreadable (k := .start) (fun _ _ _ => ⟨[]⟩) rfl
    (htrims.isEmpty_eq (by decide)) (received_of_unknownType (d := quietDaemon) hline htype)
  refine ⟨htype, ?_⟩
  simp only [Machine.reached, stream, List.foldl_cons, List.foldl_nil,
    Connection.toEvent_bytes hline, hstep]
  rfl

end Pan
