import Mathlib.Data.List.Range
import Mathlib.Data.List.Sort
import Pan.Library.Machine
import Pan.Events

namespace Pan

structure Event where
  seq : ℕ
  kind : EventKind

/-- The stream, with the threads that have taken a number and have yet to send, in the order in
which they took it. -/
structure EventStream (τ : Type) where
  /-- How many numbers have been taken. The counter itself has 64 bits. -/
  taken : ℕ
  holding : List (τ × Event)
  channel : List Event
  consumed : List Event
  /-- Whether `tx` is still there. -/
  isOpen : Bool

inductive StreamStep (τ : Type) where
  | fetchAdd (thread : τ) (kind : EventKind)
  | send (thread : τ)
  | consume
  | shutdown

namespace EventStream

variable {τ : Type} [DecidableEq τ]

/-- The first half of `emit`. A thread emits one event after another. -/
def fetchAdd (s : EventStream τ) (thread : τ) (kind : EventKind) : EventStream τ :=
  match s.holding.find? fun p => p.1 = thread with
  | some _ => s
  | none => { s with
      taken := s.taken + 1
      holding := s.holding ++ [(thread, ⟨s.taken % 2 ^ 64, kind⟩)] }

/-- The second half of `emit`. After the shutdown the event is dropped. -/
def send (s : EventStream τ) (thread : τ) : EventStream τ :=
  match s.holding.find? fun p => p.1 = thread with
  | none => s
  | some (_, event) => { s with
      holding := s.holding.eraseP fun p => p.1 = thread
      channel := if s.isOpen then s.channel ++ [event] else s.channel }

def consume (s : EventStream τ) : EventStream τ :=
  match s.channel with
  | [] => s
  | event :: channel => { s with channel := channel, consumed := s.consumed ++ [event] }

/-- `shutdown` takes the stream by `&mut self`, so no thread is in the middle of an `emit`. -/
def shutdown (s : EventStream τ) : EventStream τ :=
  match s.holding with
  | [] => { s with isOpen := false }
  | _ :: _ => s

end EventStream

def spawned (τ : Type) [DecidableEq τ] : Machine (EventStream τ) (StreamStep τ) where
  init := ⟨0, [], [], [], true⟩
  step s
    | .fetchAdd thread kind => s.fetchAdd thread kind
    | .send thread => s.send thread
    | .consume => s.consume
    | .shutdown => s.shutdown

/-- The numbers ascend from zero, and none is missing. -/
def InSequence (events : List Event) : Prop :=
  events.map Event.seq = List.range events.length

theorem inSequence_concat {events : List Event} {event : Event} :
    InSequence (events ++ [event]) ↔ InSequence events ∧ event.seq = events.length := by
  unfold InSequence
  rw [List.map_append, List.length_append, List.length_singleton, List.range_succ,
    List.map_singleton]
  constructor
  · intro h
    obtain ⟨hevents, hlast⟩ := List.append_inj' h rfl
    exact ⟨hevents, List.singleton_injective hlast⟩
  · rintro ⟨hevents, hlast⟩
    rw [hevents, hlast]

theorem InSequence.of_append {events events' : List Event} (h : InSequence (events ++ events')) :
    InSequence events := by
  induction events' using List.reverseRecOn with
  | nil => rwa [List.append_nil] at h
  | append_singleton events' event ih =>
    rw [← List.append_assoc] at h
    exact ih (inSequence_concat.mp h).1

namespace EventStream

variable {τ : Type}

/-- What the sink has consumed, and what it is yet to consume. -/
def sent (s : EventStream τ) : List Event := s.consumed ++ s.channel

/-- Fewer than `2 ^ 64` numbers have been taken. -/
def Unwrapped (s : EventStream τ) : StreamStep τ → Prop
  | .fetchAdd _ _ => s.taken < 2 ^ 64
  | _ => True

/-- Every number that was taken is sent or held, and the threads hold theirs in order. -/
structure Counted (s : EventStream τ) : Prop where
  perm : (s.sent.map Event.seq ++ s.holding.map fun p => p.2.seq).Perm (List.range s.taken)
  ascending : (s.holding.map fun p => p.2.seq).Pairwise (· < ·)

theorem Counted.lt_taken {s : EventStream τ} (hs : s.Counted) {p : τ × Event}
    (hp : p ∈ s.holding) : p.2.seq < s.taken := by
  have hmem : p.2.seq ∈ s.sent.map Event.seq ++ s.holding.map fun p => p.2.seq :=
    List.mem_append_right _ (List.mem_map_of_mem hp)
  exact List.mem_range.mp (hs.perm.mem_iff.mp hmem)

theorem counted_of_eq {s s' : EventStream τ} (hs : s.Counted) (hsent : s'.sent = s.sent)
    (hholding : s'.holding = s.holding) (htaken : s'.taken = s.taken) : s'.Counted :=
  ⟨by rw [hsent, hholding, htaken]; exact hs.perm, by rw [hholding]; exact hs.ascending⟩

/-- If what was sent is in sequence, then the threads hold the numbers that follow. -/
theorem Counted.holding_eq {s : EventStream τ} (hs : s.Counted) (hsent : InSequence s.sent) :
    ∃ n, (s.holding.map fun p => p.2.seq) = List.range' s.sent.length n := by
  have hperm := hs.perm
  rw [hsent] at hperm
  have hle : s.sent.length ≤ s.taken := by
    have := hperm.length_eq
    simp only [List.length_append, List.length_range, List.length_map] at this
    omega
  refine ⟨s.taken - s.sent.length, ?_⟩
  have hrange : List.range s.taken =
      List.range s.sent.length ++ List.range' s.sent.length (s.taken - s.sent.length) := by
    have happend := List.range'_append_1 (s := 0) (m := s.sent.length)
      (n := s.taken - s.sent.length)
    rw [Nat.zero_add, Nat.add_sub_of_le hle] at happend
    rw [List.range_eq_range', List.range_eq_range', happend]
  rw [hrange, List.perm_append_left_iff] at hperm
  exact hperm.eq_of_pairwise (fun _ _ _ _ h h' => absurd h (lt_asymm h')) hs.ascending
    List.pairwise_lt_range'

/-! ## What each step does -/

theorem sent_consume (s : EventStream τ) : s.consume.sent = s.sent := by
  obtain ⟨taken, holding, _ | ⟨event, channel⟩, consumed, isOpen⟩ := s
  · rfl
  · simp [consume, sent]

theorem channel_consume (s : EventStream τ) : s.consume.channel = s.channel.tail := by
  obtain ⟨taken, holding, _ | ⟨event, channel⟩, consumed, isOpen⟩ := s <;> rfl

theorem sent_shutdown (s : EventStream τ) : s.shutdown.sent = s.sent := by
  unfold shutdown
  split <;> rfl

variable [DecidableEq τ]

/-- A thread sends only when it has the earliest of the numbers that were not sent yet. -/
def InTurn (s : EventStream τ) : StreamStep τ → Prop
  | .send thread => ∀ p, s.holding.find? (fun q => q.1 = thread) = some p →
      s.isOpen = true → s.holding.head? = some p
  | _ => True


theorem counted_fetchAdd {s : EventStream τ} (hs : s.Counted) (hlt : s.taken < 2 ^ 64)
    (thread : τ) (kind : EventKind) : (s.fetchAdd thread kind).Counted := by
  unfold fetchAdd
  split
  · exact hs
  · have hseq : s.taken % 2 ^ 64 = s.taken := Nat.mod_eq_of_lt hlt
    constructor
    · simp only [sent, List.map_append, List.map_singleton, hseq, List.range_succ,
        ← List.append_assoc]
      simpa [sent] using hs.perm.append_right [s.taken]
    · simp only [List.map_append, List.map_singleton, hseq]
      refine List.pairwise_append.mpr ⟨hs.ascending, List.pairwise_singleton _ _, ?_⟩
      intro n hn m hm
      obtain ⟨p, hp, rfl⟩ := List.mem_map.mp hn
      obtain rfl := List.mem_singleton.mp hm
      exact hs.lt_taken hp

theorem sent_fetchAdd (s : EventStream τ) (thread : τ) (kind : EventKind) :
    (s.fetchAdd thread kind).sent = s.sent := by
  unfold fetchAdd
  split <;> rfl

theorem send_of_none {s : EventStream τ} {thread : τ}
    (h : s.holding.find? (fun p => p.1 = thread) = none) : s.send thread = s := by
  unfold send
  rw [h]

theorem sent_send_of_some {s : EventStream τ} {thread : τ} {p : τ × Event}
    (hopen : s.isOpen = true) (h : s.holding.find? (fun p => p.1 = thread) = some p) :
    (s.send thread).sent = s.sent ++ [p.2] := by
  unfold send
  rw [h]
  simp [sent, hopen]

theorem sent_send_of_closed {s : EventStream τ} (hclosed : s.isOpen = false) (thread : τ) :
    (s.send thread).sent = s.sent := by
  unfold send
  split
  · rfl
  · simp [sent, hclosed]

theorem isOpen_send (s : EventStream τ) (thread : τ) : (s.send thread).isOpen = s.isOpen := by
  unfold send
  split <;> rfl

/-- Where in the list of holders a thread is. -/
theorem exists_holding_of_find {s : EventStream τ} {thread : τ} {p : τ × Event}
    (h : s.holding.find? (fun p => p.1 = thread) = some p) :
    ∃ earlier later, s.holding = earlier ++ p :: later ∧
      (s.send thread).holding = earlier ++ later ∧ (s.send thread).taken = s.taken := by
  obtain ⟨hp, earlier, later, hholding, hearlier⟩ := List.find?_eq_some_iff_append.mp h
  refine ⟨earlier, later, hholding, ?_, ?_⟩
  · unfold send
    rw [h]
    dsimp only
    rw [hholding, List.eraseP_append_right _ fun q hq => by simpa using hearlier q hq,
      List.eraseP_cons_of_pos (by simpa using hp)]
  · unfold send
    rw [h]

theorem counted_send {s : EventStream τ} (hs : s.Counted) (hopen : s.isOpen = true)
    (thread : τ) : (s.send thread).Counted := by
  cases h : s.holding.find? fun p => p.1 = thread with
  | none => rwa [send_of_none h]
  | some p =>
    obtain ⟨earlier, later, hholding, hafter, htaken⟩ := exists_holding_of_find h
    have hperm := hs.perm
    have hascending := hs.ascending
    rw [hholding] at hperm hascending
    constructor
    · rw [sent_send_of_some hopen h, hafter, htaken]
      refine List.Perm.trans ?_ hperm
      simp only [List.map_append, List.map_cons, List.map_nil, List.append_assoc,
        List.singleton_append]
      exact List.perm_middle.symm.append_left _
    · rw [hafter]
      refine hascending.sublist ?_
      simp

/-- Sending keeps what was sent in sequence exactly if the thread is in turn. -/
theorem inSequence_send {s : EventStream τ} (hs : s.isOpen = true → s.Counted) (thread : τ) :
    InSequence (s.send thread).sent ↔ InSequence s.sent ∧ s.InTurn (.send thread) := by
  cases h : s.holding.find? fun p => p.1 = thread with
  | none =>
    rw [send_of_none h]
    exact (and_iff_left fun p hp => by rw [h] at hp; cases hp).symm
  | some p =>
    cases hopen : s.isOpen with
    | false =>
      rw [sent_send_of_closed hopen]
      exact (and_iff_left fun _ _ h => by rw [hopen] at h; cases h).symm
    | true =>
      rw [sent_send_of_some hopen h, inSequence_concat]
      refine and_congr_right fun hsent => ?_
      obtain ⟨earlier, later, hholding, -, -⟩ := exists_holding_of_find h
      obtain ⟨n, hseqs⟩ := (hs hopen).holding_eq hsent
      have hascending := (hs hopen).ascending
      rw [hholding] at hseqs hascending
      have hturn : s.InTurn (.send thread) ↔ (earlier ++ p :: later).head? = some p := by
        rw [← hholding]
        constructor
        · intro hturn
          exact hturn p h hopen
        · intro hhead p' hp' _
          rw [h] at hp'
          cases hp'
          exact hhead
      rw [hturn]
      cases n with
      | zero => simp at hseqs
      | succ n =>
        -- only the oldest of the numbers held is the next one to be consumed
        cases earlier with
        | nil =>
          rw [List.range'_succ] at hseqs
          exact iff_of_true (List.cons.inj hseqs).1 rfl
        | cons q earlier =>
          rw [List.range'_succ] at hseqs
          have hq : q.2.seq = s.sent.length := (List.cons.inj hseqs).1
          have hlt : q.2.seq < p.2.seq :=
            (List.pairwise_cons.mp hascending).1 p.2.seq (by simp)
          refine iff_of_false (by omega) fun hhead => ?_
          obtain rfl : q = p := Option.some.inj hhead
          exact lt_irrefl _ hlt

end EventStream

open EventStream

section Runs

variable {τ : Type} [DecidableEq τ]

theorem counted_step {s : EventStream τ} {step : StreamStep τ}
    (hs : s.isOpen = true → s.Counted) (hstep : s.Unwrapped step) :
    ((spawned τ).step s step).isOpen = true → ((spawned τ).step s step).Counted := by
  intro hopen
  cases step with
  | fetchAdd thread kind =>
    refine counted_fetchAdd (hs ?_) hstep thread kind
    change (s.fetchAdd thread kind).isOpen = true at hopen
    unfold fetchAdd at hopen
    split at hopen <;> exact hopen
  | send thread =>
    have hopen' : s.isOpen = true := (isOpen_send s thread).symm.trans hopen
    exact counted_send (hs hopen') hopen' thread
  | consume =>
    obtain ⟨taken, holding, _ | ⟨event, channel⟩, consumed, isOpen⟩ := s
    · exact hs hopen
    · exact counted_of_eq (hs hopen) (sent_consume _) rfl rfl
  | shutdown =>
    change s.shutdown.isOpen = true at hopen
    change s.shutdown.Counted
    unfold shutdown at hopen ⊢
    split
    · rename_i heq
      rw [heq] at hopen
      cases hopen
    · rename_i heq
      rw [heq] at hopen
      exact hs hopen

theorem inSequence_step {s : EventStream τ} (hs : s.isOpen = true → s.Counted)
    (step : StreamStep τ) :
    InSequence ((spawned τ).step s step).sent ↔ InSequence s.sent ∧ s.InTurn step := by
  cases step with
  | fetchAdd thread kind =>
    rw [and_iff_left (show s.InTurn (.fetchAdd thread kind) from trivial)]
    exact (congrArg InSequence (sent_fetchAdd s thread kind)).to_iff
  | send thread => exact inSequence_send hs thread
  | consume =>
    rw [and_iff_left (show s.InTurn (.consume) from trivial)]
    exact (congrArg InSequence (sent_consume s)).to_iff
  | shutdown =>
    rw [and_iff_left (show s.InTurn (.shutdown) from trivial)]
    exact (congrArg InSequence (sent_shutdown s)).to_iff

/-- In a run that does not exhaust the counter, what was sent is in sequence exactly if every
thread has sent in turn. -/
theorem inSequence_sent_iff {es : List (StreamStep τ)} (h : (spawned τ).Guarded Unwrapped es) :
    InSequence ((spawned τ).reached es).sent ↔ (spawned τ).Guarded InTurn es := by
  have hcounted : ∀ es, (spawned τ).Guarded Unwrapped es →
      ((spawned τ).reached es).isOpen = true → ((spawned τ).reached es).Counted := by
    intro es hes
    refine Machine.invariant_of_guarded (I := fun _ s => s.isOpen = true → s.Counted) ?_
      (fun _ s step hs hstep => counted_step hs hstep) hes
    exact fun _ => ⟨List.Perm.refl _, List.Pairwise.nil⟩
  induction es using List.reverseRecOn with
  | nil => exact iff_of_true rfl (Machine.guarded_nil _)
  | append_singleton es e ih =>
    obtain ⟨hes, -⟩ := Machine.guarded_concat.mp h
    rw [Machine.reached_concat, inSequence_step (hcounted es hes), Machine.guarded_concat]
    exact and_congr_left' (ih hes)

/-! ## What the sink gets -/

theorem sent_consumes (es : List (StreamStep τ)) (n : ℕ) :
    ((spawned τ).reached (es ++ List.replicate n .consume)).sent =
      ((spawned τ).reached es).sent := by
  induction n with
  | zero => rw [List.replicate_zero, List.append_nil]
  | succ n ih =>
    rw [List.replicate_succ', ← List.append_assoc, Machine.reached_concat]
    exact (sent_consume _).trans ih

theorem channel_consumes (es : List (StreamStep τ)) (n : ℕ) :
    ((spawned τ).reached (es ++ List.replicate n .consume)).channel =
      ((spawned τ).reached es).channel.drop n := by
  induction n with
  | zero => rw [List.replicate_zero, List.append_nil, List.drop_zero]
  | succ n ih =>
    rw [List.replicate_succ', ← List.append_assoc, Machine.reached_concat, ← List.tail_drop, ← ih]
    exact channel_consume _

/-- However long the sink goes on consuming, it gets the events in the order of their numbers
with none missing. -/
def SinkInSequence (es : List (StreamStep τ)) : Prop :=
  ∀ n, InSequence ((spawned τ).reached (es ++ List.replicate n .consume)).consumed

theorem sinkInSequence_iff (es : List (StreamStep τ)) :
    SinkInSequence es ↔ InSequence ((spawned τ).reached es).sent := by
  constructor
  · intro h
    have hlast := h ((spawned τ).reached es).channel.length
    have hsent := sent_consumes es ((spawned τ).reached es).channel.length
    rw [sent, channel_consumes, List.drop_length, List.append_nil] at hsent
    rwa [hsent] at hlast
  · intro h n
    rw [← sent_consumes es n] at h
    exact h.of_append

/-- As long as the counter is not exhausted, the sink gets the events in sequence exactly if
every thread sends in turn. -/
theorem sink_in_sequence_iff (es : List (StreamStep τ)) :
    (spawned τ).Guarded Unwrapped es ∧ SinkInSequence es ↔
      (spawned τ).Guarded Unwrapped es ∧ (spawned τ).Guarded InTurn es := by
  refine and_congr_right fun h => ?_
  rw [sinkInSequence_iff, inSequence_sent_iff h]

/-- A thread on its own is always in turn. -/
theorem inTurn_of_subsingleton [Subsingleton τ] (s : EventStream τ) (step : StreamStep τ) :
    s.InTurn step := by
  cases step with
  | send thread =>
    intro p hp _
    cases hholding : s.holding with
    | nil =>
      rw [hholding] at hp
      cases hp
    | cons q holding =>
      rw [hholding, List.find?_cons_of_pos (by simp [Subsingleton.elim q.1 thread])] at hp
      exact hp
  | fetchAdd thread kind => trivial
  | consume => trivial
  | shutdown => trivial

/-- With one emitter the sink gets the events in sequence. -/
theorem sinkInSequence_of_subsingleton [Subsingleton τ] {es : List (StreamStep τ)}
    (h : (spawned τ).Guarded Unwrapped es) : SinkInSequence es := by
  rw [sinkInSequence_iff, inSequence_sent_iff h]
  exact fun _ _ _ _ => inTurn_of_subsingleton _ _

def overtaking : List (StreamStep Bool) :=
  [.fetchAdd false (.expressed "a"), .fetchAdd true (.expressed "b"), .send true, .send false]

theorem overtaking_not_in_sequence : ¬SinkInSequence overtaking := by
  intro h
  have htwo : InSequence [⟨1, .expressed "b"⟩, ⟨0, .expressed "a"⟩] := h 2
  cases htwo

end Runs

end Pan
