import Mathlib.Logic.Function.Iterate
import Pan.Library.Machine

namespace Pan

/-- What the two ends of the channel share. -/
structure Watch where
  value : Bool
  version : ℕ
  closed : Bool

namespace Watch

def send (ch : Watch) (value : Bool) : Watch :=
  if ch.closed then ch else ⟨value, ch.version + 1, false⟩

def drop (ch : Watch) : Watch := { ch with closed := true }

/-- One poll of `changed()` for a receiver that has seen the version `seen`: what it returns with
what the receiver has then seen, or nothing while there is nothing new. The cooperative budget of
tokio, for which a poll may be pending although there is something new, is not modelled. -/
def changed (ch : Watch) (seen : ℕ) : Option (Except Unit Unit × ℕ) :=
  if ch.version ≠ seen then some (.ok (), ch.version)
  else if ch.closed then some (.error (), seen)
  else none

end Watch

/-- The future of one call of `vetoed`: not polled yet, or waiting in `changed()`. -/
inductive VetoFuture where
  | fresh
  | changed (seen : ℕ)

/-- Where `select!` is. -/
inductive SelectPoint where
  | waiting (vetoed : VetoFuture)
  | superseded (vetoed : VetoFuture)
  /-- `vetoed` looks at the value before its loop. -/
  | borrow
  /-- It is at the head of its loop. -/
  | changed (seen : ℕ)
  /-- It looks at the value again. -/
  | check (seen : ℕ)
  /-- It is pending, and `decide` is polled. -/
  | decide (seen : ℕ)
  /-- It is ready. -/
  | vetoed (reason : Option String)

/-- `ChannelVeto` with the channel it listens to, and the `select!` that polls it. -/
structure ChannelVeto where
  channel : Watch
  /-- What the receiver of the `ChannelVeto` has seen. The loop works on a clone of it. -/
  seen : ℕ
  point : SelectPoint

inductive SelectEvent where
  | send (value : Bool)
  | drop
  /-- The task is woken, for whatever reason. -/
  | poll
  | superseded (fires : Bool)
  /-- The next step of `vetoed`. -/
  | vetoed
  | decide (ready : Bool)
  /-- A new span, after a veto. -/
  | runSpan

namespace ChannelVeto

/-- One step of `vetoed`. What `changed()` returns is thrown away. -/
def vetoedStep (s : ChannelVeto) : ChannelVeto :=
  match s.point with
  | .borrow => { s with
      point := if s.channel.value then .vetoed (some "external abort signal")
        else .changed s.seen }
  | .changed seen => { s with
      point := match s.channel.changed seen with
        | some (_, seen') => .check seen'
        -- nothing new: `changed()` is pending
        | none => .decide seen }
  | .check seen => { s with
      point := if s.channel.value then .vetoed (some "external abort signal")
        else .changed seen }
  | _ => s

/-- `select!` polls its futures in order and begins a new race when one of them is ready. -/
def step (s : ChannelVeto) : SelectEvent → ChannelVeto
  | .send value => { s with channel := s.channel.send value }
  | .drop => { s with channel := s.channel.drop }
  | .poll => match s.point with
    | .waiting f => { s with point := .superseded f }
    | _ => s
  | .superseded fires => match s.point with
    | .superseded f => { s with
        -- the race is over, and the next one begins with new futures
        point := if fires then .waiting .fresh
          else match f with
            | .fresh => .borrow
            | .changed seen => .changed seen }
    | _ => s
  | .vetoed => s.vetoedStep
  | .decide ready => match s.point with
    | .decide seen => { s with
        point := if ready then .waiting .fresh else .waiting (.changed seen) }
    | _ => s
  | .runSpan => match s.point with
    | .vetoed _ => { s with point := .waiting .fresh }
    | _ => s

/-- A `ChannelVeto` on a channel with this value in it. -/
def new (value : Bool) : Machine ChannelVeto SelectEvent where
  init := ⟨⟨value, 0, false⟩, 0, .waiting .fresh⟩
  step := step

/-! ## What has been seen -/

/-- A version that a receiver has seen is not to come, and if it is the last then its value was no
veto. -/
structure Seen (ch : Watch) (seen : ℕ) : Prop where
  le : seen ≤ ch.version
  value : ch.version = seen → ch.value = false

def SeenBy (ch : Watch) : SelectPoint → Prop
  | .waiting (.changed seen) | .superseded (.changed seen) | .changed seen | .decide seen =>
    Seen ch seen
  | .check seen => seen ≤ ch.version
  | _ => True

/-- The receiver and its clone have seen no more than was sent. -/
structure Consistent (s : ChannelVeto) : Prop where
  seen : s.seen ≤ s.channel.version
  point : SeenBy s.channel s.point

theorem Seen.send {ch : Watch} {seen : ℕ} (h : Seen ch seen) (value : Bool) :
    Seen (ch.send value) seen := by
  unfold Watch.send
  split
  · exact h
  · exact ⟨Nat.le_succ_of_le h.le, fun heq => absurd heq (by have := h.le; dsimp only; omega)⟩

theorem version_le_send (ch : Watch) (value : Bool) : ch.version ≤ (ch.send value).version := by
  unfold Watch.send
  split
  · exact Nat.le_refl _
  · exact Nat.le_succ _

/-- What has been seen of a channel has been seen of what it becomes. -/
theorem SeenBy.mono {ch ch' : Watch} {point : SelectPoint} (h : SeenBy ch point)
    (hseen : ∀ seen, Seen ch seen → Seen ch' seen) (hversion : ch.version ≤ ch'.version) :
    SeenBy ch' point := by
  cases point with
  | waiting f => cases f with
    | fresh => trivial
    | changed seen => exact hseen seen h
  | superseded f => cases f with
    | fresh => trivial
    | changed seen => exact hseen seen h
  | borrow => trivial
  | changed seen => exact hseen seen h
  | check seen => exact Nat.le_trans h hversion
  | decide seen => exact hseen seen h
  | vetoed reason => trivial

theorem SeenBy.send {ch : Watch} {point : SelectPoint} (h : SeenBy ch point) (value : Bool) :
    SeenBy (ch.send value) point :=
  h.mono (fun _ hseen => hseen.send value) (version_le_send ch value)

theorem SeenBy.drop {ch : Watch} {point : SelectPoint} (h : SeenBy ch point) :
    SeenBy ch.drop point :=
  h.mono (fun _ hseen => ⟨hseen.le, hseen.value⟩) (Nat.le_refl _)

theorem consistent_vetoedStep {s : ChannelVeto} (h : s.Consistent) :
    s.vetoedStep.Consistent := by
  obtain ⟨ch, own, point⟩ := s
  have hpoint : SeenBy ch point := h.point
  cases point with
  | borrow =>
    refine ⟨h.seen, ?_⟩
    cases hvalue : ch.value with
    | true => simp [vetoedStep, hvalue, SeenBy]
    | false =>
      simp only [vetoedStep, hvalue]
      exact ⟨h.seen, fun _ => hvalue⟩
  | changed seen =>
    refine ⟨h.seen, ?_⟩
    simp only [vetoedStep, Watch.changed]
    split_ifs with hversion hclosed
    · exact Nat.le_refl ch.version
    · exact hpoint.le
    · exact hpoint
  | check seen =>
    refine ⟨h.seen, ?_⟩
    cases hvalue : ch.value with
    | true => simp [vetoedStep, hvalue, SeenBy]
    | false =>
      simp only [vetoedStep, hvalue]
      exact ⟨hpoint, fun _ => hvalue⟩
  | waiting f => exact h
  | superseded f => exact h
  | decide seen => exact h
  | vetoed reason => exact h

theorem consistent_step {s : ChannelVeto} (h : s.Consistent) (e : SelectEvent) :
    (s.step e).Consistent := by
  obtain ⟨ch, own, point⟩ := s
  have hpoint : SeenBy ch point := h.point
  cases e with
  | send value =>
    exact ⟨Nat.le_trans h.seen (version_le_send ch value), hpoint.send value⟩
  | drop => exact ⟨h.seen, hpoint.drop⟩
  | poll =>
    cases point with
    | waiting f => exact ⟨h.seen, by cases f <;> exact hpoint⟩
    | _ => exact h
  | superseded fires =>
    cases point with
    | superseded f =>
      refine ⟨h.seen, ?_⟩
      cases fires with
      | true => trivial
      | false => cases f <;> exact hpoint
    | _ => exact h
  | vetoed => exact consistent_vetoedStep h
  | decide ready =>
    cases point with
    | decide seen =>
      refine ⟨h.seen, ?_⟩
      cases ready with
      | true => trivial
      | false => exact hpoint
    | _ => exact h
  | runSpan =>
    cases point with
    | vetoed reason => exact ⟨h.seen, trivial⟩
    | _ => exact h

theorem reached_consistent (value : Bool) (es : List SelectEvent) :
    ((new value).reached es).Consistent := by
  have hinit : (new value).init.Consistent := ⟨Nat.le_refl 0, trivial⟩
  exact Machine.invariant (I := fun _ s => Consistent s) hinit
    (fun _ _ e h => consistent_step h e) es

/-! ## Polls that return -/

/-- A poll of `vetoed` is under way. -/
def Polling (s : ChannelVeto) : Prop :=
  match s.point with
  | .borrow | .changed _ | .check _ => True
  | _ => False

/-- The poll has returned: ready with a veto, or pending without one, and `decide` is next. -/
def Returned (s : ChannelVeto) : Prop :=
  match s.point with
  | .vetoed _ => s.channel.value = true
  | .decide _ => s.channel.value = false
  | _ => False

/-- After finitely many steps of its own, the poll has returned. -/
def Returns (s : ChannelVeto) : Prop := ∃ n, (vetoedStep^[n] s).Returned

theorem Returns.of_step {s : ChannelVeto} (h : s.vetoedStep.Returns) : s.Returns := by
  obtain ⟨n, hn⟩ := h
  exact ⟨n + 1, by rwa [Function.iterate_succ_apply]⟩

theorem Returned.returns {s : ChannelVeto} (h : s.Returned) : s.Returns := ⟨0, h⟩

/-- The channel is open, or the last value sent was a veto. -/
def Decided (ch : Watch) : Prop := ch.closed = false ∨ ch.value = true

theorem returns_changed_version {ch : Watch} (own : ℕ) (hclosed : ch.closed = false)
    (hvalue : ch.value = false) : Returns ⟨ch, own, .changed ch.version⟩ := by
  apply Returns.of_step
  apply Returned.returns
  simp [vetoedStep, Watch.changed, hclosed, Returned, hvalue]

/-- A look at the value is a veto, or goes on to `changed()`. -/
theorem returns_look {s : ChannelVeto} {ch : Watch} {own seen : ℕ}
    (hs : s.vetoedStep = ⟨ch, own,
      if ch.value then .vetoed (some "external abort signal") else .changed seen⟩)
    (hch : Decided ch)
    (hchanged : ch.closed = false → ch.value = false → Returns ⟨ch, own, .changed seen⟩) :
    s.Returns := by
  apply Returns.of_step
  rw [hs]
  cases hvalue : ch.value with
  | true => exact Returned.returns hvalue
  | false =>
    have hclosed : ch.closed = false := by simpa [Decided, hvalue] using hch
    exact hchanged hclosed hvalue

theorem returns_changed {ch : Watch} {seen : ℕ} (own : ℕ) (h : Seen ch seen) (hch : Decided ch) :
    Returns ⟨ch, own, .changed seen⟩ := by
  by_cases hversion : ch.version = seen
  · have hvalue := h.value hversion
    have hclosed : ch.closed = false := by simpa [Decided, hvalue] using hch
    exact hversion ▸ returns_changed_version own hclosed hvalue
  · have hcheck : Returns ⟨ch, own, .check ch.version⟩ :=
      returns_look rfl hch (returns_changed_version own)
    apply Returns.of_step
    simpa [vetoedStep, Watch.changed, hversion] using hcheck

theorem returns_of_polling {s : ChannelVeto} (h : s.Consistent) (hpolling : s.Polling)
    (hch : Decided s.channel) : s.Returns := by
  obtain ⟨ch, own, point⟩ := s
  have hpoint : SeenBy ch point := h.point
  cases point with
  | borrow => exact returns_look rfl hch fun _ hvalue =>
      returns_changed own ⟨h.seen, fun _ => hvalue⟩ hch
  | changed seen => exact returns_changed own hpoint hch
  | check seen => exact returns_look rfl hch fun _ hvalue =>
      returns_changed own ⟨hpoint, fun _ => hvalue⟩ hch
  | waiting f => exact absurd hpolling id
  | superseded f => exact absurd hpolling id
  | decide seen => exact absurd hpolling id
  | vetoed reason => exact absurd hpolling id

/-! ## The poll that spins -/

/-- Nobody is left to send, and there is no veto. -/
structure Spinning (s : ChannelVeto) : Prop where
  polling : s.Polling
  closed : s.channel.closed = true
  value : s.channel.value = false

/-- `changed()` returns at once, so that the loop goes round. -/
theorem spinning_vetoedStep {s : ChannelVeto} (h : s.Spinning) : s.vetoedStep.Spinning := by
  obtain ⟨ch, own, point⟩ := s
  obtain ⟨hpolling, hclosed, hvalue⟩ := h
  dsimp only at hclosed hvalue
  cases point with
  | borrow =>
    constructor <;> simp [vetoedStep, Polling, hclosed, hvalue]
  | changed seen =>
    simp only [vetoedStep, Watch.changed, hclosed]
    split_ifs with hversion
    · exact ⟨trivial, hclosed, hvalue⟩
    · exact ⟨trivial, hclosed, hvalue⟩
  | check seen =>
    constructor <;> simp [vetoedStep, Polling, hclosed, hvalue]
  | waiting f => exact absurd hpolling id
  | superseded f => exact absurd hpolling id
  | decide seen => exact absurd hpolling id
  | vetoed reason => exact absurd hpolling id

theorem Spinning.iterate {s : ChannelVeto} (h : s.Spinning) (n : ℕ) :
    (vetoedStep^[n] s).Spinning := by
  induction n with
  | zero => exact h
  | succ n ih =>
    rw [Function.iterate_succ_apply']
    exact spinning_vetoedStep ih

theorem Spinning.not_returns {s : ChannelVeto} (h : s.Spinning) : ¬s.Returns := by
  rintro ⟨n, hreturned⟩
  have hpolling := (h.iterate n).polling
  unfold Polling at hpolling
  unfold Returned at hreturned
  split at hpolling <;> simp_all

/-- Whatever was sent and whenever the senders went, a poll of `vetoed` that is under way returns
exactly if the channel is open or has a veto in it. -/
theorem returns_iff (value : Bool) (es : List SelectEvent)
    (h : ((new value).reached es).Polling) :
    ((new value).reached es).Returns ↔ Decided ((new value).reached es).channel := by
  constructor
  · intro hreturns
    by_contra hch
    have hch' := not_or.mp hch
    have hspinning : ((new value).reached es).Spinning :=
      ⟨h, by simpa using hch'.1, by simpa using hch'.2⟩
    exact hspinning.not_returns hreturns
  · exact returns_of_polling (reached_consistent value es) h

/-- The sender is dropped, and the first poll never comes to `decide`. -/
theorem dropped_sender_spins :
    ((new false).reached [.drop, .poll, .superseded false]).Polling ∧
      ¬((new false).reached [.drop, .poll, .superseded false]).Returns := by
  have hspinning : ((new false).reached [.drop, .poll, .superseded false]).Spinning :=
    ⟨trivial, rfl, rfl⟩
  exact ⟨trivial, hspinning.not_returns⟩

theorem returns_iff_first_poll :
    ((new true).reached [.drop, .poll, .superseded false]).Returns ↔
      Decided ((new true).reached [.drop, .poll, .superseded false]).channel :=
  returns_iff true [.drop, .poll, .superseded false] trivial

end ChannelVeto

end Pan
