import Pan.Library.Machine
import Pan.Schema

namespace Pan

/-- The channel, whether its senders are gone, and the pending slot. -/
structure StreamingObservations where
  rx : List Goal
  closed : Bool
  pending : Option Goal

namespace StreamingObservations

def new : StreamingObservations := ⟨[], false, none⟩

/-- A poll of `recv`: ready with a goal, ready with the end of the stream, or not ready. -/
def recv (obs : StreamingObservations) : Option (Option Goal) × StreamingObservations :=
  match obs.rx with
  | goal :: rx => (some (some goal), { obs with rx })
  | [] => (if obs.closed then some none else none, obs)

/-- A poll of `next_goal`. -/
def nextGoal (obs : StreamingObservations) : Option (Option Goal) × StreamingObservations :=
  match obs.pending with
  | some goal => (some (some goal), { obs with pending := none })
  | none => obs.recv

/-- One pass of the loop of `superseded`. -/
def supersededPass (obs : StreamingObservations) (current : Goal) :
    Option Goal × StreamingObservations :=
  match obs.recv with
  | (some (some newer), obs) =>
    if current.supersededBy newer then (some newer, { obs with pending := none })
    else (none, { obs with pending := some newer })
  -- nothing to receive, or nothing ever again
  | (_, obs) => (none, obs)

def supersededPasses (current : Goal) :
    ℕ → StreamingObservations → Option Goal × StreamingObservations
  | 0, obs => (none, obs)
  | n + 1, obs =>
    match obs.supersededPass current with
    | (some newer, obs) => (some newer, obs)
    | (none, obs) => supersededPasses current n obs

/-- A poll of `superseded`: it takes goals off the channel until one of them supersedes the
current goal or there is none left. -/
def superseded (obs : StreamingObservations) (current : Goal) :
    Option Goal × StreamingObservations :=
  supersededPasses current obs.rx.length obs

/-- The goals that the source still holds, in the order in which it hands them out. -/
def held (obs : StreamingObservations) : List Goal := obs.pending.toList ++ obs.rx

/-- The pending goal that the next one off the channel takes the place of. -/
def replacing (obs : StreamingObservations) : Option (Goal × Goal) :=
  match obs.pending, obs.rx with
  | some old, new :: _ => some (old, new)
  | _, _ => none

end StreamingObservations

/-! ## The ledger of goals -/

/-- The source, the `superseded` that borrows it, and what became of the goals so far. -/
structure Streaming where
  obs : StreamingObservations
  /-- The goal that the `superseded` in flight was called with. -/
  inFlight : Option Goal
  sent : List Goal
  /-- The goals that `next_goal` or `superseded` returned. -/
  returned : List Goal
  /-- The pending goals that were dropped, each with the goal that was taken instead. -/
  replaced : List (Goal × Goal)

inductive StreamingEvent where
  | send (goal : Goal)
  /-- The last sender is dropped. -/
  | close
  /-- `next_goal` is polled. -/
  | nextGoal
  /-- `superseded` is called. -/
  | superseded (current : Goal)
  /-- The `superseded` in flight makes one pass of its loop. -/
  | pass
  /-- The `superseded` in flight is dropped. -/
  | drop

namespace Streaming

def start : Streaming := ⟨.new, none, [], [], []⟩

/-- One step. Nothing is sent once the senders are gone, and the source is borrowed by one call
at a time. -/
def step (s : Streaming) : StreamingEvent → Streaming
  | .send goal =>
    if s.obs.closed then s
    else { s with obs := { s.obs with rx := s.obs.rx ++ [goal] }, sent := s.sent ++ [goal] }
  | .close => { s with obs := { s.obs with closed := true } }
  | .nextGoal =>
    match s.inFlight with
    | some _ => s
    | none =>
      let (polled, obs) := s.obs.nextGoal
      { s with obs, returned := s.returned ++ polled.join.toList }
  | .superseded current =>
    match s.inFlight with
    | some _ => s
    | none => { s with inFlight := some current }
  | .pass =>
    match s.inFlight with
    | none => s
    | some current =>
      let (newer, obs) := s.obs.supersededPass current
      { s with
        obs
        inFlight := if newer.isSome then none else some current
        returned := s.returned ++ newer.toList
        -- a goal in the slot is overwritten by one that came later
        replaced := s.replaced ++ s.obs.replacing.toList }
  | .drop => { s with inFlight := none }

/-- What an event replaces: the pending goal, if `superseded` takes another off the channel. -/
def dropped (s : Streaming) : StreamingEvent → List (Goal × Goal)
  | .pass => if s.inFlight.isSome then s.obs.replacing.toList else []
  | _ => []

/-- Every goal that was sent has been returned once, is still held, or was replaced. -/
def Balanced (s : Streaming) : Prop :=
  s.sent.Perm (s.returned ++ s.replaced.map Prod.fst ++ s.obs.held)

/-- No goal is lost: what was replaced was replaced by a newer revision of it. -/
structure Accounted (s : Streaming) : Prop where
  balanced : s.Balanced
  newer : ∀ p ∈ s.replaced, p.1.supersededBy p.2 = true

/-- If `superseded` is about to take a goal off the channel while another one is pending, it is a
newer revision of the pending one. -/
def TakesNewer (s : Streaming) (e : StreamingEvent) : Prop :=
  ∀ p ∈ s.dropped e, p.1.supersededBy p.2 = true

end Streaming

def streaming : Machine Streaming StreamingEvent := ⟨.start, Streaming.step⟩

namespace StreamingObservations

variable (obs : StreamingObservations) (current : Goal)

/-- What `next_goal` returns is the first of what it held. -/
theorem nextGoal_held : obs.nextGoal.1.join.toList ++ obs.nextGoal.2.held = obs.held := by
  obtain ⟨rx, closed, pending⟩ := obs
  cases pending with
  | some goal => rfl
  | none =>
    cases rx with
    | nil => cases closed <;> rfl
    | cons goal rx => rfl

/-- A pass returns a goal, replaces the pending one, or keeps what it holds. -/
theorem supersededPass_held : ((obs.supersededPass current).1.toList ++
    obs.replacing.toList.map Prod.fst ++ (obs.supersededPass current).2.held).Perm obs.held := by
  obtain ⟨rx, closed, pending⟩ := obs
  cases rx with
  | nil => cases closed <;> cases pending <;> exact List.Perm.refl _
  | cons goal rx =>
    unfold supersededPass
    dsimp only [recv]
    by_cases hnewer : current.supersededBy goal = true
    · rw [if_pos hnewer]
      cases pending with
      | none => exact List.Perm.refl _
      | some old => exact List.Perm.swap old goal rx
    · rw [if_neg hnewer]
      cases pending <;> exact List.Perm.refl _

end StreamingObservations

namespace Streaming

/-- What one step does to the account of the goals. -/
theorem step_spec (s : Streaming) (e : StreamingEvent) : ∃ sent returned,
    (s.step e).sent = s.sent ++ sent ∧ (s.step e).returned = s.returned ++ returned ∧
    (s.step e).replaced = s.replaced ++ s.dropped e ∧
    (returned ++ (s.dropped e).map Prod.fst ++ (s.step e).obs.held).Perm (s.obs.held ++ sent) := by
  -- an event that finds nothing to do: all four accounts stand still
  have hidle : ∃ sent returned, s.sent = s.sent ++ sent ∧ s.returned = s.returned ++ returned ∧
      s.replaced = s.replaced ++ [] ∧ (returned ++ [] ++ s.obs.held).Perm (s.obs.held ++ sent) :=
    ⟨[], [], by simp, by simp, by simp, by simp⟩
  cases e with
  | send goal =>
    by_cases hclosed : s.obs.closed = true
    · have hstep : s.step (.send goal) = s := if_pos hclosed
      rw [hstep]
      exact hidle
    · have hstep : s.step (.send goal) =
          { s with
            obs := { s.obs with rx := s.obs.rx ++ [goal] }
            sent := s.sent ++ [goal] } := if_neg hclosed
      rw [hstep]
      exact ⟨[goal], [], rfl, by simp, by simp [dropped],
        by simp [dropped, StreamingObservations.held]⟩
  | close => exact hidle
  | nextGoal =>
    cases hinFlight : s.inFlight with
    | some current =>
      have hstep : s.step .nextGoal = s := by simp only [step, hinFlight]
      rw [hstep]
      exact hidle
    | none =>
      have hstep : s.step .nextGoal =
          { s with
            obs := s.obs.nextGoal.2
            returned := s.returned ++ s.obs.nextGoal.1.join.toList } := by
        simp only [step, hinFlight]
      rw [hstep]
      refine ⟨[], _, by simp, rfl, by simp [dropped], ?_⟩
      simp [dropped, s.obs.nextGoal_held]
  | superseded current =>
    cases hinFlight : s.inFlight with
    | some _ =>
      have hstep : s.step (.superseded current) = s := by simp only [step, hinFlight]
      rw [hstep]
      exact hidle
    | none =>
      have hstep : s.step (.superseded current) = { s with inFlight := some current } := by
        simp only [step, hinFlight]
      rw [hstep]
      exact hidle
  | pass =>
    cases hinFlight : s.inFlight with
    | none =>
      have hstep : s.step .pass = s := by simp only [step, hinFlight]
      have hdropped : s.dropped .pass = [] := by simp [dropped, hinFlight]
      rw [hstep, hdropped]
      exact hidle
    | some current =>
      -- only here is a goal lost: the one in the slot that the pass overwrites
      have hdropped : s.dropped .pass = s.obs.replacing.toList := by simp [dropped, hinFlight]
      have hstep : s.step .pass =
          { obs := (s.obs.supersededPass current).2
            inFlight := if (s.obs.supersededPass current).1.isSome then none else some current
            sent := s.sent
            returned := s.returned ++ (s.obs.supersededPass current).1.toList
            replaced := s.replaced ++ s.obs.replacing.toList } := by
        simp only [step, hinFlight]
      rw [hstep, hdropped]
      refine ⟨[], _, by simp, rfl, rfl, ?_⟩
      simpa using s.obs.supersededPass_held current
  | drop => exact hidle

theorem balanced_step {s : Streaming} (hs : s.Balanced) (e : StreamingEvent) :
    (s.step e).Balanced := by
  classical
  obtain ⟨sent, returned, hsent, hreturned, hreplaced, hheld⟩ := s.step_spec e
  unfold Balanced at hs ⊢
  rw [hsent, hreturned, hreplaced, List.perm_iff_count]
  intro goal
  have hcount := hs.count_eq goal
  have hcount' := hheld.count_eq goal
  simp only [List.count_append, List.map_append] at hcount hcount' ⊢
  omega

theorem newer_step (s : Streaming) (e : StreamingEvent) :
    (∀ p ∈ (s.step e).replaced, p.1.supersededBy p.2 = true) ↔
      (∀ p ∈ s.replaced, p.1.supersededBy p.2 = true) ∧ s.TakesNewer e := by
  obtain ⟨-, -, -, -, hreplaced, -⟩ := s.step_spec e
  rw [hreplaced, List.forall_mem_append]
  rfl

end Streaming

/-- A run loses no goal if and only if `superseded` never takes a goal off the channel in the
place of a pending one that it is no newer revision of. -/
theorem goals_accounted_iff (es : List StreamingEvent) :
    (streaming.reached es).Accounted ↔ streaming.Guarded Streaming.TakesNewer es := by
  have hbalanced : (streaming.reached es).Balanced :=
    Machine.invariant (M := streaming) (I := fun _ s => s.Balanced) (List.Perm.refl _)
      (fun _ _ e hs => Streaming.balanced_step hs e) es
  have hnewer := Machine.reached_iff_guarded (M := streaming) (I := fun _ => True)
    (P := fun s => ∀ p ∈ s.replaced, p.1.supersededBy p.2 = true) (fun _ => trivial)
    (by intro p hp; cases hp) (fun s e _ _ => s.newer_step e) es
  rw [← hnewer]
  exact ⟨fun h => h.newer, fun h => ⟨hbalanced, h⟩⟩

/-- While `g` is decided on, `h` and then `k` arrive: `h` is not returned, not replaced by a
revision of its own and not held any more. -/
theorem goal_lost : ∃ g h k : Goal, (g.id ≠ h.id ∧ g.id ≠ k.id ∧ h.id ≠ k.id) ∧
    (streaming.reached
      [.send g, .nextGoal, .superseded g, .send h, .send k, .pass, .pass, .drop]).sent =
        [g, h, k] ∧
    (streaming.reached
      [.send g, .nextGoal, .superseded g, .send h, .send k, .pass, .pass, .drop]).returned =
        [g] ∧
    (streaming.reached
      [.send g, .nextGoal, .superseded g, .send h, .send k, .pass, .pass, .drop]).obs.held =
        [k] ∧
    ¬(streaming.reached
      [.send g, .nextGoal, .superseded g, .send h, .send k, .pass, .pass, .drop]).Accounted := by
  refine ⟨⟨"g", 0, "", .tick 0⟩, ⟨"h", 0, "", .tick 0⟩, ⟨"k", 0, "", .tick 0⟩, by decide,
    rfl, rfl, rfl, fun h => ?_⟩
  have hnewer := h.newer (⟨"h", 0, "", .tick 0⟩, ⟨"k", 0, "", .tick 0⟩) (List.mem_singleton_self _)
  exact absurd (Goal.supersededBy_iff.mp hnewer).1 (by decide)

end Pan
