import Pan.Library.Machine
import Pan.Library.Window
import Pan.LoopEngine
import Pan.Transcript

namespace Pan

structure RollingConversationHistory where
  maxTurns : UInt64
  history : List Value

namespace RollingConversationHistory

def new (maxTurns : UInt64) : RollingConversationHistory := ⟨maxTurns, []⟩

def assemble (J : JsonText) (h : RollingConversationHistory) (_goal : Goal) : Context :=
  if h.history.isEmpty then ⟨[]⟩ else ⟨[⟨"history", J.write (.array h.history)⟩]⟩

/-- What the user said: the objective if nothing was said. -/
def userContent (goal : Goal) : String :=
  match goal.trigger with
  | .utterance _ content => content
  | _ => goal.objective

/-- `max_turns * 2`, which wraps around. -/
def limit (maxTurns : UInt64) : ℕ := (maxTurns * 2).toNat

def commit (h : RollingConversationHistory) (goal : Goal) (report : RunReport) :
    RollingConversationHistory :=
  let history := h.history ++ [.chatMessage "user" (userContent goal)]
  let bodies := report.expressed.filter fun body => body ≠ ""
  { h with
    history := Window.trim (limit h.maxTurns)
      (history ++ bodies.map (Value.chatMessage "assistant")) }

def committing (maxTurns : UInt64) : Machine RollingConversationHistory (Goal × RunReport) where
  init := new maxTurns
  step h turn := h.commit turn.1 turn.2

def entries (turn : Goal × RunReport) : List Value :=
  .chatMessage "user" (userContent turn.1) ::
    (turn.2.expressed.filter fun body => body ≠ "").map (Value.chatMessage "assistant")

/-- How many messages some turns add: one each, and one for every body that is not empty. -/
def messages (turns : List (Goal × RunReport)) : ℕ :=
  turns.length + (turns.map fun turn => turn.2.expressed.countP fun body => body ≠ "").sum

theorem length_flatMap_entries (turns : List (Goal × RunReport)) :
    (turns.flatMap entries).length = messages turns := by
  induction turns with
  | nil => rfl
  | cons turn turns ih =>
    rw [List.flatMap_cons, List.length_append, ih]
    unfold messages entries
    rw [List.length_cons, List.length_map, ← List.countP_eq_length_filter, List.map_cons,
      List.sum_cons, List.length_cons]
    omega

theorem messages_append (turns turns' : List (Goal × RunReport)) :
    messages (turns ++ turns') = messages turns + messages turns' := by
  rw [← length_flatMap_entries, List.flatMap_append, List.length_append, length_flatMap_entries,
    length_flatMap_entries]

theorem commit_eq (h : RollingConversationHistory) (turn : Goal × RunReport) :
    h.commit turn.1 turn.2 =
      ⟨h.maxTurns, (h.history ++ entries turn).rtake (limit h.maxTurns)⟩ := by
  unfold commit entries
  dsimp only
  rw [Window.trim_eq_rtake, List.append_assoc, List.singleton_append]

/-- What is kept is the end of all that was said, as many messages as the limit allows. -/
theorem reached_eq (maxTurns : UInt64) (turns : List (Goal × RunReport)) :
    (committing maxTurns).reached turns =
      ⟨maxTurns, (turns.flatMap entries).rtake (limit maxTurns)⟩ := by
  induction turns using List.reverseRecOn with
  | nil => rw [Machine.reached_nil, List.flatMap_nil, List.rtake_nil]; rfl
  | append_singleton turns turn ih =>
    rw [Machine.reached_concat, ih]
    change commit _ _ _ = _
    rw [commit_eq, Window.rtake_append_rtake le_rfl, List.flatMap_append, List.flatMap_singleton]

/-- A goal is shown the last messages, or no history before the first. -/
theorem assemble_reached (J : JsonText) (maxTurns : UInt64) (turns : List (Goal × RunReport))
    (goal : Goal) :
    let shown := (turns.flatMap entries).rtake (limit maxTurns)
    ((committing maxTurns).reached turns).assemble J goal =
      if shown.isEmpty then ⟨[]⟩ else ⟨[⟨"history", J.write (.array shown)⟩]⟩ := by
  rw [reached_eq]
  rfl

/-! ## Whole turns -/

/-- The history is that of the last `maxTurns` turns, and begins with a user if it is not empty. -/
structure HoldsTurns (h : RollingConversationHistory) (turns : List (Goal × RunReport)) : Prop where
  history : h.history = (turns.rtake h.maxTurns.toNat).flatMap entries
  starts : h.history = [] ∨ ∃ content rest, h.history = .chatMessage "user" content :: rest

/-- The last turns have as many messages as the limit allows, or no more if these are all. -/
def Fits (maxTurns : UInt64) (turns : List (Goal × RunReport)) : Prop :=
  if turns.length ≤ maxTurns.toNat then messages turns ≤ limit maxTurns
  else messages (turns.rtake maxTurns.toNat) = limit maxTurns

theorem flatMap_entries_starts (turns : List (Goal × RunReport)) :
    turns.flatMap entries = [] ∨
      ∃ content rest, turns.flatMap entries = .chatMessage "user" content :: rest := by
  cases turns with
  | nil => exact .inl rfl
  | cons turn turns => exact .inr ⟨userContent turn.1, _, rfl⟩

theorem holdsTurns_of_history {h : RollingConversationHistory} {turns : List (Goal × RunReport)}
    (hh : h.history = (turns.rtake h.maxTurns.toNat).flatMap entries) : h.HoldsTurns turns where
  history := hh
  starts := hh ▸ flatMap_entries_starts _

theorem messages_rtake_lt {n : ℕ} {turns : List (Goal × RunReport)} (h : n < turns.length) :
    messages (turns.rtake n) < messages turns := by
  have hsplit : messages turns =
      messages (turns.take (turns.length - n)) + messages (turns.rtake n) := by
    rw [← messages_append, List.rtake, List.take_append_drop]
  have hpos : 0 < messages (turns.take (turns.length - n)) := by
    unfold messages
    rw [List.length_take]
    omega
  omega

/-- After any turns, the history is that of the last ones exactly if their messages fit. -/
theorem reached_holdsTurns_iff (maxTurns : UInt64) (turns : List (Goal × RunReport)) :
    ((committing maxTurns).reached turns).HoldsTurns turns ↔ Fits maxTurns turns := by
  have hsuffix : (turns.rtake maxTurns.toNat).flatMap entries <:+ turns.flatMap entries := by
    obtain ⟨before, hturns⟩ := Window.rtake_suffix maxTurns.toNat turns
    exact ⟨before.flatMap entries, by rw [← List.flatMap_append, hturns]⟩
  have hlength : ((committing maxTurns).reached turns).HoldsTurns turns ↔
      min (limit maxTurns) (messages turns) = messages (turns.rtake maxTurns.toNat) := by
    rw [reached_eq, ← length_flatMap_entries, ← length_flatMap_entries,
      ← Window.rtake_eq_iff hsuffix]
    exact ⟨HoldsTurns.history, fun h => holdsTurns_of_history h⟩
  rw [hlength, Fits]
  split
  case isTrue hle =>
    rw [Window.rtake_of_length_le hle]
    omega
  case isFalse hlt =>
    have := messages_rtake_lt (Nat.not_le.mp hlt)
    omega

def greeting : Goal := ⟨"g", 0, "greet", .utterance "user" "hello"⟩

/-- Two answers push the user out of a history of one turn. -/
theorem two_bodies_lose_user : ¬((committing 1).reached
    [(greeting, { RunReport.empty with expressed := ["hi", "there"] })]).HoldsTurns
      [(greeting, { RunReport.empty with expressed := ["hi", "there"] })] := by
  intro h
  have hlength := congrArg List.length h.history
  revert hlength
  decide

end RollingConversationHistory

end Pan
