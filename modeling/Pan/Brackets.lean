import Pan.ContinueLaw
import Pan.Revisions

namespace Pan

/-- An event that opens or closes the bracket of a run. What closes it names no revision. -/
inductive Bracket where
  | opens (version : String × ℕ)
  | closes (goalId : String)

def Bracket.isOpening : Bracket → Bool
  | .opens _ => true
  | .closes _ => false

/-- One bracket for each revision, closed before the next is opened. -/
def matching (versions : List (String × ℕ)) : List Bracket :=
  versions.flatMap fun v => [.opens v, .closes v.1]

theorem matching_concat (versions : List (String × ℕ)) (v : String × ℕ) :
    matching (versions ++ [v]) = matching versions ++ [.opens v, .closes v.1] := by
  simp [matching]

/-- The provider says that it is done. -/
def Decision.Concludes (d : Decision) : Prop := ∃ outcome, .conclude outcome ∈ d.intents

/-! ## Ledgers -/

/-- The brackets of a history, the revisions that it pursues and the decisions made in it. -/
structure Ledger where
  brackets : List Bracket
  pursued : List (String × ℕ)
  decisions : List Decision

namespace Ledger

def append (l l' : Ledger) : Ledger :=
  ⟨l.brackets ++ l'.brackets, l.pursued ++ l'.pursued, l.decisions ++ l'.decisions⟩

def opened (l : Ledger) : ℕ := l.brackets.countP Bracket.isOpening

def closed (l : Ledger) : ℕ := l.brackets.countP fun b => !b.isOpening

def AllConclude (l : Ledger) : Prop := ∀ d ∈ l.decisions, d.Concludes

def pursue (l : Ledger) (v : String × ℕ) : Ledger := { l with pursued := l.pursued ++ [v] }

def start (l : Ledger) (v : String × ℕ) : Ledger := { l with brackets := l.brackets ++ [.opens v] }

def close (l : Ledger) (goalId : String) : Ledger :=
  { l with brackets := l.brackets ++ [.closes goalId] }

def decide (l : Ledger) (d : Decision) : Ledger := { l with decisions := l.decisions ++ [d] }

/-- If all decisions so far conclude then every bracket is closed, and else some is missing its
end. -/
structure Settled (l : Ledger) : Prop where
  matching : l.AllConclude → l.brackets = matching l.pursued
  closed_le : l.closed ≤ l.opened
  closed_lt : ¬l.AllConclude → l.closed < l.opened

/-- The revision has been taken up, and it has been worked on for so many steps. -/
structure Begun (v : String × ℕ) (steps : ℕ) (l : Ledger) : Prop where
  matching : l.AllConclude → ∃ vs, l.pursued = vs ++ [v] ∧ l.brackets = Pan.matching vs
  closed_le : l.closed ≤ l.opened
  closed_lt : ¬l.AllConclude ∨ 0 < steps → l.closed < l.opened

/-- The bracket of the revision is open. -/
structure Open (v : String × ℕ) (steps : ℕ) (l : Ledger) : Prop where
  matching : l.AllConclude → ∃ vs, l.pursued = vs ++ [v] ∧
    l.brackets = Pan.matching vs ++ [.opens v]
  closed_lt : l.closed < l.opened
  closed_lt' : ¬l.AllConclude ∨ 0 < steps → l.closed + 1 < l.opened

/-- The bracket of the revision is open, and the last decision was `d`. -/
structure Decided (v : String × ℕ) (steps : ℕ) (d : Decision) (l : Ledger) : Prop where
  mem : d ∈ l.decisions
  matching : l.AllConclude → ∃ vs, l.pursued = vs ++ [v] ∧
    l.brackets = Pan.matching vs ++ [.opens v]
  closed_lt : l.closed < l.opened
  closed_lt' : ¬l.AllConclude ∧ d.Concludes ∨ 0 < steps → l.closed + 1 < l.opened

theorem opened_start (l : Ledger) (v : String × ℕ) : (l.start v).opened = l.opened + 1 := by
  simp [opened, start, Bracket.isOpening]

theorem closed_start (l : Ledger) (v : String × ℕ) : (l.start v).closed = l.closed := by
  simp [closed, start, Bracket.isOpening]

theorem opened_close (l : Ledger) (goalId : String) : (l.close goalId).opened = l.opened := by
  simp [opened, close, Bracket.isOpening]

theorem closed_close (l : Ledger) (goalId : String) : (l.close goalId).closed = l.closed + 1 := by
  simp [closed, close, Bracket.isOpening]

variable {l : Ledger} {v : String × ℕ} {steps : ℕ} {d : Decision}

theorem opened_eq_closed (h : l.brackets = matching l.pursued) : l.opened = l.closed := by
  unfold opened closed
  rw [h]
  generalize l.pursued = vs
  induction vs using List.reverseRecOn with
  | nil => rfl
  | append_singleton vs v ih =>
    rw [matching_concat, List.countP_append, List.countP_append, ih]
    rfl

theorem Settled.pursue (hl : l.Settled) (v : String × ℕ) : (l.pursue v).Begun v 0 where
  matching hall := ⟨l.pursued, rfl, hl.matching hall⟩
  closed_le := hl.closed_le
  closed_lt h := hl.closed_lt (h.resolve_right (lt_irrefl 0))

theorem Begun.start (hl : l.Begun v steps) : (l.start v).Open v steps := by
  have hle := hl.closed_le
  refine ⟨fun hall => ?_, ?_, fun h => ?_⟩
  · obtain ⟨vs, hpursued, hbrackets⟩ := hl.matching hall
    exact ⟨vs, hpursued, by rw [Ledger.start, hbrackets]⟩
  · rw [opened_start, closed_start]
    omega
  · have hlt := hl.closed_lt h
    rw [opened_start, closed_start]
    omega

theorem Open.close (hl : l.Open v steps) : (l.close v.1).Settled := by
  have hlt := hl.closed_lt
  refine ⟨fun hall => ?_, ?_, fun h => ?_⟩
  · obtain ⟨vs, hpursued, hbrackets⟩ := hl.matching hall
    change l.brackets ++ [.closes v.1] = Pan.matching l.pursued
    rw [hpursued, hbrackets, matching_concat, List.append_assoc]
    rfl
  · rw [opened_close, closed_close]
    omega
  · have hlt' := hl.closed_lt' (.inl h)
    rw [opened_close, closed_close]
    omega

theorem allConclude_decide : (l.decide d).AllConclude ↔ l.AllConclude ∧ d.Concludes := by
  simp [AllConclude, Ledger.decide, or_imp, forall_and]

theorem Open.decide (hl : l.Open v steps) (d : Decision) : (l.decide d).Decided v steps d where
  mem := by simp [Ledger.decide]
  matching hall := hl.matching (allConclude_decide.mp hall).1
  closed_lt := hl.closed_lt
  closed_lt' := by
    rintro (⟨hnot, hd⟩ | hsteps)
    · exact hl.closed_lt' (.inl fun hall => hnot (allConclude_decide.mpr ⟨hall, hd⟩))
    · exact hl.closed_lt' (.inr hsteps)

/-- A decision that concludes, or that was one too many, closes the bracket. -/
theorem Decided.close (hl : l.Decided v steps d) (h : d.Concludes ∨ 0 < steps) :
    (l.close v.1).Settled := by
  have hopen : l.Open v steps := by
    refine ⟨hl.matching, hl.closed_lt, fun h' => hl.closed_lt' ?_⟩
    rcases h' with hnot | hsteps
    · exact h.imp_left fun hd => ⟨hnot, hd⟩
    · exact .inr hsteps
  exact hopen.close

/-- A decision that does not conclude leaves the bracket open. -/
theorem Decided.again (hl : l.Decided v steps d) (hd : ¬d.Concludes) :
    l.Begun v (steps + 1) where
  matching hall := absurd (hall d hl.mem) hd
  closed_le := hl.closed_lt.le
  closed_lt _ := hl.closed_lt

theorem Decided.advance (hl : l.Decided v steps d) (hd : ¬d.Concludes) : l.Settled where
  matching hall := absurd (hall d hl.mem) hd
  closed_le := hl.closed_lt.le
  closed_lt _ := hl.closed_lt

/-- Once the brackets are settled they match exactly if all decisions concluded. -/
theorem Settled.matching_iff (hl : l.Settled) :
    l.brackets = Pan.matching l.pursued ↔ l.AllConclude := by
  refine ⟨fun h => ?_, hl.matching⟩
  by_contra hnot
  have hlt := hl.closed_lt hnot
  rw [opened_eq_closed h] at hlt
  exact lt_irrefl _ hlt

end Ledger

/-! ## The ledger of a history -/

namespace Action

def bracket : Action → Option Bracket
  | .event (.runStarted goalId revision) => some (.opens (goalId, revision))
  | .event (.abandoned goalId _) => some (.closes goalId)
  | .event (.runConcluded goalId _) => some (.closes goalId)
  | _ => none

def pursued : Action → Option (String × ℕ)
  | .observed goal => some goal.version
  | _ => none

def decision : Action → Option Decision
  | .decided _ d => some d
  | _ => none

def apart (a : Action) : Bool := a.bracket.isNone && a.pursued.isNone && a.decision.isNone

theorem apart_of_ofPipeline {a : Action} (ha : a.ofPipeline = true) : a.apart = true := by
  cases a with
  | event kind => cases kind <;> first | rfl | cases ha
  | _ => first | rfl | cases ha

end Action

def ledger (h : List Action) : Ledger :=
  ⟨h.filterMap Action.bracket, h.filterMap Action.pursued, h.filterMap Action.decision⟩

theorem ledger_append (h t : List Action) : ledger (h ++ t) = (ledger h).append (ledger t) := by
  simp [ledger, Ledger.append]

theorem ledger_append_apart {h t : List Action} (ht : ∀ a ∈ t, a.apart = true) :
    ledger (h ++ t) = ledger h := by
  have hnone : ∀ a ∈ t, a.bracket = none ∧ a.pursued = none ∧ a.decision = none := by
    intro a ha
    simpa [Action.apart, and_assoc] using ht a ha
  have hledger : ledger t = ⟨[], [], []⟩ := by
    unfold ledger
    rw [List.filterMap_eq_nil_iff.mpr fun a ha => (hnone a ha).1,
      List.filterMap_eq_nil_iff.mpr fun a ha => (hnone a ha).2.1,
      List.filterMap_eq_nil_iff.mpr fun a ha => (hnone a ha).2.2]
  rw [ledger_append, hledger]
  simp [Ledger.append]

theorem ledger_append_observed (h : List Action) (goal : Goal) :
    ledger (h ++ [.observed goal]) = (ledger h).pursue goal.version := by
  simp [ledger, Ledger.pursue, Action.bracket, Action.pursued, Action.decision]

theorem ledger_append_start (h : List Action) (goal : Goal) (ctx : Context) :
    ledger (h ++ [.event (.runStarted goal.id goal.revision), .decide goal ctx]) =
      (ledger h).start goal.version := by
  simp [ledger, Ledger.start, Action.bracket, Action.pursued, Action.decision, Goal.version]

theorem ledger_append_close {kind : EventKind} {goalId : String}
    (hkind : Action.bracket (.event kind) = some (.closes goalId)) (h : List Action) :
    ledger (h ++ [.event kind]) = (ledger h).close goalId := by
  simp [ledger, Ledger.close, hkind, Action.pursued, Action.decision]

theorem ledger_append_dropped {a : Action} {kind : EventKind} {goalId : String}
    (ha : a.apart = true) (hkind : Action.bracket (.event kind) = some (.closes goalId))
    (h : List Action) : ledger (h ++ [a, .event kind]) = (ledger h).close goalId := by
  rw [← List.singleton_append, ← List.append_assoc, ledger_append_close hkind,
    ledger_append_apart (by simpa using ha)]

theorem ledger_append_decided (h : List Action) (goal : Goal) (d : Decision) (provider : String)
    (intents : ℕ) :
    ledger (h ++ [.decided goal d, .event (.decided provider intents)]) = (ledger h).decide d := by
  simp [ledger, Ledger.decide, Action.bracket, Action.pursued, Action.decision]

namespace Loop

variable {W O : Type} {L : Loop W} {obs : Observations W O} {ctx : Context} {o₀ : O}

def BracketsAt : Point → Ledger → Prop
  | .seeking _ _, l => l.Settled
  | .ready _ _ _, l => l.Settled
  | .compacting s, l => l.Begun s.current.version s.toolSteps
  | .top s, l => l.Begun s.current.version s.toolSteps
  | .deciding s, l => l.Open s.current.version s.toolSteps
  | .enacting s d todo e, l => l.Decided s.current.version s.toolSteps d ∧
      (d.Concludes ↔ e.outcome.isSome ∨ ∃ outcome, .conclude outcome ∈ todo)
  | .enacted s d e, l => l.Decided s.current.version s.toolSteps d ∧
      (d.Concludes ↔ e.outcome.isSome)
  | .hung, _ => True
  | .ended _, l => l.Settled

theorem Moves.bracketsAt {p p' : Point} {o o' : O} {h t : List Action}
    (hm : L.Moves obs ctx p o t p' o') (hh : BracketsAt p (ledger h)) :
    BracketsAt p' (ledger (h ++ t)) := by
  -- what the span does while it enacts
  have happart : ∀ {t}, (∀ a ∈ t, a.apart = true) → BracketsAt p' (ledger h) →
      BracketsAt p' (ledger (h ++ t)) := by
    intro t ht hp
    rwa [ledger_append_apart ht]
  cases hm with
  | next => rwa [List.append_nil]
  | exhausted => rwa [List.append_nil]
  | observe =>
    rw [ledger_append_observed]
    exact hh.pursue _
  | compact => rwa [List.append_nil]
  | decide =>
    rw [ledger_append_start]
    exact hh.start
  | pending => rwa [List.append_nil]
  | supersede | veto =>
    rw [ledger_append_dropped rfl rfl]
    exact hh.close
  | decided =>
    rw [ledger_append_decided]
    exact ⟨hh.decide _, by simp [Decision.Concludes]⟩
  | effect hd =>
    obtain ⟨hdecided, hconcludes⟩ := hh
    refine happart (forall_mem_dispatchInvoke_append Action.apart_of_ofPipeline (by simp
      [Action.apart, Action.bracket, Action.pursued, Action.decision])) ⟨hdecided, ?_⟩
    simpa [Enacting.effected, feedStall_outcome] using hconcludes
  | fail hd =>
    obtain ⟨hdecided, hconcludes⟩ := hh
    refine happart (forall_mem_dispatchInvoke_append Action.apart_of_ofPipeline (by simp
      [Action.apart, Action.bracket, Action.pursued, Action.decision])) ⟨hdecided, ?_⟩
    simpa [Enacting.failed, feedStall_outcome] using hconcludes
  | hang => trivial
  | express =>
    obtain ⟨hdecided, hconcludes⟩ := hh
    refine happart ?_ ⟨hdecided, by simpa [Enacting.expressed] using hconcludes⟩
    split <;> simp [Action.apart, Action.bracket, Action.pursued, Action.decision]
  | conclude =>
    rw [List.append_nil]
    exact ⟨hh.1, by simp [hh.2]⟩
  | enacted =>
    refine happart (by simp [Action.apart, Action.bracket, Action.pursued, Action.decision])
      ⟨hh.1, by simpa using hh.2⟩
  | finish houtcome =>
    rw [ledger_append_close rfl]
    exact hh.1.close (.inl (hh.2.mpr (by simp [houtcome])))
  | stepLimit _ _ hlimit =>
    rw [ledger_append_close rfl]
    exact hh.1.close (.inr (by simp [maxToolSteps] at hlimit; omega))
  | feedBack houtcome =>
    rw [List.append_nil]
    exact hh.1.again (by simp [hh.2, houtcome])
  | advance houtcome =>
    rw [List.append_nil]
    exact hh.1.advance (by simp [hh.2, houtcome])

theorem Reaches.bracketsAt {p : Point} {o : O} {h : List Action}
    (hr : L.Reaches obs ctx o₀ p o h) : BracketsAt p (ledger h) := by
  have hstart : (ledger []).Settled :=
    ⟨fun _ => rfl, le_rfl, fun hnot => absurd (fun _ hd => nomatch hd) hnot⟩
  apply hr.invariant (I := fun p _ h => BracketsAt p (ledger h)) hstart
  intro p o h t p' o' hh hm
  exact hm.bracketsAt hh

end Loop

/-! ## Whole spans -/

theorem allConclude_ledger {h : List Action} :
    (ledger h).AllConclude ↔ ∀ goal d, .decided goal d ∈ h → d.Concludes := by
  constructor
  · intro hall goal d hd
    exact hall d (List.mem_filterMap.mpr ⟨.decided goal d, hd, rfl⟩)
  · intro hall d hd
    obtain ⟨a, ha, had⟩ := List.mem_filterMap.mp hd
    cases a with
    | decided goal d' =>
      cases had
      exact hall goal d ha
    | _ => cases had

/-- Each revision that the history pursues has one bracket of its own, which is closed before the
next is opened. -/
def Bracketed (h : List Action) : Prop :=
  (ledger h).brackets = matching (ledger h).pursued ∧ (ledger h).pursued.Nodup

/-- The brackets of a span that has ended are as they should be exactly if every decision
concluded and no revision was taken up twice. -/
theorem bracketed_iff {W O : Type} (L : Loop W) (obs : Observations W O) (ctx : Context)
    (fuel : ℕ) (w w' : W × O) (report : RunReport)
    (h : (L.runSpan obs ctx fuel w).2 = some (report, w')) :
    Bracketed (L.runSpan obs ctx fuel w).1 ↔
      (∀ goal d, .decided goal d ∈ (L.runSpan obs ctx fuel w).1 → d.Concludes) ∧
        ((L.runSpan obs ctx fuel w).1.filterMap Action.pursued).Nodup := by
  have hsettled : (ledger (L.runSpan obs ctx fuel w).1).Settled :=
    (Loop.reaches_ended h).bracketsAt
  have hdecisions : (ledger (L.runSpan obs ctx fuel w).1).AllConclude ↔
      ∀ goal d, .decided goal d ∈ (L.runSpan obs ctx fuel w).1 → d.Concludes :=
    allConclude_ledger
  unfold Bracketed
  rw [hsettled.matching_iff, hdecisions]
  rfl

/-- Each of eight tool steps opens the bracket of the only revision, and it is closed once. -/
theorem restless_not_bracketed :
    ¬Bracketed (restlessLoop.runSpan (Once Unit) ⟨[]⟩ 9 ((), some (tickGoal "g" 0))).1 := by
  rintro ⟨hmatching, -⟩
  have hopened : (ledger (restlessLoop.runSpan (Once Unit) ⟨[]⟩ 9
    ((), some (tickGoal "g" 0))).1).opened = 8 := by decide +kernel
  have hclosed : (ledger (restlessLoop.runSpan (Once Unit) ⟨[]⟩ 9
    ((), some (tickGoal "g" 0))).1).closed = 1 := by decide +kernel
  have heq := Ledger.opened_eq_closed hmatching
  rw [hopened, hclosed] at heq
  cases heq

theorem bracketed_iff_echo :
    Bracketed (echoLoop.runSpan (Once Unit) ⟨[]⟩ 1 ((), some (tickGoal "g" 0))).1 ↔
      (∀ goal d, .decided goal d ∈ (echoLoop.runSpan (Once Unit) ⟨[]⟩ 1
        ((), some (tickGoal "g" 0))).1 → d.Concludes) ∧
        ((echoLoop.runSpan (Once Unit) ⟨[]⟩ 1
          ((), some (tickGoal "g" 0))).1.filterMap Action.pursued).Nodup :=
  bracketed_iff echoLoop (Once Unit) ⟨[]⟩ 1 ((), some (tickGoal "g" 0)) ((), none) _ rfl

end Pan
