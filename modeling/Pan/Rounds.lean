import Pan.Feedback

namespace Pan

open History

/-- An enacted `Invoke`, and whether the stall detector took it for a stall. -/
structure Round where
  stalled : Bool
  invocation : Invocation
  result : Except String Value

def Round.body (r : Round) : Value :=
  toolResultBody r.invocation.capability r.invocation.correlation r.invocation.args r.result

def Round.notice (r : Round) : Fragment := stallFragment r.invocation.capability

def Round.fragments (formats : Formats) (r : Round) : List Fragment :=
  (if r.stalled then [r.notice] else []) ++ [⟨toolResultChannel, formats.jsonText r.body⟩]

/-- The stall detector, and the rounds since a goal was last taken up. -/
structure Rounds where
  stallDetector : Option StallDetector
  rounds : List Round

namespace Rounds

variable (formats : Formats)

def invoked (s : Rounds) (i : Invocation) (result : Except String Value) : Rounds :=
  match s.stallDetector with
  | none => { s with rounds := s.rounds ++ [⟨false, i, result⟩] }
  | some d =>
    let (stalled, d') := d.feed formats i.capability i.args
    ⟨some d', s.rounds ++ [⟨stalled, i, result⟩]⟩

def next (s : Rounds) : Action → Rounds
  | .observed _ => { s with rounds := [] }
  | .invoked capability args correlation result =>
    s.invoked formats ⟨capability, args, correlation⟩ result
  | _ => s

theorem next_of_silent (s : Rounds) {a : Action} (ha : a.silent = true) :
    s.next formats a = s := by
  cases a <;> first | rfl | cases ha

theorem rounds_invoked (s : Rounds) (i : Invocation) (result : Except String Value) :
    ∃ stalled, (s.invoked formats i result).rounds = s.rounds ++ [⟨stalled, i, result⟩] := by
  unfold invoked
  cases s.stallDetector with
  | none => exact ⟨false, rfl⟩
  | some d => exact ⟨(d.feed formats i.capability i.args).1, rfl⟩

theorem invoked_of_eq_none {s : Rounds} (hs : s.stallDetector = none) (i : Invocation)
    (result : Except String Value) :
    s.invoked formats i result = ⟨none, s.rounds ++ [⟨false, i, result⟩]⟩ := by
  unfold invoked
  rw [hs]

theorem invoked_of_eq_some {s : Rounds} {d : StallDetector} (hs : s.stallDetector = some d)
    (i : Invocation) (result : Except String Value) :
    s.invoked formats i result = ⟨some (d.feed formats i.capability i.args).2,
      s.rounds ++ [⟨(d.feed formats i.capability i.args).1, i, result⟩]⟩ := by
  unfold invoked
  rw [hs]

end Rounds

/-- The `Invoke` that has been enacted, with its result. -/
def Action.exchange : Action → Option (Invocation × Except String Value)
  | .invoked capability args correlation result => some (⟨capability, args, correlation⟩, result)
  | _ => none

namespace Loop

variable {W O : Type} {L : Loop W} {obs : Observations W O} {ctx : Context} {o₀ o : O}

variable (L) in
def roundsOf (h : List Action) : Rounds :=
  h.foldl (Rounds.next L.formats) ⟨L.stallDetector, []⟩

theorem roundsOf_concat (h : List Action) (a : Action) :
    L.roundsOf (h ++ [a]) = (L.roundsOf h).next L.formats a :=
  List.foldl_concat _ _ _ _

theorem roundsOf_append_silent (h : List Action) {t : List Action}
    (ht : ∀ a ∈ t, a.silent = true) : L.roundsOf (h ++ t) = L.roundsOf h := by
  induction t using List.reverseRecOn with
  | nil => rw [List.append_nil]
  | append_singleton t a ih =>
    rw [← List.append_assoc, roundsOf_concat, ih fun b hb => ht b (by simp [hb]),
      Rounds.next_of_silent _ _ (ht a (by simp))]

/-- The rounds are those of the `Invoke`s enacted since a goal was last taken up. -/
theorem map_roundsOf (h : List Action) :
    (L.roundsOf h).rounds.map (fun r => (r.invocation, r.result)) =
      (since Action.isObserved h).filterMap Action.exchange := by
  induction h using List.reverseRecOn with
  | nil => rfl
  | append_singleton h a ih =>
    rw [roundsOf_concat, since_concat]
    cases a with
    | observed goal => rfl
    | invoked capability args correlation result =>
      obtain ⟨stalled, hrounds⟩ :=
        (L.roundsOf h).rounds_invoked L.formats ⟨capability, args, correlation⟩ result
      rw [Rounds.next, hrounds, List.map_append, ih, if_neg (by simp [Action.isObserved]),
        List.filterMap_append]
      rfl
    | _ =>
      rw [if_neg (by simp [Action.isObserved]), List.filterMap_append, ← ih]
      exact (List.append_nil _).symm

/-! ## What the provider sees -/

variable (L ctx) in
/-- The fragments are those of the base context and of the rounds, and the detector is theirs. -/
structure Feeds (fragments : List Fragment) (stallDetector : Option StallDetector)
    (h : List Action) : Prop where
  fragments : fragments =
    ctx.fragments ++ (L.roundsOf h).rounds.flatMap (Round.fragments L.formats)
  stallDetector : stallDetector = (L.roundsOf h).stallDetector

namespace Feeds

variable {fragments : List Fragment} {stallDetector : Option StallDetector} {h : List Action}

theorem append_silent (hf : L.Feeds ctx fragments stallDetector h) {t : List Action}
    (ht : ∀ a ∈ t, a.silent = true) : L.Feeds ctx fragments stallDetector (h ++ t) := by
  constructor
  · rw [roundsOf_append_silent h ht]
    exact hf.fragments
  · rw [roundsOf_append_silent h ht]
    exact hf.stallDetector

theorem dispatched (hf : L.Feeds ctx fragments stallDetector h) (capability : String)
    (args : Value) (correlation : Option String) (w : W) :
    L.Feeds ctx fragments stallDetector
      (h ++ (L.dispatchInvoke capability args correlation w).1) :=
  hf.append_silent fun a ha => Action.silent_of_ofPipeline (ofPipeline_of_mem_dispatchInvoke a ha)

theorem enacted (hf : L.Feeds ctx fragments stallDetector h) (goal : Goal) (d : Decision) :
    L.Feeds ctx fragments stallDetector (h ++ [.enacted goal d]) := by
  have hrounds : L.roundsOf (h ++ [.enacted goal d]) = L.roundsOf h := roundsOf_concat h _
  constructor
  · rw [hrounds]
    exact hf.fragments
  · rw [hrounds]
    exact hf.stallDetector

/-- An `Invoke` is enacted: what the detector makes of it comes first. -/
theorem invoked {s : State} {e : Enacting}
    (hf : L.Feeds ctx (s.workingCtx.fragments ++ e.toolResults) e.stallDetector h)
    (capability : String) (args : Value) (correlation : Option String)
    (result : Except String Value) :
    L.Feeds ctx (s.workingCtx.fragments ++ ((L.feedStall e capability args).toolResults ++
        [toolResultFragment L.formats capability correlation args result]))
      (L.feedStall e capability args).stallDetector
      (h ++ [.invoked capability args correlation result]) := by
  have hrounds : L.roundsOf (h ++ [.invoked capability args correlation result]) =
      (L.roundsOf h).invoked L.formats ⟨capability, args, correlation⟩ result :=
    roundsOf_concat h _
  cases hsd : e.stallDetector with
  | none =>
    have hnone : (L.roundsOf h).stallDetector = none := hf.stallDetector.symm.trans hsd
    rw [Rounds.invoked_of_eq_none _ hnone] at hrounds
    rw [feedStall_of_eq_none hsd, hsd]
    refine ⟨?_, by rw [hrounds]⟩
    rw [hrounds, List.flatMap_append, ← List.append_assoc, hf.fragments, List.append_assoc]
    rfl
  | some d =>
    have hsome : (L.roundsOf h).stallDetector = some d := hf.stallDetector.symm.trans hsd
    rw [Rounds.invoked_of_eq_some _ hsome] at hrounds
    unfold feedStall
    rw [hsd]
    refine ⟨?_, by rw [hrounds]⟩
    rw [hrounds, List.flatMap_append, ← List.append_assoc ctx.fragments, ← hf.fragments]
    cases hstalled : (d.feed L.formats capability args).1 <;>
      simp [hstalled, Round.fragments, Round.notice, Round.body, toolResultFragment]

end Feeds

variable (L ctx) in
/-- A `decide` is on the base context and the rounds. -/
def DecidesOnRounds (pre : List Action) (a : Action) : Prop :=
  ∀ goal c, a = .decide goal c →
    c.fragments = ctx.fragments ++ (L.roundsOf pre).rounds.flatMap (Round.fragments L.formats)

variable (L ctx) in
def FeedsAt : Point → List Action → Prop
  | .seeking _ sd, h => sd = (L.roundsOf h).stallDetector
  | .ready _ _ sd, h => sd = (L.roundsOf h).stallDetector
  | .compacting s, h => L.Feeds ctx s.workingCtx.fragments s.stallDetector h
  | .top s, h => L.Feeds ctx s.workingCtx.fragments s.stallDetector h
  | .deciding s, h => L.Feeds ctx s.workingCtx.fragments s.stallDetector h
  | .enacting s _ _ e, h =>
    L.Feeds ctx (s.workingCtx.fragments ++ e.toolResults) e.stallDetector h
  | .enacted s _ e, h => L.Feeds ctx (s.workingCtx.fragments ++ e.toolResults) e.stallDetector h
  | .hung, _ => True
  | .ended _, _ => True

theorem FeedsAt.append_silent {p : Point} {h t : List Action} (hh : L.FeedsAt ctx p h)
    (ht : ∀ a ∈ t, a.silent = true) : L.FeedsAt ctx p (h ++ t) := by
  cases p with
  | seeking report sd => exact hh.trans (by rw [roundsOf_append_silent h ht])
  | ready goal report sd => exact hh.trans (by rw [roundsOf_append_silent h ht])
  | hung => trivial
  | ended report => trivial
  | _ => exact Feeds.append_silent hh ht

theorem Moves.feeds (hc : L.compactor = none) {p p' : Point} {o o' : O} {h t : List Action}
    (hm : L.Moves obs ctx p o t p' o') (hh : L.FeedsAt ctx p h) : L.FeedsAt ctx p' (h ++ t) := by
  -- most moves show nothing that belongs to a round
  have hsilent : ∀ {t}, (∀ a ∈ t, a.silent = true) → (L.FeedsAt ctx p (h ++ t) →
      L.FeedsAt ctx p' (h ++ t)) → L.FeedsAt ctx p' (h ++ t) :=
    fun ht hp => hp (hh.append_silent ht)
  cases hm with
  | next => exact hsilent (by simp) id
  | observe =>
    rename_i goal report sd
    have hrounds : L.roundsOf (h ++ [.observed goal]) = { L.roundsOf h with rounds := [] } :=
      roundsOf_concat h (.observed goal)
    exact ⟨by rw [hrounds]; exact (List.append_nil _).symm, by rw [hrounds]; exact hh⟩
  | compact hcompact =>
    refine hsilent (by simp) fun hh => ?_
    rw [compacts_of_compactor_eq_none hc hcompact]
    exact hh
  | decide => exact hsilent (by simp [Action.silent]) id
  | pending => exact hsilent (by simp) id
  | supersede => exact hsilent (by simp [Action.silent]) fun hh => hh.stallDetector
  | decided =>
    refine hsilent (by simp [Action.silent]) fun hh => ?_
    exact ⟨(List.append_nil _).trans hh.fragments, hh.stallDetector⟩
  | effect hd =>
    rename_i s d capability args correlation todo e w eff w'
    have hfed := Feeds.dispatched hh capability args correlation w
    rw [← List.append_assoc, Enacting.effected, capability_of_dispatchInvoke hd]
    exact hfed.invoked capability args correlation (.ok eff.result)
  | fail hd =>
    rename_i s d capability args correlation todo e w err w'
    have hfed := Feeds.dispatched hh capability args correlation w
    have hinvoked := (hfed.invoked capability args correlation
      (.error (pipelineErrorMessage L.formats err))).append_silent
      (t := [.event (.pluginError capability (pipelineErrorMessage L.formats err))])
      (by simp [Action.silent])
    rw [List.append_assoc, List.append_assoc] at hinvoked
    exact hinvoked
  | express => exact hsilent (by split <;> simp [Action.silent]) id
  | conclude => exact hsilent (by simp) id
  | enacted => exact Feeds.enacted hh _ _
  | feedBack => exact hsilent (by simp) id
  | advance => exact hsilent (by simp) fun hh => hh.stallDetector
  | _ => trivial

theorem Moves.decidesOnRounds {p p' : Point} {o o' : O} {h t : List Action}
    (hm : L.Moves obs ctx p o t p' o') (hh : L.FeedsAt ctx p h)
    (hall : Always (L.DecidesOnRounds ctx) h) : Always (L.DecidesOnRounds ctx) (h ++ t) := by
  have hother : ∀ {t}, (∀ a ∈ t, ∀ goal c, a ≠ .decide goal c) →
      Always (L.DecidesOnRounds ctx) (h ++ t) :=
    fun ht => hall.append_of_forall fun a ha _ goal c hc => absurd hc (ht a ha goal c)
  cases hm with
  | decide =>
    refine always_append_pair.mpr ⟨always_concat.mp (hother (by simp)), ?_⟩
    intro goal c hc
    cases hc
    exact (hh.append_silent (by simp [Action.silent])).fragments
  | effect hd => exact hother (forall_mem_dispatchInvoke_append Action.ne_decide (by simp))
  | fail hd => exact hother (forall_mem_dispatchInvoke_append Action.ne_decide (by simp))
  | hang hd => exact hother fun a ha => Action.ne_decide (ofPipeline_of_mem_dispatchInvoke a ha)
  | express => exact hother (by split <;> simp)
  | _ => exact hother (by simp)

/-- Without a compactor, every `decide` is on the base context and the rounds. -/
theorem decides_on_rounds (L : Loop W) (hc : L.compactor = none) (obs : Observations W O)
    (ctx : Context) (fuel : ℕ) (w : W × O) :
    Always (L.DecidesOnRounds ctx) (L.runSpan obs ctx fuel w).1 := by
  obtain ⟨p, o, hr⟩ := exists_reaches L obs ctx fuel w
  have hinvariant := hr.invariant
    (I := fun p _ h => Always (L.DecidesOnRounds ctx) h ∧ L.FeedsAt ctx p h) ⟨always_nil _, rfl⟩
    fun _ _ _ _ _ _ hh hm => ⟨hm.decidesOnRounds hh.2 hh.1, hm.feeds hc hh.2⟩
  exact hinvariant.1

end Loop

end Pan
