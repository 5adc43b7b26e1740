import Pan.Library.Simulation
import Pan.Steps
import Pan.Plugins

namespace Pan

open Eff History

namespace Decision

/-- The decision concludes with `Continue` or not at all. -/
def ContinueOnly (d : Decision) : Prop :=
  ∀ outcome, .conclude outcome ∈ d.intents → outcome = .continue

/-- The same decision without any `Conclude`. -/
def withoutConclude (d : Decision) : Decision :=
  ⟨d.intents.filter fun intent => intent.concludes.isNone⟩

/-- The decision itself or, if it only concludes with `Continue`, the one without. -/
def ReplacedBy (d d' : Decision) : Prop := d' = d ∨ (d.ContinueOnly ∧ d' = d.withoutConclude)

end Decision

/-- A provider that is polled the same way, with some decisions replaced. -/
def Provider.ReplacedBy {W : Type} (P P' : Provider W) : Prop :=
  P'.id = P.id ∧ ∀ goal ctx caps n w,
    Option.Rel Decision.ReplacedBy (P.decide goal ctx caps n w).1 (P'.decide goal ctx caps n w).1 ∧
      (P.decide goal ctx caps n w).2 = (P'.decide goal ctx caps n w).2

/-- What can be seen of a run, but for the decisions themselves: which goals are pursued, what
each `decide` is given, each effect with its stages, and what is expressed. -/
def Action.visible : Action → Option Action
  | .event (.decided _ _) => none
  | .decided _ _ => none
  | .enacted _ _ => none
  | a => some a

/-- Two runs look the same and have the same report. -/
def SameRun {W : Type} (r r' : List Action × Option (RunReport × W)) : Prop :=
  r.1.filterMap Action.visible = r'.1.filterMap Action.visible ∧ r.2 = r'.2

/-- An enacted decision does not have the outcome `Continue`. -/
def Action.Unaffected (a : Action) : Prop :=
  ∀ goal d, a = .enacted goal d → d.outcome ≠ some .continue

/-! ## Enacting with and without `Continue` -/

/-- The same intents but for some `Conclude` with `Continue`. -/
inductive Stripped : List ActionIntent → List ActionIntent → Prop
  | nil : Stripped [] []
  | keep {intent intents intents'} : Stripped intents intents' →
      Stripped (intent :: intents) (intent :: intents')
  | drop {intents intents'} : Stripped intents intents' →
      Stripped (.conclude .continue :: intents) intents'

theorem Stripped.refl (intents : List ActionIntent) : Stripped intents intents := by
  induction intents with
  | nil => exact .nil
  | cons intent intents ih => exact .keep ih

theorem Decision.ReplacedBy.stripped {d d' : Decision} (h : d.ReplacedBy d') :
    Stripped d.intents d'.intents := by
  rcases h with rfl | ⟨hc, rfl⟩
  · exact .refl _
  · obtain ⟨intents⟩ := d
    show Stripped intents (intents.filter _)
    have hc' : ∀ outcome, .conclude outcome ∈ intents → outcome = .continue := hc
    clear hc
    induction intents with
    | nil => exact .nil
    | cons intent intents ih =>
      have htail := ih fun outcome h => hc' outcome (List.mem_cons_of_mem _ h)
      cases intent with
      | conclude outcome =>
        rw [hc' outcome List.mem_cons_self]
        exact .drop htail
      | _ => exact .keep htail

/-- The same but for the outcome, where the first has `Continue`. -/
def Enacting.Agrees (e e' : Enacting) : Prop :=
  ∃ outcome, e' = { e with outcome } ∧ (outcome = e.outcome ∨ e.outcome = some .continue)

theorem Enacting.Agrees.refl (e : Enacting) : e.Agrees e := ⟨e.outcome, rfl, Or.inl rfl⟩

namespace Loop

variable {W O : Type} {L : Loop W}

theorem feedStall_with_outcome (e : Enacting) (outcome : Option Outcome) (capability : String)
    (args : Value) : L.feedStall { e with outcome } capability args =
      { L.feedStall e capability args with outcome } ∧
      (L.feedStall e capability args).outcome = e.outcome := by
  obtain ⟨o, toolResults, report, stallDetector⟩ := e
  cases stallDetector with
  | none => exact ⟨rfl, rfl⟩
  | some d => exact ⟨rfl, rfl⟩

theorem enactIntent_simulates (intent : ActionIntent) {e e' : Enacting} (h : e.Agrees e') :
    Simulates Action.Unaffected Action.visible Enacting.Agrees (L.enactIntent e intent)
      (L.enactIntent e' intent) := by
  obtain ⟨outcome, rfl, ho⟩ := h
  cases intent with
  | invoke capability args correlation =>
    obtain ⟨hfeed, hout⟩ := feedStall_with_outcome (L := L) e outcome capability args
    rw [← hout] at ho
    simp only [enactIntent, enactInvoke, hfeed]
    refine Simulates.bind (Simulates.refl (R := Eq) (fun _ => rfl) _) fun r r' hr => ?_
    subst hr
    cases r with
    | ok eff =>
      refine Simulates.bind (Simulates.emit rfl) fun _ _ _ => ?_
      exact Simulates.pure ⟨outcome, rfl, ho⟩
    | error err =>
      refine Simulates.bind (Simulates.emit rfl) fun _ _ _ => ?_
      refine Simulates.bind (Simulates.emit rfl) fun _ _ _ => ?_
      exact Simulates.pure ⟨outcome, rfl, ho⟩
  | express body =>
    simp only [enactIntent, enactExpress]
    refine Simulates.bind (Simulates.emit rfl) fun _ _ _ => ?_
    have hpure := Simulates.pure (Λ := Action) (W := W) (G := Action.Unaffected)
      (V := Action.visible) (R := Enacting.Agrees) (a := e.expressed body)
      (b := { e with outcome }.expressed body) ⟨outcome, rfl, ho⟩
    split
    · exact Simulates.bind (Simulates.emit rfl) fun _ _ _ => hpure
    · exact hpure
  | conclude o => exact Simulates.pure ⟨some o, rfl, Or.inl rfl⟩

theorem enact_conclude (e : Enacting) (o : Outcome) (intents : List ActionIntent) :
    L.enact e (.conclude o :: intents) = L.enact { e with outcome := some o } intents := rfl

/-- Leaving out a `Conclude` with `Continue` changes the outcome at most. -/
theorem enact_simulates {intents intents' : List ActionIntent} (h : Stripped intents intents')
    {e e' : Enacting} (he : e.Agrees e') :
    Simulates Action.Unaffected Action.visible Enacting.Agrees (L.enact e intents)
      (L.enact e' intents') := by
  induction h generalizing e e' with
  | nil => exact Simulates.pure he
  | keep _ ih =>
    unfold enact
    exact Simulates.bind (enactIntent_simulates _ he) fun _ _ he' => ih he'
  | drop _ ih =>
    -- the `Conclude` that is left out does nothing but set the outcome
    obtain ⟨outcome, rfl, -⟩ := he
    rw [enact_conclude]
    exact ih ⟨outcome, rfl, Or.inr rfl⟩

theorem feedStall_outcome (e : Enacting) (capability : String) (args : Value) :
    (L.feedStall e capability args).outcome = e.outcome :=
  (feedStall_with_outcome e e.outcome capability args).2

theorem enactIntent_outcome (e : Enacting) (intent : ActionIntent) :
    Triple (fun _ _ => True) (L.enactIntent e intent)
      (fun e' _ _ => e'.outcome = intent.concludes.or e.outcome) fun _ => True := by
  cases intent with
  | invoke capability args correlation =>
    have hout := feedStall_outcome (L := L) e capability args
    unfold enactIntent enactInvoke
    refine Triple.bind (Triple.unknown _) fun r => ?_
    cases r with
    | ok eff =>
      refine Triple.bind (Triple.unknown _) fun _ => ?_
      exact Triple.pure fun _ _ _ => hout
    | error err =>
      refine Triple.bind (Triple.unknown _) fun _ => ?_
      refine Triple.bind (Triple.unknown _) fun _ => ?_
      exact Triple.pure fun _ _ _ => hout
  | express body =>
    unfold enactIntent enactExpress
    refine Triple.bind (Triple.unknown _) fun _ => ?_
    dsimp only
    split
    · refine Triple.bind (Triple.unknown _) fun _ => ?_
      exact Triple.pure fun _ _ _ => rfl
    · exact Triple.pure fun _ _ _ => rfl
  | conclude o => exact Triple.pure fun _ _ _ => rfl

theorem findSome_reverse_cons (intent : ActionIntent) (todo : List ActionIntent)
    (o : Option Outcome) :
    ((intent :: todo).reverse.findSome? ActionIntent.concludes).or o =
      (todo.reverse.findSome? ActionIntent.concludes).or (intent.concludes.or o) := by
  rw [List.reverse_cons, List.findSome?_append, Option.or_assoc]
  simp

/-- The outcome of the last `Conclude`, or else the one before. -/
theorem enact_outcome (e : Enacting) (intents : List ActionIntent) :
    Triple (fun _ _ => True) (L.enact e intents) (fun e' _ _ => e'.outcome =
      (intents.reverse.findSome? ActionIntent.concludes).or e.outcome) fun _ => True := by
  induction intents generalizing e with
  | nil => exact Triple.pure fun _ _ _ => rfl
  | cons intent intents ih =>
    unfold enact
    refine Triple.bind (m := fun e' _ _ => e'.outcome = intent.concludes.or e.outcome)
      (enactIntent_outcome e intent) fun e' => ?_
    intro h w he'
    have htail : Triple (fun _ _ => True) (L.enact e' intents) (fun e'' _ _ => e''.outcome =
        ((intent :: intents).reverse.findSome? ActionIntent.concludes).or e.outcome)
        fun _ => True := by
      refine (ih e').weaken (fun _ _ h => h) (fun e'' _ _ he'' => ?_) fun _ h => h
      rw [he'', he', findSome_reverse_cons]
    exact htail h w trivial

/-! ## The span with another provider -/

/-- The same loop around another provider. -/
def withProvider (L : Loop W) (P : Provider W) : Loop W := { L with provider := P }

variable {P : Provider W} {obs : Observations W O} {ctx : Context}

theorem enact_withProvider (e : Enacting) (intents : List ActionIntent) :
    (L.withProvider P).enact e intents = L.enact e intents := by
  induction intents generalizing e with
  | nil => rfl
  | cons intent intents ih =>
    unfold enact
    have hintent : (L.withProvider P).enactIntent e intent = L.enactIntent e intent := by
      cases intent <;> rfl
    rw [hintent]
    apply congrArg
    funext e'
    exact ih e'

/-- Two ends of the race, with decisions that replace each other. -/
inductive Selected.ReplacedBy : Selected → Selected → Prop
  | superseded (newer : Goal) : ReplacedBy (.superseded newer) (.superseded newer)
  | vetoed (reason : Option String) : ReplacedBy (.vetoed reason) (.vetoed reason)
  | decided {d d' : Decision} : d.ReplacedBy d' → ReplacedBy (.decided d) (.decided d')

theorem select_simulates (hP : L.provider.ReplacedBy P) (goal : Goal) (c : Context)
    (caps : List Capability) (rounds n : ℕ) :
    Simulates Action.Unaffected Action.visible Selected.ReplacedBy
      (L.select obs goal c caps rounds n) ((L.withProvider P).select obs goal c caps rounds n) := by
  induction rounds generalizing n with
  | zero => exact Simulates.never
  | succ rounds ih =>
    unfold select
    refine Simulates.bind (Simulates.refl (R := Eq) (fun _ => rfl) _) fun r _ hr => ?_
    subst hr
    cases r with
    | some newer => exact Simulates.pure (.superseded newer)
    | none =>
      refine Simulates.bind (Simulates.refl (R := Eq) (fun _ => rfl) _) fun r _ hr => ?_
      subst hr
      cases r with
      | some reason => exact Simulates.pure (.vetoed reason)
      | none =>
        have hask : Simulates Action.Unaffected Action.visible (Option.Rel Decision.ReplacedBy)
            (ask (L.provider.decide goal c caps n)) (ask (P.decide goal c caps n)) :=
          Simulates.ask (hP.2 goal c caps n)
        refine Simulates.bind hask.onFst fun r r' hr => ?_
        cases hr with
        | none => exact ih (n + 1)
        | some hd => exact Simulates.pure (.decided hd)

theorem afterDecide_simulates (s : State) {d d' : Decision} (hd : d.ReplacedBy d') :
    Simulates Action.Unaffected Action.visible Eq (L.afterDecide obs ctx s d)
      ((L.withProvider P).afterDecide obs ctx s d') := by
  unfold afterDecide
  refine Simulates.bind (Simulates.emit rfl) fun _ _ _ => ?_
  refine Simulates.bind (Simulates.emit rfl) fun _ _ _ => ?_
  rw [enact_withProvider]
  have henact := (enact_simulates (L := L) hd.stripped
    (Enacting.Agrees.refl ⟨none, [], s.report, s.stallDetector⟩)).and_triple (enact_outcome _ _)
  refine Simulates.bind henact.onFst fun e e' he => ?_
  refine Simulates.bind (Simulates.emit rfl) fun _ _ hgood => ?_
  -- the decision that was enacted does not end in `Continue`, so nothing has changed
  obtain ⟨⟨outcome, rfl, ho⟩, hout⟩ := he
  rw [Option.or_none] at hout
  have hne : e.outcome ≠ some .continue := by
    rw [hout]
    exact hgood s.current d rfl
  have houtcome : outcome = e.outcome := ho.resolve_right hne
  subst houtcome
  exact Simulates.refl (fun _ => rfl) _

theorem iteration_simulates (hP : L.provider.ReplacedBy P) (rounds : ℕ) (s : State) :
    Simulates Action.Unaffected Action.visible Eq (L.iteration obs ctx rounds s)
      ((L.withProvider P).iteration obs ctx rounds s) := by
  unfold iteration
  refine Simulates.bind (Simulates.emit rfl) fun _ _ _ => ?_
  refine Simulates.bind (Simulates.emit rfl) fun _ _ _ => ?_
  refine Simulates.bind (select_simulates hP _ _ _ rounds 0) fun r r' hr => ?_
  cases hr with
  | superseded newer => exact Simulates.refl (fun _ => rfl) _
  | vetoed reason => exact Simulates.refl (fun _ => rfl) _
  | decided hd => exact afterDecide_simulates s hd

theorem iterate_simulates (hP : L.provider.ReplacedBy P) (rounds n : ℕ) (s : State) :
    Simulates Action.Unaffected Action.visible Eq (L.iterate obs ctx rounds n s)
      ((L.withProvider P).iterate obs ctx rounds n s) := by
  induction n generalizing s with
  | zero => exact Simulates.never
  | succ n ih =>
    unfold iterate
    refine Simulates.bind (iteration_simulates hP rounds s) fun r _ hr => ?_
    subst hr
    cases r with
    | inl s' => exact ih s'
    | inr report => exact Simulates.pure rfl

theorem runSpan_simulates (hP : L.provider.ReplacedBy P) (fuel : ℕ) :
    Simulates Action.Unaffected Action.visible Eq (L.runSpan obs ctx fuel)
      ((L.withProvider P).runSpan obs ctx fuel) := by
  unfold runSpan
  refine Simulates.bind (Simulates.refl (R := Eq) (fun _ => rfl) _) fun r _ hr => ?_
  subst hr
  cases r with
  | none => exact Simulates.pure rfl
  | some goal =>
    refine Simulates.bind (Simulates.refl (R := Eq) (fun _ => rfl) _) fun s _ hs => ?_
    subst hs
    exact iterate_simulates hP fuel fuel s

/-- As long as no decision that is enacted ends in `Continue`, the replacement goes unnoticed. -/
theorem runSpan_sameRun (hP : L.provider.ReplacedBy P) (fuel : ℕ) (w : W × O)
    (hgood : ∀ a ∈ (L.runSpan obs ctx fuel w).1, a.Unaffected) :
    SameRun (L.runSpan obs ctx fuel w) ((L.withProvider P).runSpan obs ctx fuel w) := by
  obtain ⟨ht, hr⟩ := runSpan_simulates hP fuel w hgood
  refine ⟨ht, ?_⟩
  generalize (L.runSpan obs ctx fuel w).2 = r at hr ⊢
  generalize ((L.withProvider P).runSpan obs ctx fuel w).2 = r' at hr ⊢
  cases hr with
  | none => rfl
  | some hr => exact congrArg some (Prod.ext hr.1 hr.2)

/-! ## What `Continue` does -/

/-- No decision with the outcome `Continue` has been enacted. -/
def NeverContinued (h : List Action) : Prop := ∀ a ∈ h, a.Unaffected

theorem NeverContinued.append {h t : List Action} (hh : NeverContinued h)
    (ht : NeverContinued t) : NeverContinued (h ++ t) :=
  List.forall_mem_append.mpr ⟨hh, ht⟩

theorem neverContinued_of_forall {t : List Action} (ht : ∀ a ∈ t, a.isEnacted = false) :
    NeverContinued t := by
  rintro a ha goal d rfl
  cases ht _ ha

/-- A span that has enacted `Continue` is about to end with it or has ended with it; until then
the outcome of the decision is the one that has been enacted or the last one still to do. -/
def ContinuesAt : Point → List Action → Prop
  | .enacting _ d todo e, h => NeverContinued h ∧
      (todo.reverse.findSome? ActionIntent.concludes).or e.outcome = d.outcome
  | .enacted _ _ e, h => NeverContinued h ↔ e.outcome ≠ some .continue
  | .ended report, h => NeverContinued h ↔ report.runEnd ≠ some (.concluded .continue)
  | _, h => NeverContinued h

theorem Moves.continues {p p' : Point} {o o' : O} {h t : List Action}
    (hm : L.Moves obs ctx p o t p' o') (hh : ContinuesAt p h) : ContinuesAt p' (h ++ t) := by
  -- most moves enact nothing, so the law stays as it was
  have hnone : ∀ {t : List Action}, (∀ a ∈ t, a.isEnacted = false) → NeverContinued h →
      NeverContinued (h ++ t) := fun ht hh => hh.append (neverContinued_of_forall ht)
  have hpipeline : ∀ {a : Action}, a.ofPipeline = true → a.isEnacted = false :=
    fun ha => Action.isEnacted_of_uncounted (Action.uncounted_of_ofPipeline ha)
  cases hm with
  | next => exact hnone (by simp) hh
  | exhausted => exact iff_of_true (hnone (by simp) hh) (by simp)
  | observe => exact hnone (by simp [Action.isEnacted]) hh
  | compact => exact hnone (by simp) hh
  | decide => exact hnone (by simp [Action.isEnacted]) hh
  | pending => exact hnone (by simp) hh
  | supersede => exact hnone (by simp [Action.isEnacted]) hh
  | veto => exact iff_of_true (hnone (by simp [Action.isEnacted]) hh) (by simp)
  | decided =>
    refine ⟨hnone (by simp [Action.isEnacted]) hh, ?_⟩
    rw [Option.or_none]
    rfl
  | @effect s d capability args _ todo e | @fail s d capability args _ todo e =>
    obtain ⟨hh, hout⟩ := hh
    rw [findSome_reverse_cons] at hout
    constructor
    · refine hnone ?_ hh
      exact forall_mem_dispatchInvoke_append hpipeline (by simp [Action.isEnacted])
    · rw [← hout, ← feedStall_outcome (L := L) e capability args]
      rfl
  | hang => exact hnone (fun a ha => hpipeline (ofPipeline_of_mem_dispatchInvoke a ha)) hh.1
  | express =>
    obtain ⟨hh, hout⟩ := hh
    rw [findSome_reverse_cons] at hout
    refine ⟨hnone ?_ hh, hout⟩
    split <;> simp [Action.isEnacted]
  | conclude =>
    obtain ⟨hh, hout⟩ := hh
    rw [findSome_reverse_cons] at hout
    exact ⟨hnone (by simp) hh, hout⟩
  | @enacted s d e =>
    obtain ⟨hh, hout⟩ := hh
    have hout' : e.outcome = d.outcome := hout
    constructor
    · intro hn
      rw [hout']
      exact hn _ (List.mem_append_right _ (List.mem_singleton_self _)) s.current d rfl
    · intro hne
      apply hh.append
      intro a ha goal d' he
      rw [List.mem_singleton.mp ha] at he
      cases he
      rwa [← hout']
  | @finish s d e _ outcome runEnd he hend =>
    have hiff : NeverContinued h ↔ e.outcome ≠ some .continue := hh
    -- the end of the span is read off the outcome that was enacted, whatever it is
    have hend' : some runEnd ≠ some (.concluded .continue) ↔ e.outcome ≠ some .continue := by
      rw [he]
      cases hend with
      | concluded => simp
      | unsatisfied reason ho => simp [ho]
    show NeverContinued _ ↔ some runEnd ≠ _
    rw [hend', ← hiff]
    exact ⟨fun hn => (List.forall_mem_append.mp hn).1, hnone (by simp [Action.isEnacted])⟩
  | stepLimit he =>
    have hn := hh.mpr (by simp [he])
    exact iff_of_true (hnone (by simp [Action.isEnacted]) hn) (by simp)
  | feedBack he => exact hnone (by simp) (hh.mpr (by simp [he]))
  | advance he => exact hnone (by simp) (hh.mpr (by simp [he]))

theorem Reaches.continues {o₀ o : O} {p : Point} {h : List Action}
    (hr : L.Reaches obs ctx o₀ p o h) : ContinuesAt p h := by
  apply hr.invariant (I := fun p _ h => ContinuesAt p h)
  · intro a ha
    cases ha
  · intro p o h t p' o' hh hm
    exact hm.continues hh

/-- A run that enacts `Continue` returns, and with `Continue` as its end. -/
theorem runSpan_of_continued {fuel : ℕ} {w : W × O} {goal : Goal} {d : Decision}
    (ha : .enacted goal d ∈ (L.runSpan obs ctx fuel w).1) (hd : d.outcome = some .continue) :
    ∃ report w', (L.runSpan obs ctx fuel w).2 = some (report, w') ∧
      report.runEnd = some (.concluded .continue) := by
  have hcontinued : ¬NeverContinued (L.runSpan obs ctx fuel w).1 :=
    fun hn => hn _ ha goal d rfl hd
  cases h : (L.runSpan obs ctx fuel w).2 with
  | some r =>
    have hc : NeverContinued _ ↔ r.1.runEnd ≠ _ := (reaches_ended h).continues
    exact ⟨r.1, r.2, rfl, not_not.mp fun hne => hcontinued (hc.mpr hne)⟩
  | none =>
    -- what waits for the evaluator has the outcome `Achieved`
    obtain ⟨p, o, hr, hp⟩ := isHistory_of_eq_none h
    have hc := hr.continues
    cases p with
    | enacted s d e =>
      have he : e.outcome = some .achieved := hp
      have hiff : NeverContinued _ ↔ e.outcome ≠ some .continue := hc
      exact absurd (hiff.mpr (by simp [he])) hcontinued
    | enacting s d todo e => exact absurd hc.1 hcontinued
    | ended report => exact absurd hp not_false
    | _ => exact absurd hc hcontinued

/-- The law of `Continue` holds of the runs that enact no decision with this outcome, and of no
others. -/
theorem continue_law_iff (L : Loop W) (obs : Observations W O) (ctx : Context) (w : W × O) :
    ((∀ P, L.provider.ReplacedBy P → ∀ fuel,
        SameRun (L.runSpan obs ctx fuel w) ((L.withProvider P).runSpan obs ctx fuel w)) ∧
      ∀ fuel report w', (L.runSpan obs ctx fuel w).2 = some (report, w') →
        report.runEnd ≠ some (.concluded .continue)) ↔
    ∀ fuel goal d, .enacted goal d ∈ (L.runSpan obs ctx fuel w).1 →
      d.outcome ≠ some .continue := by
  constructor
  · rintro ⟨-, hends⟩ fuel goal d ha hd
    obtain ⟨report, w', hr, hend⟩ := runSpan_of_continued ha hd
    exact hends fuel report w' hr hend
  · intro hd
    have hn : ∀ fuel, NeverContinued (L.runSpan obs ctx fuel w).1 := by
      rintro fuel a ha goal d rfl
      exact hd fuel goal d ha
    constructor
    · intro P hP fuel
      exact runSpan_sameRun hP fuel w (hn fuel)
    · intro fuel report w' hr
      have hc : NeverContinued _ ↔ report.runEnd ≠ _ := (reaches_ended hr).continues
      exact hc.mp (hn fuel)

/-- A single goal, a provider whose only intent is `Conclude` with `Continue`, and the same
provider without it: the span ends at once, where it should step on to the end of the stream. -/
theorem continue_ends_span :
    (ScriptedProvider Unit ⟨[.conclude .continue]⟩).ReplacedBy (ScriptedProvider Unit ⟨[]⟩) ∧
    (((scriptedLoop ⟨[.conclude .continue]⟩).runSpan (Once Unit) ⟨[]⟩ 1
      ((), some (tickGoal "g" 0))).2.map fun r => r.1.runEnd) =
        some (some (.concluded .continue)) ∧
    ((((scriptedLoop ⟨[.conclude .continue]⟩).withProvider (ScriptedProvider Unit ⟨[]⟩)).runSpan
      (Once Unit) ⟨[]⟩ 1 ((), some (tickGoal "g" 0))).2.map fun r => r.1.runEnd) =
        some (some .streamExhausted) ∧
    ¬SameRun
      ((scriptedLoop ⟨[.conclude .continue]⟩).runSpan (Once Unit) ⟨[]⟩ 1
        ((), some (tickGoal "g" 0)))
      (((scriptedLoop ⟨[.conclude .continue]⟩).withProvider (ScriptedProvider Unit ⟨[]⟩)).runSpan
        (Once Unit) ⟨[]⟩ 1 ((), some (tickGoal "g" 0))) := by
  refine ⟨⟨rfl, fun goal ctx caps n w => ⟨.some (Or.inr ⟨?_, rfl⟩), rfl⟩⟩, rfl, rfl, ?_⟩
  · intro outcome ho
    cases List.mem_singleton.mp ho
    rfl
  · intro h
    have hend := congrArg (Option.map fun r => r.1.runEnd) h.2
    exact absurd (Option.some.inj (Option.some.inj hend)) (by decide)

end Loop

end Pan
