import Pan.Steps
import Pan.Plugins
import Pan.Streaming

namespace Pan

/-! ## A span over a channel -/

/-- When the goals are sent, as the world has it: how many more of them by now and, once there are
no more, whether the senders are gone. -/
structure Senders (W : Type) where
  sends : W → ℕ × W
  closes : W → Bool × W

/-- The source with the goals that are still to be sent. -/
structure Feed where
  obs : StreamingObservations
  unsent : List Goal

namespace Feed

def arrive (feed : Feed) (n : ℕ) : Feed :=
  ⟨{ feed.obs with rx := feed.obs.rx ++ feed.unsent.take n }, feed.unsent.drop n⟩

/-- All goals that can still be handed out, in the order in which they are. -/
def held (feed : Feed) : List Goal := feed.obs.held ++ feed.unsent

end Feed

namespace Senders

variable {W : Type} (senders : Senders W)

/-- `next_goal`. With nothing to hand out it waits for a goal to be sent or the senders to go. -/
def nextGoal : Call (W × Feed) (Option Goal) := fun (w, feed) =>
  let (n, w) := senders.sends w
  let feed := feed.arrive (if feed.obs.held.isEmpty then max n 1 else n)
  match feed.obs.nextGoal with
  | (some goal, obs) => some (goal, (w, { feed with obs }))
  | (none, obs) =>
    match senders.closes w with
    | (true, w) => some (none, (w, { feed with obs := { obs with closed := true } }))
    | (false, _) => none

/-- A poll of `superseded`. -/
def superseded (current : Goal) : Poll (W × Feed) Goal := fun (w, feed) =>
  let (n, w) := senders.sends w
  let feed := feed.arrive n
  let (newer, obs) := feed.obs.superseded current
  (newer, (w, { feed with obs }))

def observations : Observations W Feed where
  nextGoal := senders.nextGoal
  superseded current _ := senders.superseded current

end Senders

/-! ## Revisions in order -/

def Goal.version (g : Goal) : String × ℕ := (g.id, g.revision)

/-- If the identity is the same, the revision is no older. -/
def InOrder (v v' : String × ℕ) : Prop := v.1 = v'.1 → v.2 ≤ v'.2

theorem InOrder.refl (v : String × ℕ) : InOrder v v := fun _ => Nat.le_refl _

/-- The version of the goal that an action takes up, starts, decides on or enacts. -/
def Action.version : Action → Option (String × ℕ)
  | .observed goal => some goal.version
  | .event (.runStarted goalId revision) => some (goalId, revision)
  | .decide goal _ => some goal.version
  | .decided goal _ => some goal.version
  | .enacted goal _ => some goal.version
  | _ => none

/-- No action is for an older revision than an action before it. -/
def NeverBackwards (h : List Action) : Prop := (h.filterMap Action.version).Pairwise InOrder

theorem Action.version_of_ofPipeline {a : Action} (ha : a.ofPipeline = true) :
    a.version = none := by
  cases a with
  | event kind => cases kind <;> first | rfl | cases ha
  | _ => first | rfl | cases ha

/-! ## What the source hands out -/

namespace StreamingObservations

theorem supersededPass_sublist (obs : StreamingObservations) (current : Goal) :
    ((obs.supersededPass current).1.toList ++ (obs.supersededPass current).2.held).Sublist
      obs.held := by
  obtain ⟨rx, closed, pending⟩ := obs
  cases rx with
  | nil => cases closed <;> exact List.Sublist.refl _
  | cons goal rx =>
    have htake : (goal :: rx).Sublist (pending.toList ++ goal :: rx) :=
      List.sublist_append_right _ _
    unfold supersededPass
    dsimp only [recv]
    split <;> exact htake

theorem supersededPasses_sublist (current : Goal) (n : ℕ) (obs : StreamingObservations) :
    ((supersededPasses current n obs).1.toList ++
      (supersededPasses current n obs).2.held).Sublist obs.held := by
  induction n generalizing obs with
  | zero => exact List.Sublist.refl _
  | succ n ih =>
    have hpass := obs.supersededPass_sublist current
    unfold supersededPasses
    generalize obs.supersededPass current = r at hpass ⊢
    obtain ⟨_ | newer, obs'⟩ := r
    · exact (ih obs').trans hpass
    · exact hpass

end StreamingObservations

namespace Feed

theorem held_arrive (feed : Feed) (n : ℕ) : (feed.arrive n).held = feed.held := by
  unfold held arrive StreamingObservations.held
  rw [List.append_assoc, List.append_assoc, List.take_append_drop, List.append_assoc]

end Feed

namespace Senders

variable {W : Type} {senders : Senders W}

theorem nextGoal_sublist {w w' : W} {feed feed' : Feed} {goal : Option Goal}
    (h : senders.nextGoal (w, feed) = some (goal, (w', feed'))) :
    (goal.toList ++ feed'.held).Sublist feed.held := by
  unfold nextGoal at h
  dsimp only at h
  generalize (if feed.obs.held.isEmpty then max (senders.sends w).1 1
    else (senders.sends w).1) = n at h
  have hheld := (feed.arrive n).obs.nextGoal_held
  rw [← feed.held_arrive n]
  unfold Feed.held
  rw [← hheld]
  generalize (feed.arrive n).obs.nextGoal = r at h ⊢
  obtain ⟨polled, obs⟩ := r
  cases polled with
  | some goal' =>
    cases h
    simp
  | none =>
    -- the senders are gone
    rcases hcloses : senders.closes (senders.sends w).2 with ⟨_ | _, w''⟩
    · rw [hcloses] at h
      cases h
    · rw [hcloses] at h
      cases h
      exact List.Sublist.refl _

theorem superseded_sublist {w w' : W} {feed feed' : Feed} {current : Goal} {newer : Option Goal}
    (h : senders.superseded current (w, feed) = (newer, (w', feed'))) :
    (newer.toList ++ feed'.held).Sublist feed.held := by
  have hpolled := StreamingObservations.supersededPasses_sublist current
    (feed.arrive (senders.sends w).1).obs.rx.length (feed.arrive (senders.sends w).1).obs
  cases h
  rw [← feed.held_arrive (senders.sends w).1]
  unfold Feed.held
  rw [← List.append_assoc]
  exact hpolled.append_right _

end Senders

/-! ## The order is kept -/

namespace Loop

open Eff

variable {W : Type} {L : Loop W} {senders : Senders W} {ctx : Context}

def pursuing : Point → Option Goal
  | .ready goal _ _ => some goal
  | .compacting s => some s.current
  | .top s => some s.current
  | .deciding s => some s.current
  | .enacting s _ _ _ => some s.current
  | .enacted s _ _ => some s.current
  | _ => none

/-- The versions so far, the one at hand and the ones to come are in order. -/
def InOrderAt (p : Point) (feed : Feed) (h : List Action) : Prop :=
  (h.filterMap Action.version ++
    ((pursuing p).toList ++ feed.held).map Goal.version).Pairwise InOrder

/-- A move acts for the goal at hand alone, and goes on with goals that were to come. -/
theorem InOrderAt.move {p p' : Point} {feed feed' : Feed} {h t : List Action}
    (hh : InOrderAt p feed h)
    (ht : ∀ a ∈ t, ∀ v ∈ a.version, v ∈ (pursuing p).map Goal.version)
    (hs : ((pursuing p').toList ++ feed'.held).Sublist ((pursuing p).toList ++ feed.held)) :
    InOrderAt p' feed' (h ++ t) := by
  obtain ⟨hbefore, hcoming, hacross⟩ := List.pairwise_append.mp hh
  have hs' := hs.map Goal.version
  have hmem : ∀ v ∈ t.filterMap Action.version, v ∈ (pursuing p).toList.map Goal.version := by
    intro v hv
    obtain ⟨a, ha, hav⟩ := List.mem_filterMap.mp hv
    have := ht a ha v hav
    cases hp : pursuing p with
    | none => simp [hp] at this
    | some goal => simpa [hp, eq_comm] using this
  -- the goal pursued is in order with itself and with all that is held
  have hat : ∀ v ∈ (pursuing p).toList.map Goal.version,
      ∀ v' ∈ ((pursuing p).toList ++ feed.held).map Goal.version, InOrder v v' := by
    cases hp : pursuing p with
    | none => simp
    | some goal =>
      rw [hp] at hcoming
      intro v hv v' hv'
      rw [List.mem_singleton.mp hv]
      rcases List.mem_cons.mp hv' with rfl | hv'
      · exact InOrder.refl _
      · exact (List.pairwise_cons.mp hcoming).1 v' hv'
  have hleft : ∀ v ∈ (pursuing p).toList.map Goal.version,
      v ∈ ((pursuing p).toList ++ feed.held).map Goal.version := by
    intro v hv
    rw [List.map_append]
    exact List.mem_append_left _ hv
  unfold InOrderAt
  rw [List.filterMap_append, List.append_assoc]
  refine List.pairwise_append.mpr ⟨hbefore, List.pairwise_append.mpr
    ⟨?_, hcoming.sublist hs', ?_⟩, ?_⟩
  · exact List.pairwise_of_forall_mem_list fun v hv v' hv' =>
      hat v (hmem v hv) v' (hleft v' (hmem v' hv'))
  · intro v hv v' hv'
    exact hat v (hmem v hv) v' (hs'.subset hv')
  · intro v hv v' hv'
    rcases List.mem_append.mp hv' with hv' | hv'
    · exact hacross v hv v' (hleft v' (hmem v' hv'))
    · exact hacross v hv v' (hs'.subset hv')

theorem Moves.inOrder {p p' : Point} {feed feed' : Feed} {h t : List Action}
    (hm : L.Moves senders.observations ctx p feed t p' feed') (hh : InOrderAt p feed h) :
    InOrderAt p' feed' (h ++ t) := by
  have hpipeline : ∀ {a : Action}, a.ofPipeline = true →
      ∀ v ∈ a.version, v ∈ (pursuing p).map Goal.version := by
    intro a ha v hv
    rw [Action.version_of_ofPipeline ha] at hv
    cases hv
  cases hm with
  | next hcall => exact hh.move (by simp) (Senders.nextGoal_sublist hcall)
  | exhausted hcall => exact hh.move (by simp) (Senders.nextGoal_sublist hcall)
  | pending hpoll =>
    have hs := Senders.superseded_sublist hpoll
    exact hh.move (by simp) (hs.append_left _)
  | supersede hpoll =>
    have hs := Senders.superseded_sublist hpoll
    exact hh.move (by simp [Action.version]) (hs.trans (List.sublist_append_right _ _))
  | effect | fail =>
    refine hh.move ?_ (List.Sublist.refl _)
    exact forall_mem_dispatchInvoke_append hpipeline (by simp [Action.version])
  | hang =>
    refine hh.move ?_ (List.sublist_append_right _ _)
    exact fun a ha => hpipeline (ofPipeline_of_mem_dispatchInvoke a ha)
  | express =>
    refine hh.move ?_ (List.Sublist.refl _)
    split <;> simp [Action.version]
  | veto => exact hh.move (by simp [Action.version]) (List.sublist_append_right _ _)
  | finish => exact hh.move (by simp [Action.version]) (List.sublist_append_right _ _)
  | stepLimit => exact hh.move (by simp [Action.version]) (List.sublist_append_right _ _)
  | advance => exact hh.move (by simp) (List.sublist_append_right _ _)
  | _ => exact hh.move (by simp [Action.version, pursuing, Goal.version]) (List.Sublist.refl _)

theorem Reaches.inOrder {goals : List Goal}
    (hgoals : goals.Pairwise fun g g' => InOrder g.version g'.version) {p : Point} {feed : Feed}
    {h : List Action} (hr : L.Reaches senders.observations ctx ⟨.new, goals⟩ p feed h) :
    InOrderAt p feed h := by
  have hstart : InOrderAt (.seeking RunReport.empty L.stallDetector) ⟨.new, goals⟩ [] :=
    List.pairwise_map.mpr hgoals
  apply hr.invariant (I := InOrderAt) hstart
  intro p feed h t p' feed' hh hm
  exact hm.inOrder hh

/-! ## A span that takes up every goal -/

/-- The senders send a goal when it is waited for. -/
def onDemand : Senders Unit := ⟨fun w => (0, w), fun w => (true, w)⟩

/-- A provider that neither concludes nor acts steps through all goals, one after another. -/
theorem iterate_observes (ctx : Context) (rounds : ℕ) {n : ℕ} {goals : List Goal}
    (hn : goals.length < n) (s : State) :
    ((scriptedLoop ⟨[]⟩).iterate onDemand.observations ctx (rounds + 1) n s
      ((), ⟨.new, goals⟩)).1.filterMap Action.observedGoal = goals := by
  induction n generalizing goals s with
  | zero => omega
  | succ n ih =>
    unfold iterate
    cases goals with
    | nil => rfl
    | cons goal goals =>
      have hnext : (((scriptedLoop ⟨[]⟩).iteration onDemand.observations ctx (rounds + 1) s
          ((), ⟨.new, goal :: goals⟩))).2 =
          some (.inl ⟨goal, ctx, 0, s.report, s.stallDetector⟩, ((), ⟨.new, goals⟩)) := rfl
      have hobserved : (((scriptedLoop ⟨[]⟩).iteration onDemand.observations ctx (rounds + 1) s
          ((), ⟨.new, goal :: goals⟩))).1.filterMap Action.observedGoal = [goal] := rfl
      rw [bind_of_some hnext, List.filterMap_append, hobserved]
      dsimp only
      rw [ih (by simpa using hn)]
      rfl

theorem runSpan_observes (ctx : Context) {n : ℕ} {goals : List Goal} (hn : goals.length ≤ n) :
    ((scriptedLoop ⟨[]⟩).runSpan onDemand.observations ctx (n + 1)
      ((), ⟨.new, goals⟩)).1.filterMap Action.observedGoal = goals := by
  cases goals with
  | nil => rfl
  | cons goal goals =>
    have hspan : ((scriptedLoop ⟨[]⟩).runSpan onDemand.observations ctx (n + 1)
        ((), ⟨.new, goal :: goals⟩)).1 = .observed goal ::
          ((scriptedLoop ⟨[]⟩).iterate onDemand.observations ctx (n + 1) (n + 1)
            ⟨goal, ctx, 0, RunReport.empty, none⟩ ((), ⟨.new, goals⟩)).1 := rfl
    have hlength : goals.length < n + 1 := by
      rw [List.length_cons] at hn
      omega
    rw [hspan]
    exact congrArg (goal :: ·) (iterate_observes ctx n hlength _)

/-- The versions of the goals that are taken up are among those that are acted for. -/
theorem observed_sublist (h : List Action) :
    ((h.filterMap Action.observedGoal).map Goal.version).Sublist
      (h.filterMap Action.version) := by
  induction h with
  | nil => exact List.Sublist.refl _
  | cons a h ih =>
    cases ha : a.observedGoal with
    | some goal =>
      have hversion : a.version = some goal.version := by
        cases a <;> cases ha
        rfl
      rw [List.filterMap_cons_some ha, List.filterMap_cons_some hversion]
      exact ih.cons_cons _
    | none =>
      rw [List.filterMap_cons_none ha]
      cases hversion : a.version with
      | none => rwa [List.filterMap_cons_none hversion]
      | some v =>
        rw [List.filterMap_cons_some hversion]
        exact ih.cons v

theorem NeverBackwards.observed {h : List Action} (hh : NeverBackwards h) :
    (h.filterMap Action.observedGoal).Pairwise fun g g' => InOrder g.version g'.version :=
  List.pairwise_map.mp (hh.sublist (observed_sublist h))

/-- A span never turns back to an older revision, however it goes, if and only if the goals are
sent in the order of their revisions. -/
theorem never_backwards_iff (goals : List Goal) :
    (∀ (W : Type) (L : Loop W) (senders : Senders W) (ctx : Context) (fuel : ℕ) (w : W),
      NeverBackwards (L.runSpan senders.observations ctx fuel (w, ⟨.new, goals⟩)).1) ↔
    goals.Pairwise fun g g' => InOrder g.version g'.version := by
  constructor
  · intro h
    have hrun := h Unit (scriptedLoop ⟨[]⟩) onDemand ⟨[]⟩ (goals.length + 1) ()
    have hobserved := NeverBackwards.observed hrun
    rwa [runSpan_observes _ (Nat.le_refl _)] at hobserved
  · intro hgoals W L senders ctx fuel w
    obtain ⟨p, feed, hr⟩ := exists_reaches L senders.observations ctx fuel (w, ⟨.new, goals⟩)
    exact (List.pairwise_append.mp (hr.inOrder hgoals)).1

/-- Revision 2 of `g` is sent and then revision 1: a provider that does nothing is asked to decide
on both in turn. -/
theorem revision_backwards : ¬NeverBackwards ((scriptedLoop ⟨[]⟩).runSpan onDemand.observations
    ⟨[]⟩ 3 ((), ⟨.new, [tickGoal "g" 2, tickGoal "g" 1]⟩)).1 := by
  intro h
  have hobserved := NeverBackwards.observed h
  rw [runSpan_observes ⟨[]⟩ (Nat.le_refl 2)] at hobserved
  have hle : 2 ≤ 1 := (List.pairwise_cons.mp hobserved).1 _ (List.mem_singleton_self _) rfl
  omega

end Loop

end Pan
