import Pan.Library.Effects
import Pan.Library.History
import Pan.Registry

namespace Pan

structure PluginError where
  plugin : String
  message : String

inductive LifecycleError where
  | conflict (e : ConflictError)
  | plugin (e : PluginError)

/-- A plugin in its box. The key tells the box from every other. -/
structure Plugin where
  key : ℕ
  id : String
deriving DecidableEq

inductive LifecyclePhase where
  | provision
  | validate
  | run
deriving DecidableEq

/-- How the plugins answer during one operation. -/
abbrev Answers := LifecyclePhase → Plugin → Except PluginError Unit

inductive PluginCall where
  | called (phase : LifecyclePhase) (plugin : Plugin) (answer : Except PluginError Unit)
  | cleanup (plugin : Plugin)

/-- The plugins in the order of their registration, each box once. -/
structure Lifecycle where
  plugins : List Plugin
  owned : (plugins.map Plugin.key).Nodup

namespace Lifecycle

open Eff

variable {W : Type} (l : Lifecycle) (answers : Answers)

def checkIds (seen : List String) : List Plugin → Except ConflictError Unit
  | [] => .ok ()
  | p :: ps => if p.id ∈ seen then .error ⟨p.id⟩ else checkIds (p.id :: seen) ps

/-- Call plugins in order, up to the first that fails. -/
def callEach (phase : LifecyclePhase) : List Plugin → Eff PluginCall W (Except LifecycleError Unit)
  | [] => return .ok ()
  | p :: ps => do
    emit (.called phase p (answers phase p))
    match answers phase p with
    | .error e => return .error (.plugin e)
    | .ok () => callEach phase ps

/-- The ids are checked before any plugin is called. -/
def provision : Eff PluginCall W (Except LifecycleError Unit) :=
  match checkIds [] l.plugins with
  | .error e => return .error (.conflict e)
  | .ok () => callEach answers .provision l.plugins

def validate : Eff PluginCall W (Except LifecycleError Unit) :=
  callEach answers .validate l.plugins

def run : Eff PluginCall W (Except LifecycleError Unit) :=
  callEach answers .run l.plugins

def cleanupEach : List Plugin → Eff PluginCall W PUnit
  | [] => return
  | p :: ps => do
    emit (.cleanup p)
    cleanupEach ps

def cleanup : Eff PluginCall W PUnit := cleanupEach l.plugins.reverse

def start : Eff PluginCall W (Except LifecycleError Unit) := do
  match ← ((l.provision answers).andThen fun () => l.validate answers).andThen
      fun () => l.run answers with
  | .error e =>
    -- all plugins, whichever of them the phases have reached
    l.cleanup
    return .error e
  | .ok () => return .ok ()

/-! ## What the parts do -/

theorem checkIds_eq_ok {seen : List String} {ps : List Plugin} :
    checkIds seen ps = .ok () ↔ (ps.map Plugin.id).Nodup ∧ ∀ p ∈ ps, p.id ∉ seen := by
  induction ps generalizing seen with
  | nil => simp [checkIds]
  | cons p ps ih =>
    rw [checkIds]
    split_ifs with hp
    · simp [hp]
    · rw [ih, List.map_cons, List.nodup_cons]
      simp only [List.mem_cons, List.mem_map, not_or, forall_eq_or_imp]
      constructor
      · rintro ⟨hnodup, hseen⟩
        exact ⟨⟨fun ⟨q, hq, he⟩ => (hseen q hq).1 he, hnodup⟩, hp, fun q hq => (hseen q hq).2⟩
      · rintro ⟨⟨hne, hnodup⟩, -, hseen⟩
        exact ⟨hnodup, fun q hq => ⟨fun he => hne ⟨q, hq, he⟩, hseen q hq⟩⟩

def Distinct : Prop := (l.plugins.map Plugin.id).Nodup

theorem checkIds_nil_eq_ok : checkIds [] l.plugins = .ok () ↔ l.Distinct := by
  rw [checkIds_eq_ok]
  simp [Distinct]

variable {answers}

theorem callEach_of_ok {phase : LifecyclePhase} {ps : List Plugin}
    (h : ∀ p ∈ ps, answers phase p = .ok ()) (w : W) :
    callEach answers phase ps w =
      (ps.map fun p => .called phase p (.ok ()), some (.ok (), w)) := by
  induction ps with
  | nil => rfl
  | cons p ps ih =>
    have hp : answers phase p = .ok () := h p (by simp)
    rw [callEach, bind_eq, emit_apply, hp]
    dsimp only
    rw [ih fun q hq => h q (by simp [hq])]
    rfl

theorem callEach_of_error {phase : LifecyclePhase} {ps pre post : List Plugin} {p : Plugin}
    {e : PluginError} (hps : ps = pre ++ p :: post) (hpre : ∀ q ∈ pre, answers phase q = .ok ())
    (hp : answers phase p = .error e) (w : W) :
    callEach answers phase ps w =
      ((pre.map fun q => .called phase q (.ok ())) ++ [.called phase p (.error e)],
        some (.error (.plugin e), w)) := by
  subst hps
  induction pre with
  | nil =>
    rw [List.nil_append, callEach, bind_eq, emit_apply, hp]
    rfl
  | cons q pre ih =>
    have hq : answers phase q = .ok () := hpre q (by simp)
    rw [List.cons_append, callEach, bind_eq, emit_apply, hq]
    dsimp only
    rw [ih fun q hq => hpre q (by simp [hq])]
    rfl

/-- Of a list of plugins either none fails, or one is the first to. -/
theorem forall_ok_or_first_error (answers : Answers) (phase : LifecyclePhase) (ps : List Plugin) :
    (∀ p ∈ ps, answers phase p = .ok ()) ∨ ∃ pre p post e, ps = pre ++ p :: post ∧
      (∀ q ∈ pre, answers phase q = .ok ()) ∧ answers phase p = .error e := by
  induction ps with
  | nil => exact .inl fun p hp => by cases hp
  | cons p ps ih =>
    cases hp : answers phase p with
    | error e => exact .inr ⟨[], p, ps, e, rfl, List.forall_mem_nil _, hp⟩
    | ok u =>
      rcases ih with hok | ⟨pre, q, post, e, rfl, hpre, hq⟩
      · exact .inl fun q hq => (List.mem_cons.mp hq).elim (· ▸ hp) (hok q)
      · exact .inr ⟨p :: pre, q, post, e, rfl,
          fun r hr => (List.mem_cons.mp hr).elim (· ▸ hp) (hpre r), hq⟩

theorem cleanupEach_apply (ps : List Plugin) (w : W) :
    cleanupEach ps w = (ps.map .cleanup, some (PUnit.unit, w)) := by
  induction ps with
  | nil => rfl
  | cons p ps ih =>
    rw [cleanupEach, bind_eq, emit_apply]
    dsimp only
    rw [ih]
    rfl

def cleanups : List PluginCall := l.plugins.reverse.map .cleanup

theorem cleanup_apply (w : W) : l.cleanup w = (l.cleanups, some (PUnit.unit, w)) :=
  cleanupEach_apply _ w

/-! ## What a start does -/

variable (answers)

def succeeds (phases : List LifecyclePhase) : List PluginCall :=
  phases.flatMap fun phase => l.plugins.map fun p => .called phase p (.ok ())

/-- The ids are distinct, and no plugin fails in any phase. -/
def Starts : Prop := l.Distinct ∧ ∀ phase, ∀ p ∈ l.plugins, answers phase p = .ok ()

inductive Started : List PluginCall → Except LifecycleError Unit → Prop
  | conflict (e : ConflictError) (clash : ¬l.Distinct) :
    Started l.cleanups (.error (.conflict e))
  | fails (done : List LifecyclePhase) (phase : LifecyclePhase) (rest : List LifecyclePhase)
      (order : [.provision, .validate, .run] = done ++ phase :: rest) (distinct : l.Distinct)
      (succeeded : ∀ phase ∈ done, ∀ p ∈ l.plugins, answers phase p = .ok ())
      (pre : List Plugin) (p : Plugin) (post : List Plugin) (e : PluginError)
      (plugins : l.plugins = pre ++ p :: post) (before : ∀ q ∈ pre, answers phase q = .ok ())
      (failed : answers phase p = .error e) :
    Started (l.succeeds done ++ (pre.map fun q => .called phase q (.ok ())) ++
      .called phase p (.error e) :: l.cleanups) (.error (.plugin e))
  | starts (starts : l.Starts answers) :
    Started (l.succeeds [.provision, .validate, .run]) (.ok ())

theorem start_eq (w : W) : ∃ calls result,
    l.start answers w = (calls, some (result, w)) ∧ l.Started answers calls result := by
  unfold start
  cases hids : checkIds [] l.plugins with
  | error e =>
    have hclash : ¬l.Distinct := by
      intro hdistinct
      simp [l.checkIds_nil_eq_ok.mpr hdistinct] at hids
    refine ⟨_, _, ?_, .conflict e hclash⟩
    simp [provision, hids, andThen, bind_eq, cleanup_apply]
  | ok u =>
    have hdistinct : l.Distinct := l.checkIds_nil_eq_ok.mp hids
    have hprovision : l.provision answers (W := W) = callEach answers .provision l.plugins := by
      rw [provision, hids]
    rw [hprovision]
    -- each phase is done with all plugins or ends at the first that fails
    rcases forall_ok_or_first_error answers .provision l.plugins with
      hprovision | ⟨pre, p, post, e, hplugins, hpre, hp⟩
    · rcases forall_ok_or_first_error answers .validate l.plugins with
        hvalidate | ⟨pre, p, post, e, hplugins, hpre, hp⟩
      · rcases forall_ok_or_first_error answers .run l.plugins with
          hrun | ⟨pre, p, post, e, hplugins, hpre, hp⟩
        · refine ⟨_, _, ?_, .starts ⟨hdistinct, ?_⟩⟩
          · simp [validate, run, andThen, bind_eq, callEach_of_ok hprovision,
              callEach_of_ok hvalidate, callEach_of_ok hrun, succeeds]
          · intro phase
            cases phase
            · exact hprovision
            · exact hvalidate
            · exact hrun
        · refine ⟨_, _, ?_, .fails [.provision, .validate] .run [] rfl hdistinct ?_ pre p post e
            hplugins hpre hp⟩
          · simp [validate, run, andThen, bind_eq, callEach_of_ok hprovision,
              callEach_of_ok hvalidate, callEach_of_error hplugins hpre hp, cleanup_apply, succeeds]
          · simpa using ⟨hprovision, hvalidate⟩
      · refine ⟨_, _, ?_, .fails [.provision] .validate [.run] rfl hdistinct ?_ pre p post e
          hplugins hpre hp⟩
        · simp [validate, run, andThen, bind_eq, callEach_of_ok hprovision,
            callEach_of_error hplugins hpre hp, cleanup_apply, succeeds]
        · simpa using hprovision
    · refine ⟨_, _, ?_, .fails [] .provision [.validate, .run] rfl hdistinct ?_ pre p post e
        hplugins hpre hp⟩
      · simp [validate, run, andThen, bind_eq, callEach_of_error hplugins hpre hp, cleanup_apply,
          succeeds]
      · simp

theorem mem_succeeds {phases : List LifecyclePhase} {c : PluginCall} :
    c ∈ l.succeeds phases ↔
      ∃ phase ∈ phases, ∃ p ∈ l.plugins, c = .called phase p (.ok ()) := by
  simp [succeeds, eq_comm]

end Lifecycle

/-! ## All or nothing -/

def PluginCall.cleaned : PluginCall → Option Plugin
  | called _ _ _ => none
  | cleanup p => some p

theorem PluginCall.filterMap_cleaned (ps : List Plugin) :
    (ps.map PluginCall.cleanup).filterMap PluginCall.cleaned = ps := by
  rw [List.filterMap_map]
  exact List.filterMap_some

namespace Lifecycle

variable {l : Lifecycle} {answers : Answers} {calls : List PluginCall}
  {result : Except LifecycleError Unit}

theorem nodup_plugins (l : Lifecycle) : l.plugins.Nodup := l.owned.of_map _

/-- A start that fails ends with a cleanup of every plugin, and is the only one to clean up. -/
theorem Started.unwinds {e : LifecycleError} (h : l.Started answers calls (.error e)) :
    ∃ before, calls = before ++ l.cleanups ∧ (∀ p, .cleanup p ∉ before) ∧
      ∀ phase p a, .called phase p a ∈ before → p ∈ l.plugins := by
  cases h with
  | conflict e clash => exact ⟨[], rfl, by simp, by simp⟩
  | fails done phase rest order distinct succeeded pre p post e plugins before failed =>
    refine ⟨l.succeeds done ++ ((pre.map fun q => .called phase q (.ok ())) ++
      [.called phase p (.error e)]), by simp, ?_, ?_⟩
    · intro q
      simp [mem_succeeds]
    · intro phase' q a hq
      rcases List.mem_append.mp hq with hdone | hphase
      · obtain ⟨_, -, q', hq', heq⟩ := l.mem_succeeds.mp hdone
        cases heq
        exact hq'
      · rw [plugins]
        simp at hphase
        grind

/-- Before a plugin is run, all were provisioned and validated. -/
def RunsLast (l : Lifecycle) (pre : List PluginCall) (c : PluginCall) : Prop :=
  ∀ p a, c = .called .run p a → ∀ q ∈ l.plugins,
    .called .provision q (.ok ()) ∈ pre ∧ .called .validate q (.ok ()) ∈ pre

theorem always_runsLast {phases : List LifecyclePhase} {t : List PluginCall}
    (hphases : .run ∉ phases)
    (ht : ∀ p a, .called .run p a ∈ t → phases = [.provision, .validate]) :
    History.Always l.RunsLast (l.succeeds phases ++ t) := by
  have hdone : History.Always l.RunsLast (l.succeeds phases) := by
    refine (History.always_nil _).append_of_forall fun c hc pre p a hcall => ?_
    obtain ⟨phase, hphase, q, -, rfl⟩ := l.mem_succeeds.mp hc
    obtain ⟨rfl, -⟩ := PluginCall.called.inj hcall
    exact absurd hphase hphases
  refine hdone.append ?_
  rintro c hc pre p a rfl q hq
  obtain rfl := ht p a hc
  simp [mem_succeeds, hq]

theorem Started.runs_last (h : l.Started answers calls result) :
    History.Always l.RunsLast calls := by
  cases h with
  | conflict e clash =>
    rw [show l.cleanups = l.succeeds [] ++ l.cleanups from rfl]
    exact always_runsLast (by simp) (by simp [cleanups])
  | fails done phase rest order distinct succeeded pre p post e plugins before failed =>
    rw [List.append_assoc]
    rcases done with _ | ⟨d, _ | ⟨d', _ | ⟨d'', done⟩⟩⟩ <;>
      simp only [List.nil_append, List.cons_append, List.cons.injEq, reduceCtorEq, and_false,
        List.nil_eq, List.append_eq_nil_iff] at order
    · obtain ⟨rfl, -⟩ := order
      exact always_runsLast (by simp) (by simp [cleanups])
    · obtain ⟨rfl, rfl, -⟩ := order
      exact always_runsLast (by simp) (by simp [cleanups])
    · obtain ⟨rfl, rfl, rfl, -⟩ := order
      exact always_runsLast (by simp) fun _ _ _ => rfl
  | starts starts =>
    rw [show l.succeeds [.provision, .validate, .run] =
      l.succeeds [.provision, .validate] ++ l.succeeds [.run] by simp [succeeds]]
    exact always_runsLast (by simp) fun _ _ _ => rfl

theorem Started.conflicts (h : l.Started answers calls result) (hclash : ¬l.Distinct) :
    calls = l.cleanups ∧ ∃ e, result = .error (.conflict e) := by
  cases h with
  | conflict e clash => exact ⟨rfl, e, rfl⟩
  | fails _ _ _ _ distinct => exact absurd distinct hclash
  | starts starts => exact absurd starts.1 hclash

end Lifecycle

/-- A start that fails ends with one cleanup of every plugin in reverse order, so that each one
that was provisioned is cleaned up once; none is run unless all were provisioned and validated;
and if two share an id, the start fails with a conflict and provisions none. -/
theorem start_all_or_nothing {W : Type} (l : Lifecycle) (answers : Answers) (w : W) :
    ∃ calls result, l.start answers w = (calls, some (result, w)) ∧
    (∀ e, result = .error e →
      (∃ before, calls = before ++ l.plugins.reverse.map .cleanup ∧ ∀ p, .cleanup p ∉ before) ∧
      ∀ p a, .called .provision p a ∈ calls → (calls.filterMap PluginCall.cleaned).count p = 1) ∧
    (∀ pre p a post, calls = pre ++ .called .run p a :: post → ∀ q ∈ l.plugins,
      .called .provision q (.ok ()) ∈ pre ∧ .called .validate q (.ok ()) ∈ pre) ∧
    (¬(l.plugins.map Plugin.id).Nodup →
      (∃ e, result = .error (.conflict e)) ∧ ∀ p a, .called .provision p a ∉ calls) := by
  obtain ⟨calls, result, hstart, hstarted⟩ := l.start_eq answers w
  refine ⟨calls, result, hstart, ?_, ?_, ?_⟩
  · rintro e rfl
    obtain ⟨before, rfl, hbefore, hmem⟩ := hstarted.unwinds
    refine ⟨⟨before, rfl, hbefore⟩, fun p a hp => ?_⟩
    -- what comes before the cleanups cleans nothing up
    have hnone : before.filterMap PluginCall.cleaned = [] := by
      rw [List.filterMap_eq_nil_iff]
      intro c hc
      cases c with
      | called phase q a => rfl
      | cleanup q => exact absurd hc (hbefore q)
    have hp' : p ∈ l.plugins := by
      rcases List.mem_append.mp hp with hp | hp
      · exact hmem _ _ _ hp
      · simp [Lifecycle.cleanups] at hp
    rw [List.filterMap_append, hnone, List.nil_append, Lifecycle.cleanups,
      PluginCall.filterMap_cleaned, List.count_reverse]
    exact List.count_eq_one_of_mem l.nodup_plugins hp'
  · intro pre p a post hcalls
    exact hstarted.runs_last pre _ post hcalls p a rfl
  · intro hclash
    obtain ⟨rfl, hconflict⟩ := hstarted.conflicts hclash
    exact ⟨hconflict, by simp [Lifecycle.cleanups]⟩

end Pan
