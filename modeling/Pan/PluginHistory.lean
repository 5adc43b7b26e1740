import Pan.Reloading

namespace Pan

namespace PluginCall

def plugin : PluginCall → Plugin
  | called _ p _ => p
  | cleanup p => p

def cleansUp (p : Plugin) : PluginCall → Bool
  | called _ _ _ => false
  | cleanup q => q = p

def provisions (p : Plugin) : PluginCall → Bool
  | called .provision q _ => q = p
  | _ => false

end PluginCall

/-- The plugin was provisioned and run, and was not cleaned up since. -/
def Alive (p : Plugin) (h : List PluginCall) : Prop :=
  .called .provision p (.ok ()) ∈ History.since (PluginCall.cleansUp p) h ∧
  .called .run p (.ok ()) ∈ History.since (PluginCall.cleansUp p) h

/-- The plugin was cleaned up, and was not provisioned since. -/
def Spent (p : Plugin) (h : List PluginCall) : Prop :=
  .cleanup p ∈ History.since (PluginCall.provisions p) h

/-! ## Alive after a start or a cleanup -/

section Alive

variable {h t : List PluginCall} {p : Plugin} {l : Lifecycle} {answers : Answers}
  {calls : List PluginCall} {result : Except LifecycleError Unit}

theorem alive_append_of_others {ps : List Plugin} (ht : ∀ c ∈ t, c.plugin ∈ ps) (hp : p ∉ ps) :
    Alive p (h ++ t) ↔ Alive p h := by
  have hne : ∀ c ∈ t, c.plugin ≠ p := fun c hc he => hp (he ▸ ht c hc)
  have hclean : ∀ c ∈ t, c.cleansUp p = false := by
    intro c hc
    cases c with
    | called phase q a => rfl
    | cleanup q => simpa [PluginCall.cleansUp, PluginCall.plugin] using hne _ hc
  unfold Alive
  rw [History.since_append_of_forall hclean, List.mem_append, List.mem_append,
    or_iff_left fun hc => hne _ hc rfl, or_iff_left fun hc => hne _ hc rfl]

theorem not_alive_append_cleanups (hp : p ∈ l.plugins) : ¬Alive p (h ++ l.cleanups) := by
  have hcleanup : .cleanup p ∈ l.cleanups := by simpa [Lifecycle.cleanups] using hp
  rintro ⟨hprovisioned, -⟩
  rw [History.since_append_of_mem hcleanup (by simp [PluginCall.cleansUp])] at hprovisioned
  simpa [Lifecycle.cleanups] using History.mem_of_mem_since hprovisioned

theorem Lifecycle.mem_cleanups {c : PluginCall} (hc : c ∈ l.cleanups) : c.plugin ∈ l.plugins := by
  obtain ⟨q, hq, rfl⟩ := List.mem_map.mp hc
  exact List.mem_reverse.mp hq

theorem Lifecycle.Started.mem_plugins (hs : l.Started answers calls result) {c : PluginCall}
    (hc : c ∈ calls) : c.plugin ∈ l.plugins := by
  cases result with
  | error e =>
    obtain ⟨before, rfl, hbefore, hcalled⟩ := hs.unwinds
    rcases List.mem_append.mp hc with hc | hc
    · cases c with
      | called phase q a => exact hcalled phase q a hc
      | cleanup q => exact absurd hc (hbefore q)
    · exact l.mem_cleanups hc
  | ok u =>
    cases hs with
    | starts starts =>
      obtain ⟨phase, -, q, hq, rfl⟩ := l.mem_succeeds.mp hc
      exact hq

/-- When the plugins of a lifecycle are the only ones that may be alive, a cleanup leaves none
alive. -/
theorem not_alive_cleanups (hl : ∀ p, Alive p h → p ∈ l.plugins) (p : Plugin) :
    ¬Alive p (h ++ l.cleanups) := by
  by_cases hp : p ∈ l.plugins
  · exact not_alive_append_cleanups hp
  · rw [alive_append_of_others (fun c hc => l.mem_cleanups hc) hp]
    exact fun halive => hp (hl p halive)

theorem Lifecycle.Started.not_starts {e : LifecycleError}
    (hs : l.Started answers calls (.error e)) : ¬l.Starts answers := by
  rw [← PluginRun.isOk_of_started hs]
  simp [Except.isOk, Except.toBool]

/-- A start leaves all of them alive or none. -/
theorem alive_started (hl : ∀ p, Alive p h → p ∈ l.plugins)
    (hs : l.Started answers calls result) (p : Plugin) :
    Alive p (h ++ calls) ↔ l.Starts answers ∧ p ∈ l.plugins := by
  by_cases hp : p ∈ l.plugins
  · cases result with
    | error e =>
      have hfails : ¬l.Starts answers := hs.not_starts
      obtain ⟨before, rfl, -⟩ := hs.unwinds
      rw [← List.append_assoc]
      exact iff_of_false (not_alive_append_cleanups hp) fun hstarts => hfails hstarts.1
    | ok u =>
      cases hs with
      | starts starts =>
        refine iff_of_true ?_ ⟨starts, hp⟩
        have hclean : ∀ c ∈ l.succeeds [.provision, .validate, .run], c.cleansUp p = false := by
          intro c hc
          obtain ⟨phase, -, q, -, rfl⟩ := l.mem_succeeds.mp hc
          rfl
        unfold Alive
        rw [History.since_append_of_forall hclean]
        simp [Lifecycle.mem_succeeds, hp]
  · rw [alive_append_of_others (fun c hc => hs.mem_plugins hc) hp]
    exact iff_of_false (fun halive => hp (hl p halive)) fun hstarts => hp hstarts.2

/-- So does the start of another lifecycle after they were cleaned up. -/
theorem alive_restarted {l' : Lifecycle} (hl : ∀ p, Alive p h → p ∈ l.plugins)
    (hs : l'.Started answers calls result) (p : Plugin) :
    Alive p (h ++ (l.cleanups ++ calls)) ↔ l'.Starts answers ∧ p ∈ l'.plugins := by
  rw [← List.append_assoc]
  exact alive_started (fun q hq => absurd hq (not_alive_cleanups hl q)) hs p

end Alive

/-! ## The invariant -/

namespace PluginRun

def listed (s : PluginRun) : List PluginEntry := s.plugind.manager.set.all

/-- The set lists the plugins of the lifecycle, whose boxes are among those that were made, as are
those of all calls; and no other plugin is alive. -/
structure Consistent (s : PluginRun) : Prop where
  listed : s.listed.map PluginEntry.id = s.lifecycle.plugins.map Plugin.id
  boxed : ∀ p ∈ s.lifecycle.plugins, p.key < s.plugind.boxes
  called : ∀ c ∈ s.calls, c.plugin.key < s.plugind.boxes
  alive : ∀ p, Alive p s.calls → p ∈ s.lifecycle.plugins

end PluginRun

theorem Discovered.listed_boxed (d : Discovered) (n : ℕ) :
    d.set.all.map PluginEntry.id = (d.boxed n).map Plugin.id := by
  rw [map_id_boxed]
  simp [set, PluginSet.new, PluginSet.all]

theorem Discovered.key_of_mem_boxed {d : Discovered} {n : ℕ} {p : Plugin} (hp : p ∈ d.boxed n) :
    n ≤ p.key ∧ p.key < n + d.plugins.length := by
  have hkey : p.key ∈ (d.boxed n).map Plugin.key := List.mem_map_of_mem hp
  rw [d.map_key_boxed, List.mem_range'_1] at hkey
  exact hkey

namespace PluginRun

theorem Consistent.setReloading {s : PluginRun} (hs : s.Consistent) (value : Bool) :
    (s.setReloading value).Consistent :=
  ⟨hs.listed, hs.boxed, hs.called, hs.alive⟩

theorem Consistent.andCleanups {s : PluginRun} (hs : s.Consistent) :
    (s.andCalls s.lifecycle.cleanups).Consistent := by
  refine ⟨hs.listed, hs.boxed, fun c hc => ?_, fun p hp => ?_⟩
  · rcases List.mem_append.mp hc with hc | hc
    · exact hs.called c hc
    · exact hs.boxed _ (Lifecycle.mem_cleanups hc)
  · exact absurd hp (not_alive_cleanups hs.alive p)

theorem Consistent.step {s : PluginRun} (hs : s.Consistent) (op : Operation) :
    (s.step op).Consistent := by
  obtain ⟨result, -, hstepped⟩ := s.stepped op
  generalize s.step op = s' at hstepped
  cases hstepped with
  | start answers calls result started =>
    refine ⟨hs.listed, hs.boxed, fun c hc => ?_, fun p hp => ?_⟩
    · rcases List.mem_append.mp hc with hc | hc
      · exact hs.called c hc
      · exact hs.boxed _ (started.mem_plugins hc)
    · exact ((alive_started hs.alive started p).mp hp).2
  | shutdown => exact hs.andCleanups
  | refused host answers reloading => exact hs
  | undiscovered host answers e idle discovered => exact (hs.setReloading true).andCleanups
  | reloaded host answers d calls result idle discovered started =>
    refine ⟨d.listed_boxed _, fun p hp => (Discovered.key_of_mem_boxed hp).2, fun c hc => ?_,
      fun p hp => ?_⟩
    · change c ∈ s.calls ++ (s.lifecycle.cleanups ++ calls) at hc
      rw [← List.append_assoc] at hc
      rcases List.mem_append.mp hc with hc | hc
      · exact (hs.andCleanups.called c hc).trans_le (Nat.le_add_right _ _)
      · exact (Discovered.key_of_mem_boxed (started.mem_plugins hc)).2
    · exact ((alive_restarted hs.alive started p).mp hp).2

theorem consistent_reached (dirs : List String) (d : Discovered) (ops : List Operation) :
    ((managing dirs d).reached ops).Consistent := by
  refine Machine.invariant (I := fun _ => Consistent) ?_ (fun _ _ op hs => hs.step op) ops
  refine ⟨d.listed_boxed 0, fun p hp => ?_, by simp [managing], fun p hp => ?_⟩
  · simpa [managing, Plugind.launch] using (Discovered.key_of_mem_boxed hp).2
  · cases hp.1

/-! ## Reported plugins are alive -/

/-- Every plugin that the set lists and that is reported to be running is alive. -/
def ReportedAlive (s : PluginRun) : Prop :=
  ∀ entry ∈ s.listed, ⟨entry.id, true, none⟩ ∈ s.plugind.manager.health →
    ∃ p, p.id = entry.id ∧ Alive p s.calls

/-- The operation leaves no plugin listed that it tears down: a start succeeds, a shutdown finds
none listed, and a reload is refused, or finds plugins and starts them, or finds none listed. -/
def KeepsAlive (s : PluginRun) : Operation → Prop
  | .start answers => s.lifecycle.Starts answers
  | .shutdown => s.listed = []
  | .reload host answers => s.plugind.manager.reloading = true ∨ s.Reloads host answers ∨
      (∃ e, s.rediscovered host = .error e) ∧ s.listed = []

theorem reportedAlive_iff (s : PluginRun) {ps : List Plugin} {φ : Prop}
    (hlisted : s.listed.map PluginEntry.id = ps.map Plugin.id)
    (halive : ∀ p, Alive p s.calls ↔ φ ∧ p ∈ ps) : s.ReportedAlive ↔ φ ∨ s.listed = [] := by
  constructor
  · intro h
    rcases List.eq_nil_or_concat s.listed with hnil | ⟨entries, entry, hentries⟩
    · exact .inr hnil
    · have hentry : entry ∈ s.listed := by simp [hentries]
      obtain ⟨p, -, hp⟩ := h entry hentry (List.mem_map_of_mem hentry)
      exact .inl ((halive p).mp hp).1
  · rintro (hφ | hnil) entry hentry -
    · have hid : entry.id ∈ ps.map Plugin.id := hlisted ▸ List.mem_map_of_mem hentry
      obtain ⟨p, hp, hpid⟩ := List.mem_map.mp hid
      exact ⟨p, hpid, (halive p).mpr ⟨hφ, hp⟩⟩
    · simp [hnil] at hentry

theorem starts_of_listed_nil {l : Lifecycle} {entries : List PluginEntry} (answers : Answers)
    (hlisted : entries.map PluginEntry.id = l.plugins.map Plugin.id) (hnil : entries = []) :
    l.Starts answers := by
  have hplugins : l.plugins = [] := by
    rw [hnil, List.map_nil] at hlisted
    exact List.map_eq_nil_iff.mp hlisted.symm
  simp [Lifecycle.Starts, Lifecycle.Distinct, hplugins]

theorem reportedAlive_step {s : PluginRun} (hs : s.Consistent) (op : Operation)
    (hrefused : op.IsReload → s.plugind.manager.reloading = true → s.ReportedAlive) :
    (s.step op).ReportedAlive ↔ s.KeepsAlive op := by
  -- after the cleanup nothing is alive, so only an empty list is right
  have hcleaned : ∀ s' : PluginRun, s'.listed = s.listed →
      s'.calls = s.calls ++ s.lifecycle.cleanups → (s'.ReportedAlive ↔ s.listed = []) := by
    intro s' hlisted hcalls
    have hnone : ∀ p, Alive p s'.calls ↔ False ∧ p ∈ s.lifecycle.plugins := by
      intro p
      rw [hcalls, false_and, iff_false]
      exact not_alive_cleanups hs.alive p
    rw [reportedAlive_iff s' (hlisted ▸ hs.listed) hnone, hlisted, false_or]
  obtain ⟨result, -, hstepped⟩ := s.stepped op
  generalize s.step op = s' at hstepped
  cases hstepped with
  | start answers calls result started =>
    have halive := alive_started hs.alive started
    refine (reportedAlive_iff (s.andCalls calls) hs.listed halive).trans ?_
    exact or_iff_left_of_imp (starts_of_listed_nil answers hs.listed)
  | shutdown => exact hcleaned _ rfl rfl
  | refused host answers reloading =>
    exact iff_of_true (hrefused ⟨_, _, rfl⟩ reloading) (.inl reloading)
  | undiscovered host answers e idle discovered =>
    refine (hcleaned ((s.setReloading true).andCalls s.lifecycle.cleanups) rfl rfl).trans ?_
    simp [KeepsAlive, idle, Reloads, discovered]
  | reloaded host answers d calls result idle discovered started =>
    have halive : ∀ p, Alive p (s.calls ++ (s.lifecycle.cleanups ++ calls)) ↔
        (s.next d).Starts answers ∧ p ∈ (s.next d).plugins := alive_restarted hs.alive started
    have hlisted : d.set.all.map PluginEntry.id = (s.next d).plugins.map Plugin.id :=
      d.listed_boxed s.plugind.boxes
    refine (reportedAlive_iff ((s.swapped d !result.isOk).andCalls (s.lifecycle.cleanups ++ calls))
      hlisted halive).trans ?_
    simp only [KeepsAlive, idle, Reloads, discovered, Bool.false_eq_true, false_or,
      Except.ok.injEq, exists_eq_left', reduceCtorEq, exists_false, false_and, or_false]
    exact or_iff_left_of_imp (starts_of_listed_nil answers hlisted)

end PluginRun

section Runs

variable (dirs : List String) (d : Discovered) (ops : List Operation)

/-- After every operation of the run, the plugins that are reported are alive. -/
def ReportsAlive : Prop :=
  ∀ pre op post, ops = pre ++ op :: post →
    ((managing dirs d).reached (pre ++ [op])).ReportedAlive

end Runs

/-- Reported plugins are alive in exactly the runs in which no operation tears down plugins and
leaves them listed. -/
theorem reports_alive_iff (dirs : List String) (d : Discovered) (ops : List Operation) :
    ReportsAlive dirs d ops ↔ (managing dirs d).Guarded PluginRun.KeepsAlive ops := by
  induction ops using List.reverseRecOn with
  | nil => exact iff_of_true (History.always_nil _) (Machine.guarded_nil _)
  | append_singleton ops op ih =>
    have hconcat : ReportsAlive dirs d (ops ++ [op]) ↔ ReportsAlive dirs d ops ∧
        ((managing dirs d).reached (ops ++ [op])).ReportedAlive := History.always_concat
    rw [hconcat, Machine.guarded_concat, ← ih]
    refine and_congr_right fun hops => ?_
    rw [reached_concat_managing]
    refine PluginRun.reportedAlive_step (PluginRun.consistent_reached dirs d ops) op ?_
    -- a reload is refused only after another operation
    intro _ hreloading
    obtain ⟨pre, host, answers, post, rfl, -⟩ := exists_of_reloading hreloading
    rcases List.eq_nil_or_concat (.reload host answers :: post) with hnil | ⟨post', op', hpost⟩
    · cases hnil
    · rw [hpost, List.concat_eq_append, ← List.append_assoc] at hops ⊢
      exact hops (pre ++ post') op' [] rfl

def memoryHost : Host :=
  listingHost (.ok [.ok ⟨"memory.wasm", by decide⟩])

def memoryPlugin : Discovered :=
  ⟨[⟨"memory", ⟨⟨"memory", "0.0.0"⟩, ⟨[], []⟩⟩, "plugins/memory.wasm", rfl⟩], []⟩

/-- A plugin that was shut down is still listed, and reported to be running. -/
theorem reported_after_shutdown :
    Plugind.new memoryHost ["plugins"] = .ok (.launch ["plugins"] memoryPlugin) ∧
    ¬ReportsAlive ["plugins"] memoryPlugin [.start fun _ _ => .ok (), .shutdown] := by
  refine ⟨rfl, fun h => ?_⟩
  let start : Operation := .start fun _ _ => .ok ()
  have hs := PluginRun.consistent_reached ["plugins"] memoryPlugin [start]
  have hreported := h [start] .shutdown [] rfl
  obtain ⟨p, -, hp⟩ :=
    hreported ⟨"memory"⟩ (List.mem_singleton.mpr rfl) (List.mem_singleton.mpr rfl)
  exact not_alive_cleanups hs.alive p hp

/-! ## Cleanup at most once -/

/-- No plugin is cleaned up twice without being provisioned in between. -/
def CleansOnce (h : List PluginCall) : Prop :=
  History.Always (fun pre c => ∀ p, c = .cleanup p → ¬Spent p pre) h

section CleansOnce

variable {h t before : List PluginCall} {p : Plugin} {ps : List Plugin} {l : Lifecycle}
  {answers : Answers} {calls : List PluginCall} {result : Except LifecycleError Unit}

theorem spent_append_of_no_cleanup (ht : ∀ p, .cleanup p ∉ t) :
    Spent p (h ++ t) ↔ Spent p h ∧ ∀ c ∈ t, c.provisions p = false := by
  by_cases hp : ∀ c ∈ t, c.provisions p = false
  · unfold Spent
    rw [History.since_append_of_forall hp, List.mem_append, or_iff_left (ht p)]
    exact (and_iff_left hp).symm
  · obtain ⟨c, hc, hprovisions⟩ : ∃ c ∈ t, c.provisions p = true := by simpa using hp
    unfold Spent
    rw [History.since_append_of_mem hc hprovisions]
    exact iff_of_false (fun hspent => ht p (History.mem_of_mem_since hspent))
      fun hnone => hp hnone.2

theorem spent_append_cleanups_of_notMem (hp : p ∉ ps) :
    Spent p (h ++ ps.map .cleanup) ↔ Spent p h := by
  unfold Spent
  rw [History.since_append_of_forall, List.mem_append, or_iff_left]
  · simpa using hp
  · simp [PluginCall.provisions]

theorem cleansOnce_append_of_no_cleanup (ht : ∀ p, .cleanup p ∉ t) :
    CleansOnce (h ++ t) ↔ CleansOnce h := by
  unfold CleansOnce
  rw [History.always_append, and_iff_left_iff_imp]
  rintro - pre c post rfl p rfl
  exact absurd (ht p) (by simp)

theorem cleansOnce_append_cleanups (hps : ps.Nodup) :
    CleansOnce (h ++ ps.map .cleanup) ↔ CleansOnce h ∧ ∀ p ∈ ps, ¬Spent p h := by
  induction ps using List.reverseRecOn with
  | nil => simp
  | append_singleton ps q ih =>
    obtain ⟨hnodup, -, hq⟩ := List.nodup_append.mp hps
    have hq' : q ∉ ps := fun hmem => hq q hmem q (by simp) rfl
    rw [List.map_append, ← List.append_assoc]
    have hconcat : CleansOnce (h ++ ps.map .cleanup ++ [.cleanup q]) ↔
        CleansOnce (h ++ ps.map .cleanup) ∧ ¬Spent q (h ++ ps.map .cleanup) := by
      unfold CleansOnce
      rw [History.always_concat]
      simp
    rw [List.map_singleton, hconcat, ih hnodup, spent_append_cleanups_of_notMem hq']
    simp only [List.mem_append, List.mem_singleton]
    grind

/-- A start that fails cleans up every plugin; those it did not provision must not be spent. -/
theorem cleansOnce_started_error {e : LifecycleError} (hs : l.Started answers calls (.error e)) :
    CleansOnce (h ++ calls) ↔ CleansOnce h ∧ ∀ p ∈ l.plugins, Spent p h →
      ∃ c ∈ calls, c.provisions p = true := by
  obtain ⟨before, rfl, hbefore, -⟩ := hs.unwinds
  rw [← List.append_assoc, Lifecycle.cleanups,
    cleansOnce_append_cleanups (List.nodup_reverse.mpr l.nodup_plugins),
    cleansOnce_append_of_no_cleanup hbefore]
  refine and_congr_right fun _ => ?_
  simp only [List.mem_reverse, spent_append_of_no_cleanup hbefore]
  have hcleanups : ∀ p, ∀ c ∈ l.plugins.reverse.map PluginCall.cleanup,
      c.provisions p = false := by
    intro p c hc
    obtain ⟨q, -, rfl⟩ := List.mem_map.mp hc
    rfl
  refine forall₂_congr fun p _ => ?_
  constructor
  · intro hspent hp
    by_contra hnone
    push Not at hnone
    refine hspent ⟨hp, fun c hc => ?_⟩
    simpa using hnone c (List.mem_append_left _ hc)
  · rintro hspent ⟨hp, hnone⟩
    obtain ⟨c, hc, hprovisions⟩ := hspent hp
    rcases List.mem_append.mp hc with hc | hc
    · simp [hnone c hc] at hprovisions
    · simp [hcleanups p c hc] at hprovisions

/-- A start that fails provisions a plugin exactly if the ids are distinct and none before it
fails to be provisioned. -/
theorem provisions_started_iff {e : LifecycleError} (hs : l.Started answers calls (.error e))
    {pre post : List Plugin} (hl : l.plugins = pre ++ p :: post) :
    (∃ c ∈ calls, c.provisions p = true) ↔
      l.Distinct ∧ ∀ q ∈ pre, answers .provision q = .ok () := by
  cases hs with
  | conflict e clash =>
    refine iff_of_false ?_ fun h => clash h.1
    rintro ⟨c, hc, hprovisions⟩
    obtain ⟨q, -, rfl⟩ := List.mem_map.mp hc
    cases hprovisions
  | fails done phase rest order distinct succeeded pre' p' post' e plugins before failed =>
    rw [and_iff_right distinct]
    -- a phase before this one has been done with every plugin, or this is the first
    cases done with
    | cons d done =>
      obtain ⟨rfl, -⟩ := List.cons.inj order
      have hmem : ∀ q, q ∈ pre ++ p :: post → answers .provision q = .ok () := fun q hq =>
        succeeded .provision (by simp) q (hl ▸ hq)
      refine iff_of_true ⟨.called .provision p (.ok ()), ?_, by simp [PluginCall.provisions]⟩
        fun q hq => hmem q (by simp [hq])
      simp [Lifecycle.mem_succeeds, hl]
    | nil =>
      obtain ⟨rfl, -⟩ := List.cons.inj order
      have hcalls : (∃ c ∈ l.succeeds [] ++ (pre'.map fun q => .called .provision q (.ok ())) ++
          .called .provision p' (.error e) :: l.cleanups, c.provisions p = true) ↔
          p ∈ pre' ∨ p' = p := by
        simp [Lifecycle.succeeds, Lifecycle.cleanups, PluginCall.provisions, or_and_right,
          exists_or]
      rw [hcalls]
      have hnodup : (pre' ++ p' :: post').Nodup := plugins ▸ l.nodup_plugins
      rcases List.append_eq_append_iff.mp (hl.symm.trans plugins) with
        ⟨mid, rfl, hmid⟩ | ⟨mid, rfl, hmid⟩
      · -- the plugin comes no later than the one that fails
        refine iff_of_true ?_ fun q hq => before q (by simp [hq])
        cases mid with
        | nil => exact .inr (List.cons.inj hmid).1.symm
        | cons q mid => exact .inl (by simp [(List.cons.inj hmid).1])
      · cases mid with
        | nil =>
          exact iff_of_true (.inr (List.cons.inj hmid).1) fun q hq => before q (by simpa using hq)
        | cons q mid =>
          obtain ⟨rfl, rfl⟩ := List.cons.inj hmid
          refine iff_of_false ?_ fun h => ?_
          · grind
          · simp [h p' (by simp)] at failed

theorem cleansOnce_started_ok {u : Unit} (hs : l.Started answers calls (.ok u)) :
    CleansOnce (h ++ calls) ↔ CleansOnce h := by
  cases hs with
  | starts starts =>
    refine cleansOnce_append_of_no_cleanup fun p hp => ?_
    obtain ⟨phase, -, q, -, hcall⟩ := l.mem_succeeds.mp hp
    cases hcall

end CleansOnce

namespace PluginRun

/-- The operation cleans up no plugin that is spent: a shutdown and a reload that is not refused
find none, and a start that fails provisions those it finds. -/
def CleansUnspent (s : PluginRun) : Operation → Prop
  | .start answers => s.lifecycle.Starts answers ∨
      ∀ pre p post, s.lifecycle.plugins = pre ++ p :: post → Spent p s.calls →
        s.lifecycle.Distinct ∧ ∀ q ∈ pre, answers .provision q = .ok ()
  | .shutdown => ∀ p ∈ s.lifecycle.plugins, ¬Spent p s.calls
  | .reload _ _ => s.plugind.manager.reloading = true ∨
      ∀ p ∈ s.lifecycle.plugins, ¬Spent p s.calls

theorem cleansOnce_step {s : PluginRun} (hs : s.Consistent) (op : Operation) :
    CleansOnce (s.step op).calls ↔ CleansOnce s.calls ∧ s.CleansUnspent op := by
  -- what a shutdown or a reload adds: each plugin in the set once more
  have hcleanups : CleansOnce (s.calls ++ s.lifecycle.cleanups) ↔
      CleansOnce s.calls ∧ ∀ p ∈ s.lifecycle.plugins, ¬Spent p s.calls := by
    rw [Lifecycle.cleanups,
      cleansOnce_append_cleanups (List.nodup_reverse.mpr s.lifecycle.nodup_plugins)]
    simp only [List.mem_reverse]
  obtain ⟨result, -, hstepped⟩ := s.stepped op
  generalize s.step op = s' at hstepped
  cases hstepped with
  | start answers calls result started =>
    have hok := isOk_of_started started
    cases result with
    | error e =>
      have hfails : ¬s.lifecycle.Starts answers := started.not_starts
      refine (cleansOnce_started_error started).trans (and_congr_right fun _ => ?_)
      change _ ↔ _ ∨ _
      rw [or_iff_right hfails]
      constructor
      · intro hspent pre p post hplugins hp
        exact (provisions_started_iff started hplugins).mp (hspent p (by simp [hplugins]) hp)
      · intro hspent p hp hp'
        obtain ⟨pre, post, hplugins⟩ := List.append_of_mem hp
        exact (provisions_started_iff started hplugins).mpr (hspent pre p post hplugins hp')
    | ok u =>
      refine (cleansOnce_started_ok started).trans (and_iff_left (.inl ?_)).symm
      exact hok.mp rfl
  | shutdown => exact hcleanups
  | refused host answers reloading => exact (and_iff_left (.inl reloading)).symm
  | undiscovered host answers e idle discovered =>
    refine hcleanups.trans ?_
    simp [CleansUnspent, idle]
  | reloaded host answers d calls result idle discovered started =>
    -- a reload boxes anew, so what it starts has never been called
    have hfresh : ∀ p ∈ (s.next d).plugins, ¬Spent p (s.calls ++ s.lifecycle.cleanups) := by
      intro p hp hspent
      have hold : p.key < s.plugind.boxes :=
        hs.andCleanups.called _ (History.mem_of_mem_since hspent)
      exact absurd (Discovered.key_of_mem_boxed hp).1 (not_le.mpr hold)
    have hstart : CleansOnce (s.calls ++ s.lifecycle.cleanups ++ calls) ↔
        CleansOnce (s.calls ++ s.lifecycle.cleanups) := by
      cases result with
      | error e =>
        rw [cleansOnce_started_error started]
        exact and_iff_left fun p hp hspent => absurd hspent (hfresh p hp)
      | ok u => exact cleansOnce_started_ok started
    change CleansOnce (s.calls ++ (s.lifecycle.cleanups ++ calls)) ↔ _
    rw [← List.append_assoc, hstart, hcleanups]
    simp [CleansUnspent, idle]

end PluginRun

/-- No plugin is cleaned up twice in a row in exactly the runs in which no operation cleans up a
plugin that is spent. -/
theorem cleanup_at_most_once_iff (dirs : List String) (d : Discovered) (ops : List Operation) :
    CleansOnce ((managing dirs d).reached ops).calls ↔
      (managing dirs d).Guarded PluginRun.CleansUnspent ops :=
  Machine.reached_iff_guarded (I := PluginRun.Consistent)
    (P := fun s => CleansOnce s.calls) (PluginRun.consistent_reached dirs d)
    (History.always_nil _) (fun _ op hs _ => PluginRun.cleansOnce_step hs op) ops

/-- A manager that is shut down after a reload found its directory unreadable cleans up its plugin
twice. -/
theorem cleaned_up_twice :
    Plugind.new memoryHost ["plugins"] = .ok (.launch ["plugins"] memoryPlugin) ∧
    ¬CleansOnce ((managing ["plugins"] memoryPlugin).reached [.start fun _ _ => .ok (),
      .reload (listingHost (.error (.other "permission denied"))) fun _ _ => .ok (),
      .shutdown]).calls := by
  refine ⟨rfl, fun h => ?_⟩
  let p : Plugin := ⟨0, "memory"⟩
  have hspent : Spent p [.called .provision p (.ok ()), .called .validate p (.ok ()),
      .called .run p (.ok ()), .cleanup p] := by
    unfold Spent
    rw [show ∀ a b c d : PluginCall, [a, b, c, d] = [a, b, c] ++ [d] from fun _ _ _ _ => rfl,
      History.since_concat]
    simp [PluginCall.provisions]
  exact h _ (.cleanup p) [] rfl p rfl hspent

end Pan
