import Pan.PluginManager

namespace Pan

open Eff

/-! ## Discovery errors -/

/-- The error is not that of a refused reload. -/
def Unrefused {α : Type} (r : Except PlugindError α) : Prop := r ≠ .error .reloadInProgress

theorem Unrefused.bind {α β : Type} {r : Except PlugindError α}
    {f : α → Except PlugindError β} (hr : Unrefused r) (hf : ∀ a, Unrefused (f a)) :
    Unrefused (r >>= f) := by
  cases r with
  | error e => exact fun h => hr (congrArg Except.error (Except.error.inj h))
  | ok a => exact hf a

theorem unrefused_mapError {α ε : Type} {f : ε → PlugindError} (hf : ∀ e, f e ≠ .reloadInProgress)
    (r : Except ε α) : Unrefused (r.mapError f) := by
  cases r with
  | error e => exact fun h => hf e (Except.error.inj h)
  | ok a => exact fun h => by cases h

theorem unrefused_foldlM {α β : Type} {f : β → α → Except PlugindError β}
    (hf : ∀ b a, Unrefused (f b a)) (l : List α) (b : β) : Unrefused (l.foldlM f b) := by
  induction l generalizing b with
  | nil => exact fun h => by cases h
  | cons a l ih =>
    rw [List.foldlM_cons]
    exact (hf b a).bind ih

theorem unrefused_load (host : Host) (path : String) :
    Unrefused (PluginManifest.load host path) := by
  unfold PluginManifest.load
  refine (unrefused_mapError (by simp) _).bind fun content => ?_
  refine (unrefused_mapError (by simp) _).bind fun manifest => ?_
  unfold Unrefused
  split_ifs <;> exact fun h => by cases h

theorem unrefused_discoverEntry (host : Host) (dir : String) (d : Discovered)
    (entry : Except String DirEntry) : Unrefused (discoverEntry host dir d entry) := by
  unfold discoverEntry
  refine (unrefused_mapError (by simp) _).bind fun entry => ?_
  split_ifs
  · refine Unrefused.bind ?_ fun manifest => ?_
    · unfold manifestFor
      dsimp only
      split_ifs
      · exact unrefused_load host _
      · exact fun h => by cases h
    · refine Unrefused.bind ?_ fun plugin h => by cases h
      exact (unrefused_mapError (by simp) _).bind fun _ h => by cases h
  · exact fun h => by cases h

theorem unrefused_discoverAll (host : Host) (dirs : List String) :
    Unrefused (discoverAll host dirs) := by
  refine unrefused_foldlM (fun d dir => ?_) dirs _
  unfold discoverDir
  split
  · exact fun h => by cases h
  · exact fun h => by cases h
  · exact unrefused_foldlM (unrefused_discoverEntry host dir) _ d

/-! ## What an operation does -/

namespace PluginRun

def lifecycle (s : PluginRun) : Lifecycle := s.plugind.manager.lifecycle

def rediscovered (s : PluginRun) (host : Host) : Except PlugindError Discovered :=
  discoverAll host s.plugind.manager.pluginDirs

def next (s : PluginRun) (d : Discovered) : Lifecycle := d.lifecycle s.plugind.boxes

def andCalls (s : PluginRun) (calls : List PluginCall) : PluginRun :=
  { s with calls := s.calls ++ calls }

def setReloading (s : PluginRun) (value : Bool) : PluginRun :=
  { s with plugind.manager.reloading := value }

/-- The run with the plugins that were discovered as those of the manager. -/
def swapped (s : PluginRun) (d : Discovered) (reloading : Bool) : PluginRun where
  plugind := ⟨⟨d.set, s.next d, s.plugind.manager.pluginDirs, reloading⟩,
    s.plugind.boxes + d.plugins.length⟩
  calls := s.calls

/-- An operation, what it leaves behind and what it returns. -/
inductive Stepped (s : PluginRun) :
    Operation → PluginRun → Except PlugindError Unit → Prop
  | start (answers : Answers) (calls : List PluginCall) (result : Except LifecycleError Unit)
      (started : s.lifecycle.Started answers calls result) :
    Stepped s (.start answers) (s.andCalls calls) (result.mapError .lifecycle)
  | shutdown : Stepped s .shutdown (s.andCalls s.lifecycle.cleanups) (.ok ())
  | refused (host : Host) (answers : Answers)
      (reloading : s.plugind.manager.reloading = true) :
    Stepped s (.reload host answers) s (.error .reloadInProgress)
  | undiscovered (host : Host) (answers : Answers) (e : PlugindError)
      (idle : s.plugind.manager.reloading = false) (discovered : s.rediscovered host = .error e) :
    Stepped s (.reload host answers) ((s.setReloading true).andCalls s.lifecycle.cleanups)
      (.error e)
  | reloaded (host : Host) (answers : Answers) (d : Discovered) (calls : List PluginCall)
      (result : Except LifecycleError Unit) (idle : s.plugind.manager.reloading = false)
      (discovered : s.rediscovered host = .ok d)
      (started : (s.next d).Started answers calls result) :
    Stepped s (.reload host answers)
      ((s.swapped d !result.isOk).andCalls (s.lifecycle.cleanups ++ calls))
      (result.mapError .lifecycle)

theorem stepped (s : PluginRun) (op : Operation) :
    ∃ result, s.result op = some result ∧ Stepped s op (s.step op) result := by
  suffices h : ∃ s' result calls, op.perform s.plugind = (calls, some (result, s'.plugind)) ∧
      s'.calls = s.calls ++ calls ∧ Stepped s op s' result by
    obtain ⟨s', result, calls, hperform, hcalls, hs'⟩ := h
    have hstep : s.step op = s' := by
      unfold step
      rw [hperform]
      cases s'
      simp_all
    refine ⟨result, ?_, hstep ▸ hs'⟩
    unfold PluginRun.result
    rw [hperform]
    rfl
  cases op with
  | start answers =>
    obtain ⟨calls, result, hstart, hstarted⟩ := s.lifecycle.start_eq answers s.plugind
    refine ⟨_, _, calls, ?_, rfl, .start answers calls result hstarted⟩
    unfold lifecycle at hstart
    simp [Operation.perform, Plugind.start, Plugind.lifecycle, bind_eq, hstart, andCalls]
  | shutdown =>
    refine ⟨_, _, _, ?_, rfl, .shutdown⟩
    simp [Operation.perform, Plugind.shutdown, Plugind.lifecycle, bind_eq,
      Lifecycle.cleanup_apply, andCalls, lifecycle]
  | reload host answers =>
    cases hreloading : s.plugind.manager.reloading with
    | true =>
      refine ⟨s, _, [], ?_, (List.append_nil _).symm, .refused host answers hreloading⟩
      have hset : { s.plugind with manager.reloading := true } = s.plugind := by
        rw [← hreloading]
      simp [Operation.perform, Plugind.reload, Plugind.swapReloading, bind_eq, hreloading, hset]
    | false =>
      cases hd : s.rediscovered host with
      | error e =>
        refine ⟨_, _, _, ?_, rfl, .undiscovered host answers e hreloading hd⟩
        unfold rediscovered at hd
        simp [Operation.perform, Plugind.reload, Plugind.swapReloading, Plugind.lifecycle, bind_eq,
          hreloading, Lifecycle.cleanup_apply, hd, andCalls, setReloading, lifecycle]
      | ok d =>
        obtain ⟨calls, result, hstart, hstarted⟩ := (s.next d).start_eq answers
          (s.swapped d true).plugind
        refine ⟨_, _, _, ?_, rfl, .reloaded host answers d calls result hreloading hd hstarted⟩
        unfold rediscovered at hd
        simp only [next, swapped] at hstart
        -- the flag is cleared or not, according to the result
        cases result
        all_goals
          simp [Operation.perform, Plugind.reload, Plugind.swapReloading, Plugind.lifecycle,
            Plugind.swap, bind_eq, hreloading, Lifecycle.cleanup_apply, hd, hstart, andCalls,
            swapped, next, lifecycle]
          exact ⟨rfl, rfl⟩

/-! ## The flag -/

def Reloads (s : PluginRun) (host : Host) (answers : Answers) : Prop :=
  ∃ d, s.rediscovered host = .ok d ∧ (s.next d).Starts answers

theorem isOk_of_started {l : Lifecycle} {answers : Answers} {calls : List PluginCall}
    {result : Except LifecycleError Unit} (h : l.Started answers calls result) :
    result.isOk = true ↔ l.Starts answers := by
  cases h with
  | conflict e clash => exact iff_of_false (by simp [Except.isOk, Except.toBool]) fun h => clash h.1
  | fails done phase rest order distinct succeeded pre p post e plugins before failed =>
    refine iff_of_false (by simp [Except.isOk, Except.toBool]) fun h => ?_
    have hp := h.2 phase p (by simp [plugins])
    simp [failed] at hp
  | starts starts => exact iff_of_true rfl starts

/-- The flag is set once a reload fails, and stays set. -/
theorem reloading_step (s : PluginRun) (op : Operation) :
    (s.step op).plugind.manager.reloading = true ↔ s.plugind.manager.reloading = true ∨
      ∃ host answers, op = .reload host answers ∧ ¬s.Reloads host answers := by
  obtain ⟨result, -, hstepped⟩ := s.stepped op
  generalize s.step op = s' at hstepped
  cases hstepped with
  | start answers calls result started => simp [andCalls]
  | shutdown => simp [andCalls]
  | refused host answers reloading => simp [reloading]
  | undiscovered host answers e idle discovered =>
    simp [andCalls, setReloading, Reloads, discovered]
  | reloaded host answers d calls result idle discovered started =>
    have hok := isOk_of_started started
    simp [andCalls, swapped, idle, Reloads, discovered, ← hok]

end PluginRun

def Operation.IsReload (op : Operation) : Prop := ∃ host answers, op = reload host answers

namespace PluginRun

/-- Exactly a reload while the flag is set is refused. -/
theorem refused_iff (s : PluginRun) (op : Operation) :
    s.result op = some (.error .reloadInProgress) ↔
      op.IsReload ∧ s.plugind.manager.reloading = true := by
  obtain ⟨result, hresult, hstepped⟩ := s.stepped op
  have hlifecycle : ∀ r : Except LifecycleError Unit, Unrefused (r.mapError .lifecycle) :=
    unrefused_mapError (by simp)
  rw [hresult, Option.some.injEq]
  generalize s.step op = s' at hstepped
  cases hstepped with
  | start answers calls result started =>
    exact iff_of_false (hlifecycle result) fun ⟨⟨_, _, h⟩, _⟩ => by cases h
  | shutdown => exact iff_of_false (fun h => by cases h) fun ⟨⟨_, _, h⟩, _⟩ => by cases h
  | refused host answers reloading => exact iff_of_true rfl ⟨⟨_, _, rfl⟩, reloading⟩
  | undiscovered host answers e idle discovered =>
    refine iff_of_false (fun h => ?_) (by simp [idle])
    obtain rfl := Except.error.inj h
    exact unrefused_discoverAll host _ discovered
  | reloaded host answers d calls result idle discovered started =>
    exact iff_of_false (hlifecycle result) (by simp [idle])

end PluginRun

section Runs

variable (dirs : List String) (d : Discovered) (ops : List Operation)

/-- Once a reload has returned, and not because it was refused, no later one is refused. -/
def Recoverable : Prop :=
  ∀ pre op mid op' post, ops = pre ++ op :: (mid ++ op' :: post) → op.IsReload → op'.IsReload →
    ((managing dirs d).reached pre).result op ≠ some (.error .reloadInProgress) →
    ((managing dirs d).reached (pre ++ op :: mid)).result op' ≠ some (.error .reloadInProgress)

/-- No reload that fails is followed by another. -/
def FailsLast : Prop :=
  ∀ pre host answers mid op post, ops = pre ++ .reload host answers :: (mid ++ op :: post) →
    op.IsReload → ((managing dirs d).reached pre).Reloads host answers

variable {dirs d ops}

theorem reached_concat_managing (op : Operation) :
    (managing dirs d).reached (ops ++ [op]) = ((managing dirs d).reached ops).step op :=
  Machine.reached_concat _ _ _

/-- The flag is set by the first reload that fails. -/
theorem exists_of_reloading
    (h : ((managing dirs d).reached ops).plugind.manager.reloading = true) :
    ∃ pre host answers post, ops = pre ++ .reload host answers :: post ∧
      ((managing dirs d).reached pre).plugind.manager.reloading = false ∧
      ¬((managing dirs d).reached pre).Reloads host answers := by
  induction ops using List.reverseRecOn with
  | nil => cases h
  | append_singleton ops op ih =>
    cases hops : ((managing dirs d).reached ops).plugind.manager.reloading with
    | true =>
      obtain ⟨pre, host, answers, post, rfl, hpre⟩ := ih hops
      exact ⟨pre, host, answers, post ++ [op], by simp, hpre⟩
    | false =>
      rw [reached_concat_managing, PluginRun.reloading_step, hops] at h
      obtain ⟨host, answers, rfl, hfails⟩ := h.resolve_left (by simp)
      exact ⟨ops, host, answers, [], rfl, hops, hfails⟩

/-- It is set after every reload that fails. -/
theorem reloading_of_fails {pre post : List Operation} {host : Host} {answers : Answers}
    (h : ¬((managing dirs d).reached pre).Reloads host answers) :
    ((managing dirs d).reached
      (pre ++ .reload host answers :: post)).plugind.manager.reloading = true := by
  induction post using List.reverseRecOn with
  | nil =>
    rw [reached_concat_managing, PluginRun.reloading_step]
    exact .inr ⟨host, answers, rfl, h⟩
  | append_singleton post op ih =>
    rw [← List.cons_append, ← List.append_assoc, reached_concat_managing, PluginRun.reloading_step]
    exact .inl ih

end Runs

/-- Reloads are recoverable in exactly the runs in which no reload that fails is followed by
another one. -/
theorem reload_recoverable_iff (dirs : List String) (d : Discovered) (ops : List Operation) :
    Recoverable dirs d ops ↔ FailsLast dirs d ops := by
  constructor
  · intro h pre host answers mid op post hops hop
    by_contra hfails
    cases hpre : ((managing dirs d).reached pre).plugind.manager.reloading with
    | false =>
      refine h pre (.reload host answers) mid op post hops ⟨_, _, rfl⟩ hop ?_ ?_
      · simp [PluginRun.refused_iff, hpre]
      · exact (PluginRun.refused_iff _ _).mpr ⟨hop, reloading_of_fails hfails⟩
    | true =>
      -- this one is refused itself, for one that failed before
      obtain ⟨pre₀, host₀, answers₀, post₀, rfl, hpre₀, -⟩ := exists_of_reloading hpre
      refine h pre₀ (.reload host₀ answers₀) post₀ (.reload host answers) (mid ++ op :: post)
        (by simp [hops]) ⟨_, _, rfl⟩ ⟨_, _, rfl⟩ ?_ ?_
      · simp [PluginRun.refused_iff, hpre₀]
      · exact (PluginRun.refused_iff _ _).mpr ⟨⟨_, _, rfl⟩, hpre⟩
  · intro h pre op mid op' post hops hop hop' _ hrefused
    obtain ⟨-, hreloading⟩ := (PluginRun.refused_iff _ _).mp hrefused
    obtain ⟨pre₀, host, answers, post₀, hpre₀, -, hfails⟩ := exists_of_reloading hreloading
    refine hfails (h pre₀ host answers post₀ op' post ?_ hop')
    rw [hops]
    simpa using congrArg (· ++ op' :: post) hpre₀

/-- A host on which every directory reads the same, and no file. -/
def listingHost (listing : Listing) : Host where
  readDir _ := listing
  pathExists _ := false
  readToString _ := .error "not found"
  parseManifest _ := .error "not a manifest"
  instantiate _ := .ok ()

/-- A reload while the directory cannot be read, and one when it can be read again. -/
def unreadableOnce (answers : Answers) : List Operation :=
  [.reload (listingHost (.error (.other "permission denied"))) answers,
    .reload (listingHost (.ok [])) answers]

theorem reload_refused_forever :
    Plugind.new (listingHost (.ok [])) ["plugins"] = .ok (.launch ["plugins"] ⟨[], []⟩) ∧
    ¬Recoverable ["plugins"] ⟨[], []⟩ (unreadableOnce fun _ _ => .ok ()) := by
  refine ⟨rfl, fun h => ?_⟩
  refine h [] _ [] _ [] rfl ⟨_, _, rfl⟩ ⟨_, _, rfl⟩ ?_ rfl
  intro hresult
  cases hresult

end Pan
