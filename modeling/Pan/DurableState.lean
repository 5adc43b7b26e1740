import Pan.Library.Text
import Pan.StateWrites

namespace Pan

open Fallible StateCaps StateWorld

/-! ## The store that is opened again -/

/-- Nothing but its own writes changes the file at this path. -/
structure FileSystem.Stores {W : Type} (fs : FileSystem W) (path : String) : Prop where
  read_write : ∀ text w w', (fs.write path text.toUTF8).run w = some (.ok (), w') →
    ∃ w'', (fs.readToString path).run w' = some (.ok text, w'')
  read_read : ∀ r w w', (fs.readToString path).run w = some (r, w') →
    ∃ w'', (fs.readToString path).run w' = some (r, w'')

def StateCaps.reopened {W : Type} (format : StoreFormat) (fs : FileSystem W) (path : String)
    (outside : W) : Option Store :=
  ((withFile format fs path).run outside).map fun r => r.1.2

section Reopened

variable {W : Type} {format : StoreFormat} {fs : FileSystem W} {path : String}

theorem StateCaps.run_withFile (outside : W) : (withFile format fs path).run outside =
    ((fs.readToString path).run outside).map fun r =>
      ((⟨some path⟩, (r.1.toOption.bind format.fromStr).getD []), r.2) := by
  unfold withFile
  rw [StateT.run_bind]
  cases (fs.readToString path).run outside <;> rfl

theorem StateCaps.reopened_eq (outside : W) : reopened format fs path outside =
    ((fs.readToString path).run outside).map fun r =>
      (r.1.toOption.bind format.fromStr).getD [] := by
  unfold reopened
  rw [run_withFile, Option.map_map]
  rfl

/-- A store that has just been opened is opened with the same map again. -/
theorem StateCaps.reopened_of_withFile (hfs : fs.Stores path) {outside outside' : W}
    {caps : StateCaps} {store : Store}
    (h : (withFile format fs path).run outside = some ((caps, store), outside')) :
    reopened format fs path outside' = some store := by
  rw [run_withFile] at h
  obtain ⟨⟨r, w⟩, hread, heq⟩ := Option.map_eq_some_iff.mp h
  cases heq
  obtain ⟨w', hread'⟩ := hfs.read_read r outside w hread
  rw [reopened_eq, hread']
  rfl

/-- The map is what its own text is read as. -/
def StoreFormat.Readable (format : StoreFormat) (store : Store) : Prop :=
  ∀ text, format.toStringPretty store = .ok text → format.fromStr text = some store

/-- After a copy of the map has been written, the store is opened again with the copy. -/
theorem StateCaps.reopened_of_persist (hfs : fs.Stores path) {snapshot : Store}
    (hread : format.Readable snapshot) {w w' : StateWorld W}
    (h : ((⟨some path⟩ : StateCaps).persist format fs snapshot).run.run w = some (.ok (), w')) :
    reopened format fs path w'.outside = some snapshot := by
  obtain ⟨text, w₁, hjson, hwrite⟩ := bind_eq_ok.mp h
  obtain ⟨htext, rfl⟩ := result_mapError_eq_ok.mp hjson
  obtain ⟨⟨r, outside'⟩, hfile, hout⟩ := Option.map_eq_some_iff.mp (attempt_eq_ok.mp hwrite)
  cases hout
  obtain ⟨w₂, hback⟩ := hfs.read_write text w.outside outside' hfile
  rw [reopened_eq, hback]
  exact congrArg (fun store => some (store.getD [])) (hread text htext)

end Reopened

/-! ## Writers -/

/-- A store with the calls that have copied the map and have yet to write their copy. -/
structure StateWriters (κ W : Type) where
  world : StateWorld W
  inFlight : κ → Option Store
  /-- Every call that is not in flight has returned `Ok`. -/
  allOk : Bool

inductive WriterStep (κ : Type) where
  | update (call : κ) (change : Change)
  | persist (call : κ)

section Writers

variable {κ W : Type} [DecidableEq κ] (format : StoreFormat) (fs : FileSystem W)
  (caps : StateCaps)

def StateWriters.update (s : StateWriters κ W) (call : κ) (change : Change) : StateWriters κ W :=
  match s.inFlight call with
  | some _ => s
  | none => { s with
      world := { s.world with store := change.apply s.world.store }
      inFlight := Function.update s.inFlight call (some (change.apply s.world.store)) }

/-- Write the copy and return. A write that hangs never lets its call return `Ok`. -/
def StateWriters.persist (s : StateWriters κ W) (call : κ) : StateWriters κ W :=
  match s.inFlight call with
  | none => s
  | some snapshot =>
    let inFlight := Function.update s.inFlight call none
    match (caps.persist format fs snapshot).run.run s.world with
    | some (.ok (), world) => ⟨world, inFlight, s.allOk⟩
    | some (.error _, world) => ⟨world, inFlight, false⟩
    | none => ⟨s.world, inFlight, false⟩

def StateCaps.writers (κ : Type) [DecidableEq κ] (w : StateWorld W) :
    Machine (StateWriters κ W) (WriterStep κ) where
  init := ⟨w, fun _ => none, true⟩
  step s
    | .update call change => s.update call change
    | .persist call => s.persist format fs caps call

/-- A call on its own is its two steps. -/
theorem StateCaps.writers_alone {capability key : String} {args : Value} {change : Change}
    (hkey : argStr args "key" = .ok key) (hchange : Change.ofCall capability key args = some change)
    {w w' : StateWorld W} {r : Except ExecError Value}
    (h : (caps.execute format fs capability args).run.run w = some (r, w')) (call : κ) :
    (caps.writers format fs κ w).reached [.update call change, .persist call] =
      ⟨w', fun _ => none, r.toOption.isSome⟩ := by
  rw [run_of_change hkey hchange] at h
  obtain ⟨⟨r', w''⟩, hpersist, heq⟩ := Option.map_eq_some_iff.mp h
  cases heq
  cases r' <;>
    simp [Machine.reached, writers, StateWriters.update, StateWriters.persist, hpersist,
      Except.map, Except.toOption]

variable {format fs caps}

def StateWriters.AtRest (s : StateWriters κ W) : Prop := ∀ call, s.inFlight call = none

/-- If every call has returned `Ok`, then the store is opened again with the map in memory. -/
def StateWriters.Durable (format : StoreFormat) (fs : FileSystem W) (path : String)
    (s : StateWriters κ W) : Prop :=
  s.AtRest → s.allOk = true → reopened format fs path s.world.outside = some s.world.store

/-- The copies that are written can be read back. -/
def StateWriters.WritesReadable (format : StoreFormat) (s : StateWriters κ W) :
    WriterStep κ → Prop
  | .persist call => ∀ snapshot ∈ s.inFlight call, format.Readable snapshot
  | .update _ _ => True

/-- The last call to return writes a copy of the map as it is now. -/
def StateWriters.LastWritesCurrent (format : StoreFormat) (fs : FileSystem W) (caps : StateCaps)
    (s : StateWriters κ W) : WriterStep κ → Prop
  | .persist call => ∀ snapshot ∈ s.inFlight call, ∀ w',
      (caps.persist format fs snapshot).run.run s.world = some (.ok (), w') →
      (∀ other ≠ call, s.inFlight other = none) → s.allOk = true → snapshot = s.world.store
  | .update _ _ => True

theorem StateWriters.durable_update {path : String} {s : StateWriters κ W} {call : κ}
    {change : Change} (hs : s.Durable format fs path) :
    (s.update call change).Durable format fs path := by
  unfold update
  split
  · exact hs
  · intro hrest _
    have hcall := hrest call
    simp at hcall

theorem StateWriters.atRest_update {s : StateWriters κ W} {call : κ} {world : StateWorld W}
    {allOk : Bool} :
    (⟨world, Function.update s.inFlight call none, allOk⟩ : StateWriters κ W).AtRest ↔
      ∀ other ≠ call, s.inFlight other = none := by
  unfold AtRest
  refine forall_congr' fun other => ?_
  by_cases hother : other = call
  · simp [hother]
  · simp [hother]

theorem StateWriters.durable_persist {path : String} (hfs : fs.Stores path)
    {s : StateWriters κ W} {call : κ} (hread : s.WritesReadable format (.persist call))
    (hs : s.Durable format fs path) :
    (s.persist format fs ⟨some path⟩ call).Durable format fs path ↔
      s.LastWritesCurrent format fs ⟨some path⟩ (.persist call) := by
  unfold persist LastWritesCurrent
  cases hcall : s.inFlight call with
  | none =>
    refine iff_of_true hs fun snapshot hsnapshot => ?_
    cases hcall.symm.trans hsnapshot
  | some snapshot =>
    dsimp only
    rcases hpersist : ((⟨some path⟩ : StateCaps).persist format fs snapshot).run.run s.world with
      _ | ⟨e | _, world⟩
    · refine iff_of_true (fun _ hok => by cases hok) fun snapshot' hsnapshot w' h => ?_
      obtain rfl := Option.some.inj (hcall.symm.trans hsnapshot)
      rw [hpersist] at h
      cases h
    · refine iff_of_true (fun _ hok => by cases hok) fun snapshot' hsnapshot w' h => ?_
      obtain rfl := Option.some.inj (hcall.symm.trans hsnapshot)
      rw [hpersist] at h
      cases h
    · -- the write has succeeded, so the file holds the snapshot, which need not be the map any more
      have hback := reopened_of_persist hfs (hread snapshot hcall) hpersist
      have hstore : world.store = s.world.store := persist_store hpersist
      unfold Durable
      rw [atRest_update, hback, hstore, Option.some.injEq]
      constructor
      · intro h snapshot' hsnapshot _ _ hrest hok
        obtain rfl := Option.some.inj (hcall.symm.trans hsnapshot)
        exact h hrest hok
      · intro h hrest hok
        exact h snapshot hcall world hpersist hrest hok

/-- From a store that has just been opened, every state at rest is durable exactly if whenever
the last call returns it has written the map as it then is. -/
theorem durable_iff {path : String} (hfs : fs.Stores path) {outside outside' : W}
    {caps : StateCaps} {store : Store}
    (hopen : (withFile format fs path).run outside = some ((caps, store), outside'))
    (es : List (WriterStep κ))
    (hread : (caps.writers format fs κ ⟨store, outside'⟩).Guarded
      (StateWriters.WritesReadable format) es) :
    (∀ pre, pre <+: es →
      ((caps.writers format fs κ ⟨store, outside'⟩).reached pre).Durable format fs path) ↔
    (caps.writers format fs κ ⟨store, outside'⟩).Guarded
      (StateWriters.LastWritesCurrent format fs caps) es := by
  obtain rfl : caps = ⟨some path⟩ := by
    rw [run_withFile] at hopen
    obtain ⟨r, -, heq⟩ := Option.map_eq_some_iff.mp hopen
    exact (congrArg (fun q => q.1.1) heq).symm
  have hback := reopened_of_withFile hfs hopen
  induction es using List.reverseRecOn with
  | nil =>
    refine iff_of_true (fun pre hpre => ?_) (Machine.guarded_nil _)
    -- nothing has been written since the store was read from the file
    obtain rfl := List.prefix_nil.mp hpre
    exact fun _ _ => hback
  | append_singleton es e ih =>
    obtain ⟨hbefore, hlast⟩ := Machine.guarded_concat.mp hread
    rw [Machine.guarded_concat]
    refine Iff.trans ?_ (and_congr_left' (ih hbefore))
    constructor
    · intro h
      have hes := fun pre hpre => h pre (List.prefix_concat_iff.mpr (.inr hpre))
      refine ⟨hes, ?_⟩
      have hstep := h _ List.prefix_rfl
      rw [Machine.reached_concat] at hstep
      cases e with
      | update call change => trivial
      | persist call =>
        exact (StateWriters.durable_persist hfs hlast (hes es List.prefix_rfl)).mp hstep
    · rintro ⟨hes, hguard⟩ pre hpre
      rcases List.prefix_concat_iff.mp hpre with rfl | hpre
      · rw [Machine.reached_concat]
        cases e with
        | update call change => exact StateWriters.durable_update (hes es List.prefix_rfl)
        | persist call =>
          exact (StateWriters.durable_persist hfs hlast (hes es List.prefix_rfl)).mpr hguard
      · exact hes pre hpre

end Writers

/-! ## Two writers -/

def oneFile : FileSystem (Option ByteArray) where
  readToString _ := fun file =>
    some ((file.bind String.fromUTF8?).elim (.error "entity not found") .ok, file)
  read _ := fun file => some (file.elim (.error "entity not found") .ok, file)
  write _ bytes := fun _ => some (.ok (), some bytes)
  createDirAll _ := return .ok ()
  readDir _ := return .error "not a directory"
  pathExists _ := fun file => some (file.isSome, file)
  isDir _ := return false
  isFile _ := fun file => some (file.isSome, file)
  now := return 0

theorem oneFile_stores (path : String) : oneFile.Stores path where
  read_write text w w' h := by
    cases h
    refine ⟨some text.toUTF8, ?_⟩
    change some ((String.fromUTF8? text.toUTF8).elim (.error "entity not found") Except.ok, _) = _
    rw [Text.fromUTF8?_toUTF8]
    rfl
  read_read r w w' h := by
    cases h
    exact ⟨w, rfl⟩

theorem reopened_oneFile (format : StoreFormat) (path text : String) :
    reopened format oneFile path (some text.toUTF8) = some ((format.fromStr text).getD []) := by
  rw [reopened_eq]
  change some (((String.fromUTF8? text.toUTF8).elim (.error "entity not found")
    Except.ok).toOption.bind format.fromStr |>.getD []) = _
  rw [Text.fromUTF8?_toUTF8]
  rfl

theorem entryFormat_reads_one :
    entryFormat.fromStr (entryText "k" "1") = some [("k", .string "1")] := by rfl

theorem entryFormat_reads_two :
    entryFormat.fromStr (entryText "k" "2") = some [("k", .string "2")] := by rfl

/-- Two calls set one key. The first to change the map is the last to write its copy. -/
def crossing : List (WriterStep Bool) :=
  [.update false (.set "k" (.string "1")), .update true (.set "k" (.string "2")), .persist true,
    .persist false]

def crossed : StateWriters Bool (Option ByteArray) :=
  ((⟨some "state.json"⟩ : StateCaps).writers entryFormat oneFile Bool ⟨[], none⟩).reached crossing

/-- Both calls have returned `Ok`, and the file holds the older of the two maps. -/
theorem crossing_not_durable : ¬∀ pre, pre <+: crossing →
    (((⟨some "state.json"⟩ : StateCaps).writers entryFormat oneFile Bool ⟨[], none⟩).reached
      pre).Durable entryFormat oneFile "state.json" := by
  intro h
  have hrest : crossed.AtRest := by
    intro call
    cases call <;> rfl
  have hback := h crossing List.prefix_rfl hrest rfl
  have hfile : reopened entryFormat oneFile "state.json" crossed.world.outside =
      some [("k", .string "1")] := by
    have := reopened_oneFile entryFormat "state.json" (entryText "k" "1")
    rwa [entryFormat_reads_one] at this
  have hstore : crossed.world.store = [("k", .string "2")] := rfl
  rw [crossed] at hfile hstore
  rw [hfile, hstore] at hback
  simp at hback

theorem durable_iff_crossing :
    (∀ pre, pre <+: crossing →
      (((⟨some "state.json"⟩ : StateCaps).writers entryFormat oneFile Bool ⟨[], none⟩).reached
        pre).Durable entryFormat oneFile "state.json") ↔
    ((⟨some "state.json"⟩ : StateCaps).writers entryFormat oneFile Bool ⟨[], none⟩).Guarded
      (StateWriters.LastWritesCurrent entryFormat oneFile ⟨some "state.json"⟩) crossing := by
  have hopen : (withFile entryFormat oneFile "state.json").run none =
      some ((⟨some "state.json"⟩, []), none) := rfl
  refine durable_iff (oneFile_stores "state.json") hopen crossing ?_
  have hone : entryFormat.Readable [("k", .string "1")] := by
    rintro text ⟨⟩
    exact entryFormat_reads_one
  have htwo : entryFormat.Readable [("k", .string "2")] := by
    rintro text ⟨⟩
    exact entryFormat_reads_two
  refine History.always_cons.mpr ⟨trivial, History.always_cons.mpr ⟨trivial,
    History.always_cons.mpr ⟨?_, History.always_cons.mpr ⟨?_, History.always_nil _⟩⟩⟩⟩
  · rintro snapshot ⟨⟩
    exact htwo
  · rintro snapshot ⟨⟩
    exact hone

end Pan
