import Mathlib.Logic.Relation
import Pan.Confinement
import Pan.Disk
import Pan.SnapshotFiles

namespace Pan

open Fallible

section Writes

variable {W : Type} {fs : FileSystem W} {tree : W → Tree} {clock : W → ℕ} {caps : FsCaps}
variable {store : SnapshotStore} {path : String} {w w' : W}

/-! ## Writes -/

/-- A call of `cap.fs.write` for the path succeeds. -/
def WritesTo (caps : FsCaps) (fs : FileSystem W) (path : String) (w w' : W) : Prop :=
  ∃ (fuel : ℕ) (args : Value) (rel : String) (value : Value), argStr args "path" = .ok rel ∧
    FsCaps.jail caps.root rel = .ok path ∧
    (caps.execute fs fuel "cap.fs.write" args).run.run w = some (.ok value, w')

theorem execute_write {args : Value} {rel : String} (fuel : ℕ)
    (hrel : argStr args "path" = .ok rel) (hpath : FsCaps.jail caps.root rel = .ok path) :
    caps.execute fs fuel "cap.fs.write" args = caps.write fs args path := by
  unfold FsCaps.execute
  rw [hrel]
  change (result (FsCaps.jail caps.root rel) >>= fun path => _) = _
  rw [hpath]
  rfl

/-- The entries of the directory are as they were, apart from those of `but`. -/
def KeepsEntries (tree : W → Tree) (dir : String) (but : List Char → Prop) (w w' : W) : Prop :=
  ∀ name, ¬but name → tree w' (entryOf dir name) = tree w (entryOf dir name)

/-- A snapshot of the content is there, taken at the time that the clock shows. -/
structure Snapshotted (tree : W → Tree) (clock : W → ℕ) (dir : String) (content : ByteArray)
    (w w' : W) : Prop where
  later : clock w < clock w'
  taken : tree w' (entryOf dir (snapName (toString (clock w')))) = some (.file content)
  others : KeepsEntries tree dir (· = snapName (toString (clock w'))) w w'

/-- A file that is there is copied, and what is there stays apart from the copies. -/
theorem snapshotBefore_spec (h : fs.Lawful tree) (hclock : fs.Ticking clock)
    (hstore : caps.snapshotStore = some store)
    (hdir : ¬Enters (store.snapDirFor path) (store.snapDirFor path))
    (hrun : (caps.snapshotBefore fs path).run.run w = some (.ok (), w')) :
    (∀ l node, (∀ name, l ≠ entryOf (store.snapDirFor path) name) → tree w l = some node →
        tree w' l = some node) ∧
      (tree w (location path) = none ∧ tree w' = tree w ∧ clock w' = clock w ∨
        ∃ content, tree w (location path) = some (.file content) ∧
          Snapshotted tree clock (store.snapDirFor path) content w w') := by
  unfold FsCaps.snapshotBefore at hrun
  simp only [hstore] at hrun
  obtain ⟨b, w₁, hexists, hrun⟩ := bind_eq_ok.mp hrun
  have hexists := lift_eq_ok.mp hexists
  obtain ⟨hsame, hb⟩ := h.pathExists _ _ _ _ hexists
  have htime := hclock.pathExists _ _ _ _ hexists
  -- without a file there is nothing to snapshot
  cases b with
  | false =>
    obtain ⟨-, rfl⟩ := pure_eq_ok.mp hrun
    rw [hsame]
    refine ⟨fun l node _ hl => hl, Or.inl ⟨?_, rfl, htime⟩⟩
    by_contra hne
    exact Bool.false_ne_true (hb.mpr hne)
  | true =>
    obtain ⟨id, w₂, hsnapshot, hrun⟩ := bind_eq_ok.mp hrun
    obtain ⟨-, rfl⟩ := pure_eq_ok.mp hrun
    obtain ⟨t, content, rfl, hticks, hcontent, htaken, hframe⟩ :=
      snapshot_eq_ok h (mapErrors_eq_ok.mp hsnapshot)
    obtain ⟨hlater, rfl⟩ := hticks clock hclock
    rw [hsame] at hcontent hframe
    refine ⟨fun l node hl hnode => ?_, Or.inr ⟨content, hcontent, ?_, htaken, fun name hname => ?_⟩⟩
    · rcases hframe l (hl _) with heq | ⟨-, hnone, -⟩
      · rw [heq, hnode]
      · rw [hnode] at hnone
        cases hnone
    · rwa [htime] at hlater
    · refine (hframe _ fun heq => hname (entryOf_inj.mp heq)).resolve_right fun hmade => ?_
      exact entryOf_notMem_places hdir name hmade.1

/-- What a write has done to the snapshots of its path, with the directories on the way. -/
theorem WritesTo.spec (h : fs.Lawful tree) (hclock : fs.Ticking clock)
    (hstore : caps.snapshotStore = some store)
    (hdir : ¬Enters (store.snapDirFor path) (store.snapDirFor path))
    (hwrites : WritesTo caps fs path w w') :
    (∃ new, tree w' (location path) = some (.file new)) ∧ ParentMade (tree w') path ∧
      (tree w (location path) = none ∧ clock w' = clock w ∧
          KeepsEntries tree (store.snapDirFor path) (fun _ => False) w w' ∨
        ∃ content, tree w (location path) = some (.file content) ∧
          Snapshotted tree clock (store.snapDirFor path) content w w') := by
  obtain ⟨fuel, args, rel, value, hrel, hpath, hrun⟩ := hwrites
  rw [execute_write fuel hrel hpath] at hrun
  unfold FsCaps.write at hrun
  obtain ⟨text, w₁, htext, hrun⟩ := bind_eq_ok.mp hrun
  obtain ⟨-, rfl⟩ := result_eq_ok.mp htext
  obtain ⟨⟨⟩, w₁, hparent, hrun⟩ := bind_eq_ok.mp hrun
  obtain ⟨⟨⟩, w₂, hsnapshot, hrun⟩ := bind_eq_ok.mp hrun
  obtain ⟨⟨⟩, w₃, hwrite, hrun⟩ := bind_eq_ok.mp hrun
  obtain ⟨-, rfl⟩ := pure_eq_ok.mp hrun
  have hparent := attempt_eq_ok.mp hparent
  have hwrite := attempt_eq_ok.mp hwrite
  have henters := not_enters_snapDirFor store path
  -- the three effects in their order: the parent, the snapshot, the file
  obtain ⟨hframe, hwritten⟩ := h.write _ _ _ _ _ hwrite
  obtain ⟨hnotDir, hnew⟩ := hwritten rfl
  obtain ⟨hstays, hsnapshot⟩ := snapshotBefore_spec h hclock hstore hdir hsnapshot
  have hentry : ∀ name, tree w₃ (entryOf (store.snapDirFor path) name) =
      tree w₂ (entryOf (store.snapDirFor path) name) :=
    fun name => hframe _ (entryOf_ne_location henters name)
  have hbefore := createParent_entry h henters hparent
  refine ⟨⟨_, hnew⟩, fun parent hp l hl => ?_, ?_⟩
  · have hmade := createParent_made h hparent parent hp l hl
    have hkept : tree w₂ l = some .dir := hstays l .dir
      (fun name heq => entryOf_notMem_places henters name (heq ▸ places_parent hp hl)) hmade
    rwa [hframe l fun heq => hnotDir (heq ▸ hkept)]
  · have hstart : clock w₁ = clock w := createParent_clock hclock hparent
    have hend : clock w₃ = clock w₂ := hclock.write _ _ _ _ _ hwrite
    have hfile := createParent_tree h hparent (location path)
    -- a snapshot is taken if and only if there was a file
    rcases hsnapshot with ⟨hnone, hsame, htime⟩ | ⟨content, hcontent, hlater, htaken, hothers⟩
    · refine Or.inl ⟨?_, by rw [hend, htime, hstart], fun name _ => ?_⟩
      · rcases hfile with heq | ⟨-, heq, -⟩
        · rwa [← heq]
        · exact heq
      · rw [hentry, hsame, hbefore]
    · refine Or.inr ⟨content, ?_, ?_⟩
      · rcases hfile with heq | ⟨-, -, heq⟩
        · rwa [← heq]
        · rw [hcontent] at heq
          cases heq
      · rw [← hend] at hlater htaken hothers
        rw [hstart] at hlater
        refine ⟨hlater, by rwa [hentry], fun name hname => ?_⟩
        rw [hentry, hothers name hname, hbefore]

/-! ## The undo -/

/-- The entries of the directory that are listed as snapshots, apart from those before a second,
hold the content. -/
def HoldFrom (tree : Tree) (store : SnapshotStore) (path : String) (second : ℕ)
    (content : ByteArray) : Prop :=
  ∀ (e : DirEntry) m, SnapshotMeta.ofEntry path e = some m → second ≤ m.timestamp →
    tree (entryOf (store.snapDirFor path) e.name.toList) ≠ none →
    tree (entryOf (store.snapDirFor path) e.name.toList) = some (.file content)

/-- The latest snapshot that is listed is one of those that hold the content. -/
theorem latest_holds {t : ℕ} {content : ByteArray} (h : fs.Lawful tree) (ht : t < 2 ^ 64)
    (htaken : tree w (entryOf (store.snapDirFor path) (snapName (toString t))) =
      some (.file content))
    (hhold : HoldFrom (tree w) store path (t / 1000000000) content) {metas : List SnapshotMeta}
    (hlist : (store.list fs path).run.run w = some (.ok metas, w')) :
    ∃ newest, SnapshotMeta.latest metas = some newest ∧
      tree w (location (store.snapPath path newest.id)) = some (.file content) := by
  obtain ⟨-, entries, -, hentries, hmetas⟩ := list_eq_ok h hlist
  -- the snapshot itself is in the list
  obtain ⟨e₀, he₀⟩ := exists_entry_snapName (slash_notMem_toString t)
  have hmem₀ : (⟨toString t, t / 1000000000, path⟩ : SnapshotMeta) ∈ metas :=
    hmetas.mem_iff.mpr (List.mem_filterMap.mpr ⟨e₀, (hentries e₀).mpr (by rw [he₀, htaken]; simp),
      (ofEntry_snapName he₀).mpr ⟨ht, rfl⟩⟩)
  have hspec := latest_spec metas
  cases hlatest : SnapshotMeta.latest metas with
  | none =>
    rw [hlatest] at hspec
    obtain rfl : metas = [] := hspec
    cases hmem₀
  | some newest =>
    rw [hlatest] at hspec
    obtain ⟨hmem, hmax⟩ := hspec
    obtain ⟨e, he, hmeta⟩ := List.mem_filterMap.mp (hmetas.mem_iff.mp hmem)
    refine ⟨newest, rfl, ?_⟩
    obtain ⟨t', hname, -⟩ := ofEntry_eq_some.mp hmeta
    have hid : '/' ∉ newest.id.toList := fun hslash =>
      e.plain.1 (hname ▸ List.mem_append_left _ hslash)
    rw [location_snapPath path hid, ← hname]
    exact hhold e newest hmeta (hmax _ hmem₀) ((hentries e).mp he)

/-- An undo without the id of a snapshot gives the file this content, and fails only if a call of
the file system does. -/
def UndoRestores (caps : FsCaps) (fs : FileSystem W) (tree : W → Tree) (path : String)
    (content : ByteArray) (w : W) : Prop :=
  ∀ (fuel : ℕ) (args : Value) (rel : String), argStr args "path" = .ok rel →
    FsCaps.jail caps.root rel = .ok path → (args.get "_list").bind Value.asBool ≠ some true →
    (args.get "snapshot_id").bind Value.asStr = none →
      (∀ value w', (caps.execute fs fuel "cap.fs.undo" args).run.run w = some (.ok value, w') →
        tree w' (location path) = some (.file content)) ∧
      (fs.Reliable tree → ∃ value w',
        (caps.execute fs fuel "cap.fs.undo" args).run.run w = some (.ok value, w'))

theorem undo_latest {args : Value} (hstore : caps.snapshotStore = some store)
    (hlist : (args.get "_list").bind Value.asBool ≠ some true)
    (hid : (args.get "snapshot_id").bind Value.asStr = none) :
    caps.undo fs args path = mapErrors ExecError.mk (store.restoreLatest fs path) >>= fun id =>
      pure (.object [("restored", .string path), ("snapshot_id", .string id)]) := by
  unfold FsCaps.undo
  simp [hstore, hlist, hid]

theorem undoRestores_of_latest {t : ℕ} {content old : ByteArray} (h : fs.Lawful tree)
    (hstore : caps.snapshotStore = some store) (ht : t < 2 ^ 64)
    (htaken : tree w (entryOf (store.snapDirFor path) (snapName (toString t))) =
      some (.file content))
    (hhold : HoldFrom (tree w) store path (t / 1000000000) content)
    (hold : tree w (location path) = some (.file old)) (hparent : ParentMade (tree w) path) :
    UndoRestores caps fs tree path content w := by
  intro fuel args rel hrel hpath hlist hid
  rw [execute_undo fuel hrel hpath, undo_latest hstore hlist hid]
  constructor
  · intro value w' hrun
    obtain ⟨id, w₁, hrestore, hrun⟩ := bind_eq_ok.mp hrun
    obtain ⟨-, rfl⟩ := pure_eq_ok.mp hrun
    obtain ⟨metas, latest, w₁, hmetas, hlatest', -, hrestored⟩ :=
      restoreLatest_eq_ok.mp (mapErrors_eq_ok.mp hrestore)
    obtain ⟨newest, hlatest, hcontent⟩ := latest_holds h ht htaken hhold hmetas
    -- the list is the same for both, so the one restored is the one that holds the content
    obtain rfl : newest = latest := Option.some.inj (hlatest.symm.trans hlatest')
    obtain ⟨content', hread, hwritten⟩ := restore_eq_ok h hrestored
    rw [(list_eq_ok h hmetas).1, hcontent] at hread
    cases hread
    exact hwritten
  · intro hreliable
    have hdir : tree w (location (store.snapDirFor path)) = some .dir :=
      h.nested w _ _ (by rw [← entryOf, htaken]; simp)
    obtain ⟨metas, w₁, hmetas⟩ := list_succeeds h hreliable hdir
    obtain ⟨newest, hlatest, hcontent⟩ := latest_holds h ht htaken hhold hmetas
    have hsame := (list_eq_ok h hmetas).1
    obtain ⟨w₂, hrestore⟩ := restore_succeeds (w := w₁) h hreliable (hsame ▸ hcontent)
      (hsame ▸ hparent) (hsame ▸ hold)
    exact ⟨_, w₂, bind_eq_ok.mpr ⟨newest.id, w₂, mapErrors_eq_ok.mpr (restoreLatest_eq_ok.mpr
      ⟨metas, newest, w₁, hmetas, hlatest, rfl, hrestore⟩), pure_eq_ok.mpr ⟨rfl, rfl⟩⟩⟩

/-! ## Runs of writes -/

/-- No snapshot of the path is newer than the last look at the clock. -/
def NoneNewer (tree : W → Tree) (clock : W → ℕ) (store : SnapshotStore) (path : String) (w : W) :
    Prop :=
  ∀ (e : DirEntry) m, SnapshotMeta.ofEntry path e = some m →
    tree w (entryOf (store.snapDirFor path) e.name.toList) ≠ none →
      m.timestamp ≤ clock w / 1000000000

theorem WritesTo.noneNewer (h : fs.Lawful tree) (hclock : fs.Ticking clock)
    (hstore : caps.snapshotStore = some store)
    (hdir : ¬Enters (store.snapDirFor path) (store.snapDirFor path))
    (hwrites : WritesTo caps fs path w w') (hnewer : NoneNewer tree clock store path w) :
    NoneNewer tree clock store path w' := by
  intro e m hmeta hentry
  obtain ⟨-, -, ⟨-, htime, hothers⟩ | ⟨content, -, hlater, -, hothers⟩⟩ :=
    hwrites.spec h hclock hstore hdir
  · rw [hothers _ not_false] at hentry
    rw [htime]
    exact hnewer e m hmeta hentry
  · by_cases hname : e.name.toList = snapName (toString (clock w'))
    · obtain ⟨-, rfl⟩ := (ofEntry_snapName hname).mp hmeta
      exact le_rfl
    · rw [hothers _ hname] at hentry
      exact (hnewer e m hmeta hentry).trans (Nat.div_le_div_right hlater.le)

theorem noneNewer_run {w₀ : W} (h : fs.Lawful tree) (hclock : fs.Ticking clock)
    (hstore : caps.snapshotStore = some store)
    (hdir : ¬Enters (store.snapDirFor path) (store.snapDirFor path))
    (hstart : NoneNewer tree clock store path w₀)
    (hrun : Relation.ReflTransGen (WritesTo caps fs path) w₀ w) :
    NoneNewer tree clock store path w := by
  induction hrun with
  | refl => exact hstart
  | tail _ hwrites ih => exact hwrites.noneNewer h hclock hstore hdir ih

def HoldsIn (tree : Tree) (store : SnapshotStore) (path : String) (second : ℕ)
    (content : ByteArray) : Prop :=
  ∀ (e : DirEntry) m, SnapshotMeta.ofEntry path e = some m → m.timestamp = second →
    tree (entryOf (store.snapDirFor path) e.name.toList) ≠ none →
    tree (entryOf (store.snapDirFor path) e.name.toList) = some (.file content)

/-- After any run of writes to a path, an undo brings back what the last write has replaced, if no
other snapshot of the same second holds anything else. -/
theorem undo_restores_previous {w₀ : W} {content : ByteArray} (h : fs.Lawful tree)
    (hclock : fs.Ticking clock) (hstore : caps.snapshotStore = some store)
    (hdir : ¬Enters (store.snapDirFor path) (store.snapDirFor path))
    (hstart : NoneNewer tree clock store path w₀)
    (hrun : Relation.ReflTransGen (WritesTo caps fs path) w₀ w) (hlast : WritesTo caps fs path w w')
    (hprevious : tree w (location path) = some (.file content)) (htime : clock w' < 2 ^ 64)
    (hsecond : HoldsIn (tree w) store path (clock w' / 1000000000) content) :
    UndoRestores caps fs tree path content w' := by
  have hnewer := noneNewer_run h hclock hstore hdir hstart hrun
  obtain ⟨⟨new, hnew⟩, hparent, ⟨hnone, -⟩ | ⟨previous, hp, hlater, htaken, hothers⟩⟩ :=
    hlast.spec h hclock hstore hdir
  · rw [hprevious] at hnone
    cases hnone
  · obtain rfl : content = previous := by
      rw [hprevious] at hp
      cases hp
      rfl
    refine undoRestores_of_latest h hstore htime htaken (fun e m hmeta hle hentry => ?_) hnew
      hparent
    by_cases hname : e.name.toList = snapName (toString (clock w'))
    · rw [hname, htaken]
    · -- an older entry, so no newer than the second of the last write
      rw [hothers _ hname] at hentry ⊢
      have hupper := (hnewer e m hmeta hentry).trans (Nat.div_le_div_right hlater.le)
      exact hsecond e m hmeta (hupper.antisymm hle) hentry

end Writes

/-! ## Two writes within a second -/

namespace QuickWrites

/-- The file `f`, with its snapshots under `s`. -/
def caps : FsCaps := ⟨"", some ⟨"s"⟩⟩

def args (text : String) : Value := .object [("content", .string text), ("path", .string "f")]

def snapshotFile (id : String) : List Component :=
  [.normal ['s'], .normal ['f'], .normal (snapName id)]

def before : Disk := Disk.empty.put [.normal ['f']] (.file "a".toUTF8) (by decide)

/-- The file holds `b`, and its first snapshot `a`. -/
def once : Disk :=
  (((before.tick.put [.normal ['s']] .dir (by decide)).put [.normal ['s'], .normal ['f']] .dir
    (by decide)).put (snapshotFile "1") (.file "a".toUTF8) (by decide)).put [.normal ['f']]
      (.file "b".toUTF8) (by decide)

/-- The file holds `c`, and its second snapshot `b`. -/
def twice : Disk :=
  (once.tick.put (snapshotFile "2") (.file "b".toUTF8) (by decide)).put [.normal ['f']]
    (.file "c".toUTF8) (by decide)

theorem snapDirFor : SnapshotStore.snapDirFor ⟨"s"⟩ "f" = "s/f" := by
  rw [snapDirFor_eq]
  rfl

theorem jail_f : FsCaps.jail caps.root "f" = .ok "f" := rfl

theorem writesTo_once : WritesTo caps Disk.fs "f" before once := by
  refine ⟨0, args "b", "f", .object [("bytes", .number (.posInt 1))], rfl, jail_f, ?_⟩
  rw [execute_write 0 rfl jail_f]
  unfold FsCaps.write FsCaps.snapshotBefore caps SnapshotStore.snapshot SnapshotStore.snapPath
  simp only [snapDirFor]
  rfl

theorem writesTo_twice : WritesTo caps Disk.fs "f" once twice := by
  refine ⟨0, args "c", "f", .object [("bytes", .number (.posInt 1))], rfl, jail_f, ?_⟩
  rw [execute_write 0 rfl jail_f]
  unfold FsCaps.write FsCaps.snapshotBefore caps SnapshotStore.snapshot SnapshotStore.snapPath
  simp only [snapDirFor]
  rfl

/-- Both snapshots are of the second 0, and the newer one is listed first. -/
theorem list_twice : (SnapshotStore.list ⟨"s"⟩ Disk.fs "f").run.run twice =
    some (.ok [⟨"2", 0, "f"⟩, ⟨"1", 0, "f"⟩], twice) := by
  have hsorted : [(⟨"2", 0, "f"⟩ : SnapshotMeta), ⟨"1", 0, "f"⟩].mergeSort
      (fun a b => decide (b.timestamp ≤ a.timestamp)) = [⟨"2", 0, "f"⟩, ⟨"1", 0, "f"⟩] :=
    List.mergeSort_of_pairwise (by simp)
  unfold SnapshotStore.list
  simp only [snapDirFor]
  refine bind_eq_ok.mpr ⟨true, twice, rfl, bind_eq_ok.mpr ⟨_, twice, rfl, bind_eq_ok.mpr
    ⟨[⟨"2.snap", by decide⟩, ⟨"1.snap", by decide⟩], twice, rfl, pure_eq_ok.mpr ⟨?_, rfl⟩⟩⟩⟩
  exact hsorted

theorem not_undoRestores :
    ¬UndoRestores caps Disk.fs Disk.tree "f" "b".toUTF8 twice := by
  intro h
  let restored : Disk := twice.put [.normal ['f']] (.file "a".toUTF8) (by decide)
  have hundo : (caps.execute Disk.fs 0 "cap.fs.undo" (.object [("path", .string "f")])).run.run
      twice = some (.ok (.object [("restored", .string "f"), ("snapshot_id", .string "1")]),
        restored) := by
    have hrestore : (SnapshotStore.restore ⟨"s"⟩ Disk.fs "f" "1").run.run twice =
        some (.ok (), restored) := by
      unfold SnapshotStore.restore SnapshotStore.snapPath
      simp only [snapDirFor]
      rfl
    rw [execute_undo 0 rfl jail_f, undo_latest rfl (by decide) rfl]
    exact bind_eq_ok.mpr ⟨"1", restored, mapErrors_eq_ok.mpr (restoreLatest_eq_ok.mpr
      ⟨_, ⟨"1", 0, "f"⟩, twice, list_twice, rfl, rfl, hrestore⟩), rfl⟩
  have hcontent := (h 0 _ "f" rfl jail_f (by decide) rfl).1 _ _ hundo
  have ha : restored.tree (location "f") = some (.file "a".toUTF8) := rfl
  rw [ha] at hcontent
  exact absurd hcontent (by decide)

end QuickWrites

/-- The undo brings back the content before both writes. -/
theorem undo_takes_older_snapshot :
    WritesTo QuickWrites.caps Disk.fs "f" QuickWrites.before QuickWrites.once ∧
      WritesTo QuickWrites.caps Disk.fs "f" QuickWrites.once QuickWrites.twice ∧
      QuickWrites.once.tree (location "f") = some (.file "b".toUTF8) ∧
      ¬UndoRestores QuickWrites.caps Disk.fs Disk.tree "f" "b".toUTF8 QuickWrites.twice :=
  ⟨QuickWrites.writesTo_once, QuickWrites.writesTo_twice, rfl, QuickWrites.not_undoRestores⟩

/-! ## Two writes in different seconds -/

namespace SlowWrites

def snapshotDir : List Component := [.normal ['s'], .normal ['f']]

def before : Disk := Disk.empty.put [.normal ['f']] (.file "a".toUTF8) (by decide)

/-- The file holds `b`, and its first snapshot `a`. -/
def once : Disk :=
  ((({ before with time := 1000000000 }.put [.normal ['s']] .dir (by decide)).put snapshotDir .dir
    (by decide)).put (QuickWrites.snapshotFile "1000000000") (.file "a".toUTF8)
      (by decide)).put [.normal ['f']] (.file "b".toUTF8) (by decide)

/-- The file holds `c`, and its second snapshot `b`. -/
def twice : Disk :=
  ({ once with time := 2000000000 }.put (QuickWrites.snapshotFile "2000000000")
    (.file "b".toUTF8) (by decide)).put [.normal ['f']] (.file "c".toUTF8) (by decide)

theorem writesTo_once : WritesTo QuickWrites.caps Disk.slowFs "f" before once := by
  refine ⟨0, QuickWrites.args "b", "f", .object [("bytes", .number (.posInt 1))], rfl,
    QuickWrites.jail_f, ?_⟩
  rw [execute_write 0 rfl QuickWrites.jail_f]
  unfold FsCaps.write FsCaps.snapshotBefore QuickWrites.caps SnapshotStore.snapshot
    SnapshotStore.snapPath
  simp only [QuickWrites.snapDirFor]
  rfl

theorem writesTo_twice : WritesTo QuickWrites.caps Disk.slowFs "f" once twice := by
  refine ⟨0, QuickWrites.args "c", "f", .object [("bytes", .number (.posInt 1))], rfl,
    QuickWrites.jail_f, ?_⟩
  rw [execute_write 0 rfl QuickWrites.jail_f]
  unfold FsCaps.write FsCaps.snapshotBefore QuickWrites.caps SnapshotStore.snapshot
    SnapshotStore.snapPath
  simp only [QuickWrites.snapDirFor]
  rfl

theorem location_entry (e : DirEntry) :
    entryOf (SnapshotStore.snapDirFor ⟨"s"⟩ "f") e.name.toList =
      snapshotDir ++ [.normal e.name.toList] := by
  have hdir : location "s/f" = snapshotDir := rfl
  rw [QuickWrites.snapDirFor, entryOf, hdir]

/-- The only snapshot before the second write is of the second 1. -/
theorem timestamp_once {e : DirEntry} {m : SnapshotMeta}
    (hmeta : SnapshotMeta.ofEntry "f" e = some m)
    (hentry : once.tree (entryOf (SnapshotStore.snapDirFor ⟨"s"⟩ "f") e.name.toList) ≠ none) :
    m.timestamp = 1 := by
  by_cases hname : e.name.toList = snapName "1000000000"
  · have hid : toString 1000000000 = "1000000000" := rfl
    rw [← hid] at hname
    obtain ⟨-, rfl⟩ := (ofEntry_snapName hname).mp hmeta
    rfl
  · refine absurd ?_ hentry
    rw [location_entry, once, Disk.tree_put, if_neg (by simp [snapshotDir]), Disk.tree_put, if_neg]
    · rfl
    · simpa [snapshotDir, QuickWrites.snapshotFile] using hname

end SlowWrites

/-- The second of the two is undone. -/
theorem undo_restores_second_write :
    UndoRestores QuickWrites.caps Disk.slowFs Disk.tree "f" "b".toUTF8 SlowWrites.twice := by
  have hdir : ¬Enters "s/f" "s/f" := not_enters_self (by decide)
  rw [← QuickWrites.snapDirFor] at hdir
  refine undo_restores_previous Disk.lawful_slowFs Disk.ticking_slowFs rfl hdir ?_
    (.single SlowWrites.writesTo_once) SlowWrites.writesTo_twice rfl (by decide) ?_
  · intro e m _ hentry
    rw [SlowWrites.location_entry] at hentry
    exact absurd rfl hentry
  · intro e m hmeta hsecond hentry
    have hfirst := SlowWrites.timestamp_once hmeta hentry
    rw [hfirst] at hsecond
    exact absurd hsecond (by decide)

end Pan
