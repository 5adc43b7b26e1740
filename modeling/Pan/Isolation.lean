import Mathlib.Data.List.Nodup
import Mathlib.Logic.Relation
import Pan.Disk
import Pan.SnapshotFiles

namespace Pan

open Fallible

/-- A snapshot that was taken: of which path, at which time, and what the file held. -/
structure Taken where
  path : String
  time : ℕ
  content : ByteArray

def Taken.toMeta (x : Taken) : SnapshotMeta := ⟨toString x.time, x.time / 1000000000, x.path⟩

/-! ## Where the snapshots are -/

/-- Wherever an id leads, it is to a file that is named as a snapshot. -/
theorem location_snapPath_concat (store : SnapshotStore) (path id : String) :
    ∃ l name, location (store.snapPath path id) = l ++ [.normal (snapName name)] := by
  obtain ⟨stem, hstem⟩ :
      ∃ stem, (store.snapPath path id).toList = stem ++ ".snap".toList := by
    unfold SnapshotStore.snapPath Path.join joinPath
    have hid := toList_snapFile id
    rw [snapName] at hid
    split_ifs
    · exact ⟨_, hid⟩
    · exact ⟨_, by rw [String.toList_append, hid, ← List.append_assoc]⟩
    · exact ⟨_, by rw [String.toList_append, hid, ← List.append_assoc]⟩
  obtain ⟨segments, last, hlast, hsegments⟩ :=
    Text.exists_splitOn_append (by decide : '/' ∉ ".snap".toList) stem
  have hname : snapName (.ofList last) = last ++ ".snap".toList := by
    rw [snapName, String.toList_ofList]
  have hlast' : '/' ∉ (String.ofList last).toList := by rwa [String.toList_ofList]
  have hcomponent := Component.ofSegment_of_plain (snapName_plain hlast').2
  rw [← hname] at hsegments
  unfold location components
  simp only [hstem, hsegments, List.filterMap_append, List.filterMap_cons_some hcomponent,
    List.filterMap_nil, ← List.append_assoc, List.foldl_append]
  exact ⟨_, _, rfl⟩

def snapLocation (store : SnapshotStore) (path id : String) : List Component :=
  entryOf (store.snapDirFor path) (snapName id)

/-- The paths have directories of their own in the store, and neither their ways nor those of the
directories lead through a snapshot. -/
structure Separate (store : SnapshotStore) (P : Set String) : Prop where
  dirs : ∀ p ∈ P, ∀ q ∈ P,
    location (store.snapDirFor p) = location (store.snapDirFor q) → p = q
  files : ∀ p ∈ P, ∀ q ∈ P, ∀ id, snapLocation store q id ∉ places p
  ways : ∀ p ∈ P, ∀ q ∈ P, ∀ id, snapLocation store q id ∉ places (store.snapDirFor p)

theorem Separate.snapLocation_inj {store : SnapshotStore} {P : Set String} (h : Separate store P)
    {p q id id' : String} (hp : p ∈ P) (hq : q ∈ P)
    (heq : snapLocation store p id = snapLocation store q id') : p = q ∧ id = id' := by
  obtain ⟨hdir, hname⟩ := entryOf_eq_iff.mp heq
  exact ⟨h.dirs p hp q hq hdir, snapName_inj.mp hname⟩

theorem toString_injective : Function.Injective (toString : ℕ → String) := by
  intro t t' h
  simp only [Nat.toString_eq_ofList_toDigits, String.ofList_inj] at h
  rw [← Nat.ofDigitChars_ten_toDigits (n := t), h, Nat.ofDigitChars_ten_toDigits]

section Isolation

variable {W : Type} {fs : FileSystem W} {tree : W → Tree} {store : SnapshotStore} {P : Set String}
variable {path id : String} {l : List Component} {w w' : W} {taken taken' : List Taken}

/-! ## What the calls leave alone -/

theorem list_keeps (h : fs.Lawful tree) : Keeps tree (store.list fs path) := by
  refine .bind (.lift fun w b w' hrun => (h.pathExists _ w b w' hrun).1) fun b => ?_
  cases b with
  | false => exact .pure _
  | true =>
    exact .bind (.attempt fun w r w' hrun => (h.readDir _ w r w' hrun).1) fun entries =>
      .bind (.result _) fun _ => .pure _

/-- A restore changes nothing but its path and the way there. -/
theorem restore_keeps (h : fs.Lawful tree) (hl : l ∉ places path) :
    Keeps (fun w => tree w l) (store.restore fs path id) := by
  refine .bind (.attempt fun w r w' hrun => ?_) fun content =>
    .bind (.attempt fun w r w' hrun => ?_) fun _ => .attempt fun w r w' hrun => ?_
  · exact congrFun (h.read _ w r w' hrun).1 l
  · exact (createParent_tree h hrun l).resolve_right fun hmade => hl hmade.1
  · exact (h.write _ _ w r w' hrun).1 l fun heq => hl (heq ▸ location_mem_places path)

theorem restoreLatest_keeps (h : fs.Lawful tree) (hl : l ∉ places path) :
    Keeps (fun w => tree w l) (store.restoreLatest fs path) := by
  refine .bind (fun w r w' hrun => congrFun (list_keeps h w r w' hrun) l) fun metas => ?_
  cases SnapshotMeta.latest metas with
  | some newest => exact .bind (restore_keeps h hl) fun _ => .pure _
  | none => exact .throw _

/-- Nothing is left of a snapshot that could not be written. -/
def FailsClean (fs : FileSystem W) (tree : W → Tree) (store : SnapshotStore) (P : Set String) :
    Prop :=
  ∀ p ∈ P, ∀ id content w e w', fs.write (store.snapPath p id) content w = some (.error e, w') →
    tree w' = tree w

theorem snapshot_error_keeps (h : fs.Lawful tree) (hclean : FailsClean fs tree store P)
    (hpath : path ∈ P) (hl : l ∉ places (store.snapDirFor path)) {e : String}
    (hrun : (store.snapshot fs path).run.run w = some (.error e, w')) : tree w' l = tree w l := by
  unfold SnapshotStore.snapshot at hrun
  rcases bind_eq_error.mp hrun with hread | ⟨content, w₁, hread, hrun⟩
  · obtain ⟨e', hread, -⟩ := attempt_eq_error.mp hread
    exact congrFun (h.read _ _ _ _ hread).1 l
  rcases bind_eq_error.mp hrun with hnow | ⟨t, w₂, hnow, hrun⟩
  · exact (FailsOnly.lift (E := fun _ => False) fs.now _ _ _ hnow).elim
  rw [← (h.read _ _ _ _ (attempt_eq_ok.mp hread)).1, ← h.now _ _ _ (lift_eq_ok.mp hnow)]
  have hmkdir : ∀ {r w'}, fs.createDirAll (store.snapDirFor path) w₂ = some (r, w') →
      tree w' l = tree w₂ l := fun hmade =>
    ((h.createDirAll _ _ _ _ hmade).1 l).resolve_right fun hdir => hl hdir.1
  rcases bind_eq_error.mp hrun with hdir | ⟨⟨⟩, w₃, hdir, hrun⟩
  · obtain ⟨e', hdir, -⟩ := attempt_eq_error.mp hdir
    exact hmkdir hdir
  rw [← hmkdir (attempt_eq_ok.mp hdir)]
  rcases bind_eq_error.mp hrun with hwrite | ⟨⟨⟩, w₄, -, hdone⟩
  · obtain ⟨e', hwrite, -⟩ := attempt_eq_error.mp hwrite
    exact congrFun (hclean path hpath _ _ _ _ _ hwrite) l
  · cases hdone

/-! ## Runs -/

/-- A call on one of the paths, or a change of anything but their snapshots. What is taken is
recorded, newest first. -/
inductive StoreStep (store : SnapshotStore) (fs : FileSystem W) (tree : W → Tree)
    (P : Set String) : W × List Taken → W × List Taken → Prop
  | snapshot {w w' : W} {taken : List Taken} {path : String} {time : ℕ} {content : ByteArray} :
      path ∈ P → (store.snapshot fs path).run.run w = some (.ok (toString time), w') →
      tree w (location path) = some (.file content) →
      StoreStep store fs tree P (w, taken) (w', ⟨path, time, content⟩ :: taken)
  | snapshotError {w w' : W} {taken : List Taken} {path e : String} : path ∈ P →
      (store.snapshot fs path).run.run w = some (.error e, w') →
      StoreStep store fs tree P (w, taken) (w', taken)
  | list {w w' : W} {taken : List Taken} {path : String} {r} : path ∈ P →
      (store.list fs path).run.run w = some (r, w') →
      StoreStep store fs tree P (w, taken) (w', taken)
  | restore {w w' : W} {taken : List Taken} {path id : String} {r} : path ∈ P →
      (store.restore fs path id).run.run w = some (r, w') →
      StoreStep store fs tree P (w, taken) (w', taken)
  | restoreLatest {w w' : W} {taken : List Taken} {path : String} {r} : path ∈ P →
      (store.restoreLatest fs path).run.run w = some (r, w') →
      StoreStep store fs tree P (w, taken) (w', taken)
  | change {w w' : W} {taken : List Taken} :
      (∀ p ∈ P, ∀ id, tree w' (snapLocation store p id) = tree w (snapLocation store p id)) →
      StoreStep store fs tree P (w, taken) (w', taken)

/-- No two snapshots of a path are of the same time. -/
def Fresh (taken : List Taken) : Prop := (taken.map fun x => (x.path, x.time)).Nodup

/-- The snapshots that are there are those that were taken. -/
def Mirrors (store : SnapshotStore) (P : Set String) (tree : Tree) (taken : List Taken) : Prop :=
  ∀ p ∈ P, ∀ id node, tree (snapLocation store p id) = some node ↔
    ∃ x ∈ taken, x.path = p ∧ toString x.time = id ∧ node = .file x.content

theorem Mirrors.congr {tree tree' : Tree} (hrec : Mirrors store P tree taken)
    (h : ∀ p ∈ P, ∀ id, tree' (snapLocation store p id) = tree (snapLocation store p id)) :
    Mirrors store P tree' taken := by
  intro p hp id node
  rw [h p hp id]
  exact hrec p hp id node

/-- A new snapshot is recorded beside the others. -/
theorem Mirrors.snapshot (h : fs.Lawful tree) (hsep : Separate store P) (hpath : path ∈ P)
    {time : ℕ} {content : ByteArray}
    (hrun : (store.snapshot fs path).run.run w = some (.ok (toString time), w'))
    (hcontent : tree w (location path) = some (.file content))
    (hfresh : Fresh (⟨path, time, content⟩ :: taken)) (hrec : Mirrors store P (tree w) taken) :
    Mirrors store P (tree w') (⟨path, time, content⟩ :: taken) := by
  obtain ⟨-, content', -, -, hread, htaken, hframe⟩ := snapshot_eq_ok h hrun
  obtain rfl : content = content' := by
    rw [hcontent] at hread
    cases hread
    rfl
  have hnew : ∀ x ∈ taken, x.path = path → x.time ≠ time := by
    intro x hx hp ht
    refine (List.nodup_cons.mp hfresh).1 (List.mem_map.mpr ⟨x, hx, ?_⟩)
    rw [hp, ht]
  intro p hp id node
  -- the place of the new snapshot is its path's and its second's alone
  by_cases heq : snapLocation store p id = snapLocation store path (toString time)
  · obtain ⟨rfl, rfl⟩ := hsep.snapLocation_inj hp hpath heq
    rw [snapLocation, htaken]
    constructor
    · intro hnode
      cases hnode
      exact ⟨_, List.mem_cons_self, rfl, rfl, rfl⟩
    · rintro ⟨x, hx, hxpath, hxtime, rfl⟩
      rcases List.mem_cons.mp hx with rfl | hx
      · rfl
      · exact absurd (toString_injective hxtime) (hnew x hx hxpath)
  · rw [(hframe _ heq).resolve_right fun hdir => hsep.ways path hpath p hp id hdir.1,
      hrec p hp id node]
    constructor
    · rintro ⟨x, hx, hx'⟩
      exact ⟨x, List.mem_cons_of_mem _ hx, hx'⟩
    · rintro ⟨x, hx, rfl, rfl, hnode⟩
      rcases List.mem_cons.mp hx with rfl | hx
      · exact absurd rfl heq
      · exact ⟨x, hx, rfl, rfl, hnode⟩

theorem StoreStep.records (h : fs.Lawful tree) (hclean : FailsClean fs tree store P)
    (hsep : Separate store P) {s s' : W × List Taken} (hstep : StoreStep store fs tree P s s')
    (hfresh : Fresh s'.2) (hrec : Mirrors store P (tree s.1) s.2) :
    Mirrors store P (tree s'.1) s'.2 := by
  cases hstep with
  | snapshot hpath hrun hcontent => exact hrec.snapshot h hsep hpath hrun hcontent hfresh
  | snapshotError hpath hrun =>
    exact hrec.congr fun p hp id =>
      snapshot_error_keeps h hclean hpath (hsep.ways _ hpath p hp id) hrun
  | list hpath hrun => exact hrec.congr fun p hp id => congrFun (list_keeps h _ _ _ hrun) _
  | restore hpath hrun =>
    exact hrec.congr fun p hp id => restore_keeps h (hsep.files _ hpath p hp id) _ _ _ hrun
  | restoreLatest hpath hrun =>
    exact hrec.congr fun p hp id => restoreLatest_keeps h (hsep.files _ hpath p hp id) _ _ _ hrun
  | change hsame => exact hrec.congr hsame

theorem StoreStep.fresh {s s' : W × List Taken} (hstep : StoreStep store fs tree P s s')
    (hfresh : Fresh s'.2) : Fresh s.2 := by
  cases hstep with
  | snapshot => exact (List.nodup_cons.mp hfresh).2
  | _ => exact hfresh

theorem records_run (h : fs.Lawful tree) (hclean : FailsClean fs tree store P)
    (hsep : Separate store P) {s s' : W × List Taken} (hrec : Mirrors store P (tree s.1) s.2)
    (hrun : Relation.ReflTransGen (StoreStep store fs tree P) s s') (hfresh : Fresh s'.2) :
    Mirrors store P (tree s'.1) s'.2 := by
  induction hrun with
  | refl => exact hrec
  | tail _ hstep ih => exact hstep.records h hclean hsep hfresh (ih (hstep.fresh hfresh))

/-! ## What the calls give -/

/-- A list of the path has exactly the snapshots that were taken of it. -/
def ListsOwn (store : SnapshotStore) (fs : FileSystem W) (w : W) (taken : List Taken)
    (path : String) : Prop :=
  ∀ metas w', (store.list fs path).run.run w = some (.ok metas, w') →
    metas.Perm ((taken.filter (·.path = path)).map Taken.toMeta)

/-- What the path holds after a restore was taken of it. -/
def RestoresOwn (store : SnapshotStore) (fs : FileSystem W) (tree : W → Tree) (w : W)
    (taken : List Taken) (path id : String) : Prop :=
  ∀ w', (store.restore fs path id).run.run w = some (.ok (), w') →
    ∃ x ∈ taken, x.path = path ∧ tree w' (location path) = some (.file x.content)

def RestoresLatestOwn (store : SnapshotStore) (fs : FileSystem W) (tree : W → Tree) (w : W)
    (taken : List Taken) (path : String) : Prop :=
  ∀ id w', (store.restoreLatest fs path).run.run w = some (.ok id, w') →
    ∃ x ∈ taken, x.path = path ∧ tree w' (location path) = some (.file x.content)

theorem nodup_toMeta (hfresh : Fresh taken) : (taken.map Taken.toMeta).Nodup := by
  have hkeys := hfresh.map (Function.injective_id.prodMap toString_injective)
  rw [List.map_map] at hkeys
  refine List.Nodup.of_map (fun m : SnapshotMeta => (m.path, m.id)) ?_
  rwa [List.map_map]

theorem Mirrors.listsOwn (h : fs.Lawful tree) (hpath : path ∈ P) (hfresh : Fresh taken)
    (htimes : ∀ x ∈ taken, x.time < 2 ^ 64) (hrec : Mirrors store P (tree w) taken) :
    ListsOwn store fs w taken path := by
  intro metas w' hrun
  obtain ⟨-, entries, hnodup, hentries, hperm⟩ := list_eq_ok h hrun
  have hnodup' : (entries.filterMap (SnapshotMeta.ofEntry path)).Nodup := by
    refine hnodup.filterMap fun e e' m he he' => ?_
    obtain ⟨-, hname, -⟩ := ofEntry_eq_some.mp he
    obtain ⟨-, hname', -⟩ := ofEntry_eq_some.mp he'
    have hnames : e.name = e'.name := String.toList_inj.mp (hname.trans hname'.symm)
    cases e
    cases e'
    cases hnames
    rfl
  have hown : ((taken.filter (·.path = path)).map Taken.toMeta).Nodup :=
    (nodup_toMeta hfresh).sublist (List.filter_sublist.map _)
  refine hperm.trans ((List.perm_ext_iff_of_nodup hnodup' hown).mpr fun m => ?_)
  simp only [List.mem_filterMap, List.mem_map, List.mem_filter, decide_eq_true_eq]
  constructor
  · rintro ⟨e, he, hm⟩
    obtain ⟨-, hname, -⟩ := ofEntry_eq_some.mp hm
    obtain ⟨node, hnode⟩ := Option.ne_none_iff_exists'.mp ((hentries e).mp he)
    rw [hname] at hnode
    obtain ⟨x, hx, rfl, hid, -⟩ := (hrec path hpath m.id node).mp hnode
    rw [← hid] at hname
    obtain ⟨-, rfl⟩ := (ofEntry_snapName hname).mp hm
    exact ⟨x, ⟨hx, rfl⟩, rfl⟩
  · rintro ⟨x, ⟨hx, rfl⟩, rfl⟩
    obtain ⟨e, he⟩ := exists_entry_snapName (slash_notMem_toString x.time)
    refine ⟨e, (hentries e).mpr ?_, (ofEntry_snapName he).mpr ⟨htimes x hx, rfl⟩⟩
    rw [he]
    exact Option.ne_none_iff_exists'.mpr
      ⟨_, (hrec x.path hpath _ _).mpr ⟨x, hx, rfl, rfl, rfl⟩⟩

theorem Mirrors.restoresOwn (h : fs.Lawful tree) (hpath : path ∈ P)
    (hrec : Mirrors store P (tree w) taken)
    (hid : DirectlyIn (store.snapDirFor path) (store.snapPath path id)) :
    RestoresOwn store fs tree w taken path id := by
  intro w' hrun
  obtain ⟨content, hread, hwritten⟩ := restore_eq_ok h hrun
  obtain ⟨name, hname⟩ := hid
  obtain ⟨l, name', hname'⟩ := location_snapPath_concat store path id
  obtain ⟨-, heq⟩ := List.append_inj' (hname.symm.trans hname') rfl
  rw [hname, heq] at hread
  obtain ⟨x, hx, hxpath, -, hnode⟩ := (hrec path hpath name' _).mp hread
  cases hnode
  exact ⟨x, hx, hxpath, hwritten⟩

theorem Mirrors.restoresLatestOwn (h : fs.Lawful tree) (hpath : path ∈ P) (hfresh : Fresh taken)
    (htimes : ∀ x ∈ taken, x.time < 2 ^ 64) (hrec : Mirrors store P (tree w) taken) :
    RestoresLatestOwn store fs tree w taken path := by
  intro id w' hrun
  obtain ⟨metas, newest, w₁, hlist, hnewest, -, hrestore⟩ := restoreLatest_eq_ok.mp hrun
  have hlatest := latest_spec metas
  rw [hnewest] at hlatest
  have hperm := hrec.listsOwn h hpath hfresh htimes metas w₁ hlist
  obtain ⟨x, -, rfl⟩ := List.mem_map.mp (hperm.mem_iff.mp hlatest.1)
  have hrec' := hrec.congr fun p _ id => congrFun (list_eq_ok h hlist).1 (snapLocation store p id)
  exact hrec'.restoresOwn h hpath
    ⟨_, location_snapPath path (slash_notMem_toString x.time)⟩ w' hrestore

/-- On paths with directories of their own, the snapshots of different paths never mix. -/
theorem snapshots_isolated {w₀ : W} (h : fs.Lawful tree) (hclean : FailsClean fs tree store P)
    (hsep : Separate store P) (hstart : ∀ p ∈ P, ∀ id, tree w₀ (snapLocation store p id) = none)
    (hrun : Relation.ReflTransGen (StoreStep store fs tree P) (w₀, []) (w, taken))
    (hfresh : Fresh taken) (htimes : ∀ x ∈ taken, x.time < 2 ^ 64) :
    ∀ p ∈ P, ListsOwn store fs w taken p ∧ RestoresLatestOwn store fs tree w taken p ∧
      ∀ id, DirectlyIn (store.snapDirFor p) (store.snapPath p id) →
        RestoresOwn store fs tree w taken p id := by
  have hempty : Mirrors store P (tree w₀) [] := by
    intro p hp id node
    simp [hstart p hp id]
  have hrec := records_run h hclean hsep hempty hrun hfresh
  exact fun p hp => ⟨hrec.listsOwn h hp hfresh htimes, hrec.restoresLatestOwn h hp hfresh htimes,
    fun id hid => hrec.restoresOwn h hp hid⟩

end Isolation

/-! ## Two files -/

namespace TwoFiles

def before : Disk :=
  (Disk.empty.put [.normal ['g']] (.file "y".toUTF8) (by decide)).put [.normal ['f']]
    (.file "x".toUTF8) (by decide)

def snapshotFile (name : Char) (id : String) : List Component :=
  [.normal ['s'], .normal [name], .normal (snapName id)]

/-- The file `f` has been snapshotted. -/
def once : Disk :=
  ((before.tick.put [.normal ['s']] .dir (by decide)).put [.normal ['s'], .normal ['f']] .dir
    (by decide)).put (snapshotFile 'f' "1") (.file "x".toUTF8) (by decide)

/-- And so has `g`. -/
def twice : Disk :=
  (once.tick.put [.normal ['s'], .normal ['g']] .dir (by decide)).put (snapshotFile 'g' "2")
    (.file "y".toUTF8) (by decide)

def changed : Disk := twice.put [.normal ['f']] (.file "z".toUTF8) (by decide)

def undone : Disk := changed.put [.normal ['f']] (.file "x".toUTF8) (by decide)

/-- The file `g` is restored to what it holds. -/
def after : Disk := undone.put [.normal ['g']] (.file "y".toUTF8) (by decide)

def taken : List Taken := [⟨"g", 2, "y".toUTF8⟩, ⟨"f", 1, "x".toUTF8⟩]

theorem snapDirFor : SnapshotStore.snapDirFor ⟨"s"⟩ "f" = "s/f" ∧
    SnapshotStore.snapDirFor ⟨"s"⟩ "g" = "s/g" := by
  simp only [snapDirFor_eq]
  exact ⟨rfl, rfl⟩

theorem location_snapDirFor {p : String} (hp : p ∈ ({"f", "g"} : Set String)) :
    location (SnapshotStore.snapDirFor ⟨"s"⟩ p) = [.normal ['s'], .normal p.toList] ∧
      (components p).length = 1 ∧ (components (SnapshotStore.snapDirFor ⟨"s"⟩ p)).length = 2 := by
  obtain rfl | rfl := hp
  · rw [snapDirFor.1]
    exact ⟨rfl, rfl, rfl⟩
  · rw [snapDirFor.2]
    exact ⟨rfl, rfl, rfl⟩

/-- No way is long enough to lead through a directory of snapshots. -/
theorem separate : Separate ⟨"s"⟩ {"f", "g"} where
  dirs := by
    intro p hp q hq h
    rw [(location_snapDirFor hp).1, (location_snapDirFor hq).1] at h
    have hnames : p.toList = q.toList := by simpa using h
    exact String.toList_inj.mp hnames
  files := by
    intro p hp q hq id
    refine entryOf_notMem_places (fun h => ?_) _
    have hlength := h.length_lt
    rw [(location_snapDirFor hq).1, (location_snapDirFor hp).2.1] at hlength
    simp at hlength
  ways := by
    intro p hp q hq id
    refine entryOf_notMem_places (fun h => ?_) _
    have hlength := h.length_lt
    rw [(location_snapDirFor hq).1, (location_snapDirFor hp).2.2] at hlength
    simp at hlength

theorem list_changed : (SnapshotStore.list ⟨"s"⟩ Disk.fs "f").run.run changed =
    some (.ok [⟨"1", 0, "f"⟩], changed) := by
  unfold SnapshotStore.list
  simp only [snapDirFor.1]
  refine bind_eq_ok.mpr ⟨true, changed, rfl, bind_eq_ok.mpr ⟨_, changed, rfl, bind_eq_ok.mpr
    ⟨[⟨"1.snap", by decide⟩], changed, rfl, pure_eq_ok.mpr ⟨?_, rfl⟩⟩⟩⟩
  exact List.mergeSort_singleton _

theorem list_after : (SnapshotStore.list ⟨"s"⟩ Disk.fs "g").run.run after =
    some (.ok [⟨"2", 0, "g"⟩], after) := by
  unfold SnapshotStore.list
  simp only [snapDirFor.2]
  refine bind_eq_ok.mpr ⟨true, after, rfl, bind_eq_ok.mpr ⟨_, after, rfl, bind_eq_ok.mpr
    ⟨[⟨"2.snap", by decide⟩], after, rfl, pure_eq_ok.mpr ⟨?_, rfl⟩⟩⟩⟩
  exact List.mergeSort_singleton _

/-- Both are snapshotted, `f` is changed, listed and restored from its latest snapshot, and `g` is
restored from the one with its id and listed. -/
theorem run : Relation.ReflTransGen (StoreStep ⟨"s"⟩ Disk.fs Disk.tree {"f", "g"}) (before, [])
    (after, taken) := by
  have hf : StoreStep ⟨"s"⟩ Disk.fs Disk.tree {"f", "g"} (before, [])
      (once, [⟨"f", 1, "x".toUTF8⟩]) := by
    refine .snapshot (.inl rfl) ?_ rfl
    unfold SnapshotStore.snapshot SnapshotStore.snapPath
    simp only [snapDirFor.1]
    rfl
  have hg : StoreStep ⟨"s"⟩ Disk.fs Disk.tree {"f", "g"} (once, [⟨"f", 1, "x".toUTF8⟩])
      (twice, taken) := by
    refine .snapshot (.inr rfl) ?_ rfl
    unfold SnapshotStore.snapshot SnapshotStore.snapPath
    simp only [snapDirFor.2]
    rfl
  have hchange : StoreStep ⟨"s"⟩ Disk.fs Disk.tree {"f", "g"} (twice, taken) (changed, taken) := by
    refine .change fun p hp id => ?_
    rw [changed, Disk.tree_put, if_neg]
    rw [snapLocation, entryOf, (location_snapDirFor hp).1]
    simp
  have hundo : (SnapshotStore.restoreLatest ⟨"s"⟩ Disk.fs "f").run.run changed =
      some (.ok "1", undone) := by
    refine restoreLatest_eq_ok.mpr ⟨_, ⟨"1", 0, "f"⟩, changed, list_changed, rfl, rfl, ?_⟩
    unfold SnapshotStore.restore SnapshotStore.snapPath
    simp only [snapDirFor.1]
    rfl
  have hrestore : (SnapshotStore.restore ⟨"s"⟩ Disk.fs "g" "2").run.run undone =
      some (.ok (), after) := by
    unfold SnapshotStore.restore SnapshotStore.snapPath
    simp only [snapDirFor.2]
    rfl
  exact .tail (.tail (.tail (.tail (.tail (.tail (.single hf) hg) hchange)
    (.list (.inl rfl) list_changed)) (.restoreLatest (.inl rfl) hundo))
    (.restore (.inr rfl) hrestore)) (.list (.inr rfl) list_after)

end TwoFiles

/-- What is listed of `f` and of `g` was taken of it, and so is what is restored to it. -/
theorem snapshots_isolated_two :
    (ListsOwn ⟨"s"⟩ Disk.fs TwoFiles.after TwoFiles.taken "f" ∧
      RestoresLatestOwn ⟨"s"⟩ Disk.fs Disk.tree TwoFiles.after TwoFiles.taken "f" ∧
      RestoresOwn ⟨"s"⟩ Disk.fs Disk.tree TwoFiles.after TwoFiles.taken "f" "1") ∧
    ListsOwn ⟨"s"⟩ Disk.fs TwoFiles.after TwoFiles.taken "g" ∧
      RestoresLatestOwn ⟨"s"⟩ Disk.fs Disk.tree TwoFiles.after TwoFiles.taken "g" ∧
      RestoresOwn ⟨"s"⟩ Disk.fs Disk.tree TwoFiles.after TwoFiles.taken "g" "2" := by
  have hstart : ∀ p ∈ ({"f", "g"} : Set String), ∀ id,
      Disk.tree TwoFiles.before (snapLocation ⟨"s"⟩ p id) = none := by
    intro p hp id
    rw [snapLocation, entryOf, (TwoFiles.location_snapDirFor hp).1]
    rfl
  have hown := snapshots_isolated Disk.lawful
    (fun p _ id content d e d' h => by rw [Disk.eq_of_write_error h]) TwoFiles.separate hstart
    TwoFiles.run (by simp [Fresh, TwoFiles.taken]) (by simp [TwoFiles.taken])
  obtain ⟨hlists, hlatest, hrestores⟩ := hown "f" (.inl rfl)
  obtain ⟨hlists', hlatest', hrestores'⟩ := hown "g" (.inr rfl)
  refine ⟨⟨hlists, hlatest, hrestores "1" ?_⟩, hlists', hlatest', hrestores' "2" ?_⟩
  · rw [SnapshotStore.snapPath, TwoFiles.snapDirFor.1]
    exact ⟨_, rfl⟩
  · rw [SnapshotStore.snapPath, TwoFiles.snapDirFor.2]
    exact ⟨_, rfl⟩

/-! ## Two paths with one name -/

namespace TwoNames

/-- The file `b` in the directory `a`. -/
def before : Disk :=
  (Disk.empty.put [.normal ['a']] .dir (by decide)).put [.normal ['a'], .normal ['b']]
    (.file "x".toUTF8) (by decide)

def snapshotDir : List Component := [.normal ['s'], .normal ['a', '_', 'b']]

def after : Disk :=
  ((before.tick.put [.normal ['s']] .dir (by decide)).put snapshotDir .dir (by decide)).put
    (snapshotDir ++ [.normal (snapName "1")]) (.file "x".toUTF8) (by decide)

def taken : List Taken := [⟨"a/b", 1, "x".toUTF8⟩]

theorem snapDirFor : SnapshotStore.snapDirFor ⟨"s"⟩ "a/b" = "s/a_b" ∧
    SnapshotStore.snapDirFor ⟨"s"⟩ "a_b" = "s/a_b" := by
  simp only [snapDirFor_eq]
  exact ⟨rfl, rfl⟩

theorem snapshot_step {P : Set String} (hP : "a/b" ∈ P) :
    StoreStep ⟨"s"⟩ Disk.fs Disk.tree P (before, []) (after, taken) := by
  refine .snapshot hP ?_ rfl
  unfold SnapshotStore.snapshot SnapshotStore.snapPath
  simp only [snapDirFor.1]
  rfl

/-- The snapshot is listed for the other path. -/
theorem list_after : (SnapshotStore.list ⟨"s"⟩ Disk.fs "a_b").run.run after =
    some (.ok [⟨"1", 0, "a_b"⟩], after) := by
  unfold SnapshotStore.list
  simp only [snapDirFor.2]
  refine bind_eq_ok.mpr ⟨true, after, rfl, bind_eq_ok.mpr ⟨_, after, rfl, bind_eq_ok.mpr
    ⟨[⟨"1.snap", by decide⟩], after, rfl, pure_eq_ok.mpr ⟨?_, rfl⟩⟩⟩⟩
  exact List.mergeSort_singleton _

/-- And restored to it. -/
theorem restoreLatest_after : ∃ w', (SnapshotStore.restoreLatest ⟨"s"⟩ Disk.fs "a_b").run.run
    after = some (.ok "1", w') := by
  refine ⟨after.put [.normal ['a', '_', 'b']] (.file "x".toUTF8) (by decide),
    restoreLatest_eq_ok.mpr ⟨_, ⟨"1", 0, "a_b"⟩, after, list_after, rfl, rfl, ?_⟩⟩
  unfold SnapshotStore.restore SnapshotStore.snapPath
  simp only [snapDirFor.2]
  rfl

end TwoNames

/-- The snapshot of `a/b` is listed for `a_b`, and restored to it. -/
theorem snapshots_mix :
    StoreStep ⟨"s"⟩ Disk.fs Disk.tree {"a/b", "a_b"} (TwoNames.before, [])
        (TwoNames.after, TwoNames.taken) ∧
      ¬ListsOwn ⟨"s"⟩ Disk.fs TwoNames.after TwoNames.taken "a_b" ∧
      ¬RestoresLatestOwn ⟨"s"⟩ Disk.fs Disk.tree TwoNames.after TwoNames.taken "a_b" := by
  refine ⟨TwoNames.snapshot_step (Or.inl rfl), fun h => ?_, fun h => ?_⟩
  · have hlength := (h _ _ TwoNames.list_after).length_eq
    exact absurd hlength (by decide)
  · obtain ⟨w', hrun⟩ := TwoNames.restoreLatest_after
    obtain ⟨x, hx, hpath, -⟩ := h _ _ hrun
    rw [List.mem_singleton.mp hx] at hpath
    exact absurd hpath (by decide)

end Pan
