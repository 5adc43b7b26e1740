import Mathlib.Data.Set.List
import Pan.FileCaps
import Pan.Locations

namespace Pan

open Fallible

/-! ## Both jails -/

/-- The path that the executor opens for the name of a skill. -/
def SkillCaps.jail (root name : String) : Except ExecError String := FsCaps.jail root name

/-- The path is the root with names behind it. Behind an empty root a dot may come first. -/
def Extends (root path : String) : Prop :=
  ∃ names : List (List Char),
    (components path = components root ++ names.map .normal ∨
      root = "" ∧ components path = .curDir :: names.map .normal) ∧
    location path = location root ++ names.map .normal

/-- A refusal, or a path at the root or under it. -/
def Confined (root : String) : Except ExecError String → Prop
  | .error _ => True
  | .ok path => Extends root path

theorem names_of_jail {root rel path : String} (h : FsCaps.jail root rel = .ok path) :
    ∃ names : List (List Char), below rel = names.map .normal := by
  unfold FsCaps.jail at h
  split_ifs at h
  split at h
  · cases h
  · rename_i hnone
    rw [List.findSome?_eq_none_iff] at hnone
    have hcomponents : below rel ⊆ components rel := List.subset_append_right _ _
    have hnormal : below rel ∈ Set.range (List.map Component.normal) := by
      rw [Set.range_list_map]
      intro c hc
      rcases mem_below hc with rfl | ⟨name, rfl⟩
      · exact absurd (hnone _ (hcomponents hc)) (by simp [FsCaps.refusal])
      · exact ⟨name, rfl⟩
    obtain ⟨names, hnames⟩ := hnormal
    exact ⟨names, hnames.symm⟩

theorem jail_of_names {root rel : String} {names : List (List Char)}
    (hrel : rel.toList.head? ≠ some '/') (hnames : below rel = names.map .normal) :
    FsCaps.jail root rel = .ok (joinPath root rel) := by
  have hnone : (components rel).findSome? (FsCaps.refusal rel) = none := by
    rw [List.findSome?_eq_none_iff]
    have hnormal : ∀ c ∈ below rel, FsCaps.refusal rel c = none := by
      intro c hc
      rw [hnames] at hc
      obtain ⟨name, -, rfl⟩ := List.mem_map.mp hc
      rfl
    intro c hc
    rcases components_of_relative hrel with hcomponents | hcomponents <;> rw [hcomponents] at hc
    · exact hnormal c hc
    · rcases List.mem_cons.mp hc with rfl | hc
      · rfl
      · exact hnormal c hc
  unfold FsCaps.jail
  rw [if_neg hrel, hnone]

theorem confined_jail (root rel : String) : Confined root (FsCaps.jail root rel) := by
  cases h : FsCaps.jail root rel with
  | error e => trivial
  | ok path =>
    obtain ⟨names, hnames⟩ := names_of_jail h
    obtain ⟨rfl, hrel⟩ := jail_eq_ok h
    refine ⟨names, ?_, ?_⟩
    · by_cases hroot : root = ""
      · subst hroot
        rw [joinPath_empty, ← hnames]
        rcases components_of_relative hrel with hcomponents | hcomponents
        · exact Or.inl hcomponents
        · exact Or.inr ⟨rfl, hcomponents⟩
      · left
        rw [components_joinPath hroot, hnames]
    · rw [← Path.join_of_relative hrel, location_join hrel, hnames, foldl_push_names]

/-- A jail refuses the same strings whatever its root is. -/
theorem jail_ok_iff (root root' rel : String) :
    (∃ path, FsCaps.jail root rel = .ok path) ↔ ∃ path, FsCaps.jail root' rel = .ok path := by
  unfold FsCaps.jail
  split_ifs
  · simp
  · cases (components rel).findSome? (FsCaps.refusal rel) <;> simp

/-- For every string each jail refuses it or stays under its root, and they refuse the same. -/
theorem jails_confine (root root' s : String) :
    Confined root (FsCaps.jail root s) ∧ Confined root' (SkillCaps.jail root' s) ∧
      ((∃ path, FsCaps.jail root s = .ok path) ↔ ∃ path, SkillCaps.jail root' s = .ok path) :=
  ⟨confined_jail root s, confined_jail root' s, jail_ok_iff root root' s⟩

/-- A dot in front of a path is kept where the root is empty, and is no name. -/
theorem dot_behind_empty_root :
    FsCaps.jail "" "./a" = .ok "./a" ∧
      ¬∃ names : List (List Char), components "./a" = components "" ++ names.map .normal := by
  refine ⟨rfl, ?_⟩
  rintro ⟨names, hnames⟩
  have hpath : components "./a" = [.curDir, .normal ['a']] := by decide
  have hroot : components "" = [] := by decide
  rw [hpath, hroot] at hnames
  cases names <;> cases hnames

/-! ## The ids of snapshots -/

/-- Two file systems that differ in nothing but what is read of files that are not `own`. -/
structure FileSystem.AgreeOn {W : Type} (own : String → Prop) (fs fs' : FileSystem W) : Prop where
  readToString : ∀ path, own path → fs.readToString path = fs'.readToString path
  read : ∀ path, own path → fs.read path = fs'.read path
  write : fs.write = fs'.write
  createDirAll : fs.createDirAll = fs'.createDirAll
  readDir : fs.readDir = fs'.readDir
  pathExists : fs.pathExists = fs'.pathExists
  isDir : fs.isDir = fs'.isDir
  isFile : fs.isFile = fs'.isFile
  now : fs.now = fs'.now

/-- With this id an undo is the same whatever the files hold that are not in the directory of the
snapshots of its path. -/
def UndoConfined (id : String) : Prop :=
  ∀ (W : Type) (caps : FsCaps) (store : SnapshotStore) (args : Value) (rel path : String)
    (fs fs' : FileSystem W) (fuel : ℕ), caps.snapshotStore = some store →
      argStr args "path" = .ok rel → FsCaps.jail caps.root rel = .ok path →
      (args.get "snapshot_id").bind Value.asStr = some id →
      FileSystem.AgreeOn (DirectlyIn (store.snapDirFor path)) fs fs' →
        caps.execute fs fuel "cap.fs.undo" args = caps.execute fs' fuel "cap.fs.undo" args

section Undo

variable {W : Type} {caps : FsCaps} {store : SnapshotStore} {fs fs' : FileSystem W}

theorem execute_undo {args : Value} {rel path : String} (fuel : ℕ)
    (hrel : argStr args "path" = .ok rel) (hpath : FsCaps.jail caps.root rel = .ok path) :
    caps.execute fs fuel "cap.fs.undo" args = caps.undo fs args path := by
  unfold FsCaps.execute
  rw [hrel]
  change (result (FsCaps.jail caps.root rel) >>= fun path => _) = _
  rw [hpath]
  rfl

theorem restore_agree {own : String → Prop} {path id : String}
    (hagree : FileSystem.AgreeOn own fs fs') (hown : own (store.snapPath path id)) :
    store.restore fs path id = store.restore fs' path id := by
  unfold SnapshotStore.restore FileSystem.createParent
  rw [hagree.read _ hown, hagree.createDirAll, hagree.write]

/-- The snapshots are listed without a look at what they hold. -/
theorem list_agree {own : String → Prop} (path : String) (hagree : FileSystem.AgreeOn own fs fs') :
    store.list fs path = store.list fs' path := by
  unfold SnapshotStore.list
  rw [hagree.readDir, hagree.pathExists]

end Undo

theorem SingleName.undoConfined {id : String} (hid : SingleName (id ++ ".snap")) :
    UndoConfined id := by
  intro W caps store args rel path fs fs' fuel hstore hrel hpath hsome hagree
  rw [execute_undo fuel hrel hpath, execute_undo fuel hrel hpath]
  have hrestore := restore_agree hagree (hid.directlyIn (store.snapDirFor path))
  unfold FsCaps.undo
  simp only [hstore, hsome, list_agree path hagree]
  rw [hrestore]

/-- Files that are all there, in a world that keeps nothing. Some of them can be read. -/
def FileSystem.ofFiles (files : String → Option String) : FileSystem Unit where
  readToString path := return (files path).elim (.error "permission denied") .ok
  read path := return (files path).elim (.error "permission denied") fun text => .ok text.toUTF8
  write _ _ := return .ok ()
  createDirAll _ := return .ok ()
  readDir _ := return .ok []
  pathExists _ := return true
  isDir _ := return false
  isFile _ := return true
  now := return 0

theorem FileSystem.ofFiles_agreeOn {own : String → Prop} {files files' : String → Option String}
    (hown : ∀ path, own path → files path = files' path) :
    AgreeOn own (ofFiles files) (ofFiles files') where
  readToString path h := by simp only [ofFiles, hown path h]
  read path h := by simp only [ofFiles, hown path h]
  write := rfl
  createDirAll := rfl
  readDir := rfl
  pathExists := rfl
  isDir := rfl
  isFile := rfl
  now := rfl

/-- A file that an outcome depends on is an own one, if others make no difference to it. -/
theorem own_of_depends {own : String → Prop} {file : String}
    {outcome : (String → Option String) → Prop}
    (hfile : ∀ files, outcome files ↔ (files file).isSome)
    (hown : ∀ files files', (∀ path, own path → files path = files' path) →
      outcome files → outcome files') : own file := by
  classical
  have hread := hown (fun _ => some "") (fun path => if own path then some "" else none)
    (fun path hpath => by simp [hpath]) ((hfile _).mpr rfl)
  rw [hfile] at hread
  by_contra hnot
  simp [hnot] at hread

def undoArgs (path id : String) : Value :=
  .object [("path", .string path), ("snapshot_id", .string id)]

theorem undo_undoArgs {W : Type} {caps : FsCaps} {store : SnapshotStore} (fs : FileSystem W)
    (hstore : caps.snapshotStore = some store) (rel path id : String) :
    caps.undo fs (undoArgs rel id) path =
      mapErrors ExecError.mk (store.restore fs path id) >>= fun _ =>
        pure (.object [("restored", .string path), ("snapshot_id", .string id)]) := by
  have hlist : (undoArgs rel id).get "_list" = none := rfl
  have hid : ((undoArgs rel id).get "snapshot_id").bind Value.asStr = some id := rfl
  unfold FsCaps.undo
  simp [hstore, hlist, hid]

/-- A snapshot is restored exactly if it can be read. -/
theorem undo_ofFiles (caps : FsCaps) {store : SnapshotStore} (files : String → Option String)
    (hstore : caps.snapshotStore = some store) (path id : String) :
    (∃ value, (caps.undo (.ofFiles files) (undoArgs path id) path).run.run () =
      some (.ok value, ())) ↔ (files (store.snapPath path id)).isSome := by
  rw [undo_undoArgs _ hstore]
  constructor
  · rintro ⟨value, h⟩
    obtain ⟨⟨⟩, w₁, hrestore, -⟩ := bind_eq_ok.mp h
    obtain ⟨content, w₂, hread, -⟩ := bind_eq_ok.mp (mapErrors_eq_ok.mp hrestore)
    have hread := attempt_eq_ok.mp hread
    cases hfile : files (store.snapPath path id) with
    | none => simp [FileSystem.ofFiles, hfile] at hread
    | some text => rfl
  · intro hsome
    obtain ⟨text, hfile⟩ := Option.isSome_iff_exists.mp hsome
    have hread : ((FileSystem.ofFiles files).read (store.snapPath path id)).run () =
        some (.ok text.toUTF8, ()) := by
      simp [FileSystem.ofFiles, hfile]
    have hparent : ((FileSystem.ofFiles files).createParent path).run () = some (.ok (), ()) := by
      unfold FileSystem.createParent
      cases Path.parent path <;> rfl
    exact ⟨_, bind_eq_ok.mpr ⟨(), (), mapErrors_eq_ok.mpr (bind_eq_ok.mpr ⟨_, (),
      attempt_eq_ok.mpr hread, bind_eq_ok.mpr ⟨(), (), attempt_eq_ok.mpr hparent, rfl⟩⟩), rfl⟩⟩

theorem UndoConfined.singleName {id : String} (h : UndoConfined id) :
    SingleName (id ++ ".snap") := by
  by_contra hid
  -- a path whose snapshots lie in a directory that the id does not name
  let path := String.ofList (otherName (id ++ ".snap"))
  let store : SnapshotStore := ⟨"s"⟩
  let caps : FsCaps := ⟨"", some store⟩
  have hrelative : path.toList.head? ≠ some '/' := by
    rw [head_otherName]
    decide
  have hdir : location (store.snapDirFor path) =
      [.normal ['s']] ++ [.normal (otherName (id ++ ".snap"))] := by
    have hescape : (path.map fun c => if c ∈ ['/', '\\'] then '_' else c) = path := by
      rw [← String.toList_inj, String.toList_map, String.toList_ofList]
      refine (List.map_congr_left fun c hc => ?_).trans (List.map_id _)
      rw [mem_otherName hc]
      rfl
    have hroot : location "s" = [.normal ['s']] := by decide
    unfold SnapshotStore.snapDirFor
    rw [hescape, ← Path.join_of_relative hrelative, location_join hrelative, below_otherName, hroot]
    rfl
  have hjail : FsCaps.jail caps.root path = .ok path := by
    have hnames : below path = [otherName (id ++ ".snap")].map .normal := below_otherName _
    rw [jail_of_names hrelative hnames, joinPath_empty]
  have houtside : ¬DirectlyIn (store.snapDirFor path) (store.snapPath path id) :=
    not_directlyIn hid hdir (by rw [hdir]; simp) (normal_otherName_notMem_below _)
  refine houtside (own_of_depends (fun files => undo_ofFiles caps files rfl path id)
    fun files files' hown hread => ?_)
  have hsame := h Unit caps store (undoArgs path id) path path _ _ 0 rfl rfl hjail rfl
    (FileSystem.ofFiles_agreeOn hown)
  rw [execute_undo 0 rfl hjail, execute_undo 0 rfl hjail] at hsame
  rwa [hsame] at hread

theorem undo_confined_iff (id : String) : UndoConfined id ↔ SingleName (id ++ ".snap") :=
  ⟨UndoConfined.singleName, SingleName.undoConfined⟩

/-- With `..` an id leads to the snapshots of another path. -/
theorem undo_reads_other_snapshots : ¬UndoConfined "../g/5" := by
  intro h
  obtain ⟨-, name, hname⟩ := h.singleName
  have hleaves : (below "../g/5.snap").foldlM Component.descend [] = none := by decide
  rw [show "../g/5" ++ ".snap" = "../g/5.snap" from rfl, hleaves] at hname
  cases hname

end Pan
