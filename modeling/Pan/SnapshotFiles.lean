import Pan.Snapshots
import Pan.Trees

namespace Pan

open Fallible

/-! ## Directories of snapshots -/

def escape (path : String) : List Char :=
  path.toList.map fun c => if c ∈ ['/', '\\'] then '_' else c

theorem snapDirFor_eq (store : SnapshotStore) (path : String) :
    store.snapDirFor path = joinPath store.root (.ofList (escape path)) := by
  unfold SnapshotStore.snapDirFor escape
  congr 1
  rw [← String.toList_inj, String.toList_map, String.toList_ofList]

theorem slash_notMem_escape (path : String) : '/' ∉ escape path := by
  unfold escape
  rw [List.mem_map]
  rintro ⟨c, -, hc⟩
  split_ifs at hc with hslash
  · cases hc
  · exact hslash (hc ▸ List.mem_cons_self)

/-- Only separators are escaped. -/
theorem escape_eq_self {path : String} (h : '_' ∉ escape path) : escape path = path.toList := by
  have hmap : ∀ c ∈ path.toList, (if c ∈ ['/', '\\'] then '_' else c) = c := by
    intro c hc
    rw [if_neg]
    intro hslash
    exact h (List.mem_map.mpr ⟨c, hc, if_pos hslash⟩)
  exact (List.map_congr_left hmap).trans (List.map_id' _)

theorem location_snapDirFor (store : SnapshotStore) {path : String}
    (hplain : escape path ≠ [] ∧ escape path ≠ ['.'] ∧ escape path ≠ ['.', '.']) :
    location (store.snapDirFor path) = location store.root ++ [.normal (escape path)] := by
  have hrel : (String.ofList (escape path)).toList.head? ≠ some '/' := by
    rw [String.toList_ofList]
    exact fun h => slash_notMem_escape path (List.mem_of_mem_head? h)
  rw [snapDirFor_eq, ← Path.join_of_relative hrel, location_join hrel,
    below_of_plain (slash_notMem_escape path) hplain]
  rfl

/-- A path without separators has one component at most. -/
theorem length_components_of_no_slash {path : String} (hpath : '/' ∉ path.toList) :
    (components path).length ≤ 1 := by
  have hhead : path.toList.head? ≠ some '/' := fun h => hpath (List.mem_of_mem_head? h)
  unfold components
  simp only [List.splitOn_eq_singleton hpath, hhead, if_false, List.head?_cons, Option.some.injEq]
  split_ifs with hdot
  · rw [hdot]
    exact le_rfl
  · exact List.length_filterMap_le _ _

theorem segment_of_normal {path : String} {name : List Char}
    (h : .normal name ∈ components path) :
    name ∈ path.toList.splitOn '/' ∧ Component.ofSegment name = some (.normal name) := by
  have hbelow : .normal name ∈ below path := by
    unfold components at h
    rcases List.mem_append.mp h with h | h
    · split_ifs at h <;> simp at h
    · exact h
  obtain ⟨s, hs, hname⟩ := List.mem_filterMap.mp hbelow
  obtain rfl : name = s := Component.text_of_ofSegment hname
  exact ⟨hs, hname⟩

/-- A segment as long as its path is the path. -/
theorem slash_notMem_of_segment {path : String} {s : List Char}
    (hs : s ∈ path.toList.splitOn '/') (hlength : path.toList.length ≤ s.length) :
    '/' ∉ path.toList := by
  have hle := (List.sublist_flatten_of_mem hs).length_le
  rw [Text.flatten_splitOn] at hle
  have hall := List.length_filter_eq_length_iff.mp
    ((List.length_filter_le _ _).antisymm (hlength.trans hle))
  intro hmem
  simpa using hall '/' hmem

/-- The way of a path does not lead through its own snapshots: it is too short. -/
theorem not_enters_snapDirFor (store : SnapshotStore) (path : String) :
    ¬Enters (store.snapDirFor path) path := by
  intro henters
  have hlength := henters.length_lt
  obtain ⟨name, l, hl, hentry⟩ := henters
  obtain ⟨cs, hcs, rfl⟩ := mem_places.mp hl
  have hcomponent : ∀ n, .normal n ∈ entryOf (store.snapDirFor path) name →
      .normal n ∈ components path := fun n hn =>
    hcs.subset ((mem_foldl_push (hentry.subset hn)).resolve_left List.not_mem_nil)
  by_cases hplain : escape path ≠ [] ∧ escape path ≠ ['.'] ∧ escape path ≠ ['.', '.']
  · -- the name of the directory is a segment of the path, and as long as the path is
    have hdir := location_snapDirFor store hplain
    have hsegment := (segment_of_normal (hcomponent (escape path)
      (List.mem_append_left _ (hdir ▸ List.mem_append_right _ List.mem_cons_self)))).1
    have hslash := slash_notMem_of_segment hsegment (by simp [escape])
    have hone := length_components_of_no_slash hslash
    rw [hdir, List.length_append] at hlength
    simp only [List.length_cons, List.length_nil] at hlength
    omega
  · -- such a path has no names at all
    obtain ⟨hname, hsegment⟩ :=
      segment_of_normal (hcomponent name (List.mem_append_right _ List.mem_cons_self))
    have hunescaped : '_' ∉ escape path := by
      intro hmem
      simp only [not_and_or, not_not] at hplain
      rcases hplain with h | h | h <;> rw [h] at hmem <;> simp at hmem
    have hself := escape_eq_self hunescaped
    have hslash : '/' ∉ path.toList := hself ▸ slash_notMem_escape path
    rw [List.splitOn_eq_singleton hslash, List.mem_singleton, ← hself] at hname
    rw [← hname] at hplain
    refine hplain ⟨?_, ?_, ?_⟩ <;> rintro rfl <;> simp [Component.ofSegment] at hsegment

/-! ## Files of snapshots -/

def snapName (id : String) : List Char := id.toList ++ ".snap".toList

theorem isDigit_of_mem_toString {t : ℕ} {c : Char} (hc : c ∈ (toString t).toList) :
    c.isDigit = true := by
  rw [Nat.toString_eq_ofList_toDigits, String.toList_ofList] at hc
  exact Nat.isDigit_of_mem_toDigits (by decide) (by decide) hc

theorem slash_notMem_toString (t : ℕ) : '/' ∉ (toString t).toList :=
  fun h => absurd (isDigit_of_mem_toString h) (by decide)

/-- The name of a snapshot gives back its time, if that is not too large. -/
theorem parseU64_toString (t : ℕ) :
    parseU64 (toString t).toList = if t < 2 ^ 64 then some t else none := by
  have hdigits : (toString t).toList = Nat.toDigits 10 t := by
    rw [Nat.toString_eq_ofList_toDigits, String.toList_ofList]
  have hplus : ∀ rest, Nat.toDigits 10 t ≠ '+' :: rest := by
    intro rest h
    have hdigit : '+'.isDigit = true :=
      Nat.isDigit_of_mem_toDigits (by decide) (by decide) (h ▸ List.mem_cons_self)
    exact absurd hdigit (by decide)
  have hall : (Nat.toDigits 10 t).all Char.isDigit = true := by
    rw [List.all_eq_true]
    exact fun c hc => Nat.isDigit_of_mem_toDigits (by decide) (by decide) hc
  have hvalue : (Nat.toDigits 10 t).foldl (fun n c => 10 * n + (c.toNat - '0'.toNat)) 0 = t :=
    Nat.ofDigitChars_ten_toDigits
  unfold parseU64
  rw [hdigits]
  split
  · rename_i rest h
    exact absurd h (hplus rest)
  · simp only [hvalue, hall, Nat.toDigits_ne_nil, ne_eq, not_false_eq_true, true_and]

/-- What is listed as a snapshot. -/
theorem ofEntry_eq_some {path : String} {e : DirEntry} {m : SnapshotMeta} :
    SnapshotMeta.ofEntry path e = some m ↔ ∃ t, e.name.toList = snapName m.id ∧
      parseU64 m.id.toList = some t ∧ m.timestamp = t / 1000000000 ∧ m.path = path := by
  unfold SnapshotMeta.ofEntry
  simp only [Option.bind_eq_bind, Option.bind_eq_some_iff, Option.pure_def, Option.some.injEq,
    List.dropSuffix?_eq_some_iff]
  constructor
  · rintro ⟨nanosStr, ⟨s', hname, hs'⟩, t, ht, rfl⟩
    obtain rfl : s' = ".snap".toList := eq_of_beq hs'
    exact ⟨t, by simpa [snapName] using hname, by simpa using ht, rfl, rfl⟩
  · rintro ⟨t, hname, ht, htime, rfl⟩
    refine ⟨m.id.toList, ⟨".snap".toList, hname, beq_self_eq_true _⟩, t, ht, ?_⟩
    rw [String.ofList_toList, ← htime]

theorem toList_snapFile (id : String) : (s!"{id}.snap").toList = snapName id := by
  simp [snapName, ToString.toString]

theorem snapName_inj {id id' : String} : snapName id = snapName id' ↔ id = id' := by
  unfold snapName
  rw [List.append_left_inj, String.toList_inj]

/-- The entry of a snapshot that was taken at some time. -/
theorem ofEntry_snapName {path : String} {e : DirEntry} {m : SnapshotMeta} {t : ℕ}
    (he : e.name.toList = snapName (toString t)) : SnapshotMeta.ofEntry path e = some m ↔
      t < 2 ^ 64 ∧ m = ⟨toString t, t / 1000000000, path⟩ := by
  rw [ofEntry_eq_some, he]
  constructor
  · rintro ⟨t', hid, ht', htime, hpath⟩
    obtain ⟨id, time, p⟩ := m
    obtain rfl : toString t = id := snapName_inj.mp hid
    rw [parseU64_toString] at ht'
    split_ifs at ht' with ht
    cases ht'
    cases htime
    cases hpath
    exact ⟨ht, rfl⟩
  · rintro ⟨ht, rfl⟩
    exact ⟨t, rfl, by rw [parseU64_toString, if_pos ht], rfl, rfl⟩

theorem snapName_plain {id : String} (hid : '/' ∉ id.toList) :
    '/' ∉ snapName id ∧ snapName id ≠ [] ∧ snapName id ≠ ['.'] ∧ snapName id ≠ ['.', '.'] := by
  have hlength : 5 ≤ (snapName id).length := by
    simp [snapName]
  refine ⟨?_, ?_, ?_, ?_⟩
  · unfold snapName
    rw [List.mem_append, not_or]
    exact ⟨hid, by decide⟩
  all_goals
    intro h
    rw [h] at hlength
    simp at hlength

/-- A snapshot as an entry of its directory. -/
theorem exists_entry_snapName {id : String} (hid : '/' ∉ id.toList) :
    ∃ e : DirEntry, e.name.toList = snapName id := by
  obtain ⟨hslash, hnil, hdot, hdots⟩ := snapName_plain hid
  refine ⟨⟨.ofList (snapName id), by rwa [String.toList_ofList], ?_⟩, String.toList_ofList⟩
  simp only [List.mem_cons, ← String.toList_inj, String.toList_ofList, List.not_mem_nil, or_false,
    not_or]
  exact ⟨hnil, hdot, hdots⟩

theorem latest_newest_concat (metas : List SnapshotMeta) (m : SnapshotMeta) :
    SnapshotMeta.latest (metas ++ [m]) = match SnapshotMeta.latest metas with
      | some b => if m.timestamp < b.timestamp then some b else some m
      | none => some m := by
  unfold SnapshotMeta.latest
  rw [List.foldl_append]
  rfl

/-- The latest snapshot is as late as any. -/
theorem latest_spec (metas : List SnapshotMeta) :
    match SnapshotMeta.latest metas with
    | some m => m ∈ metas ∧ ∀ m' ∈ metas, m'.timestamp ≤ m.timestamp
    | none => metas = [] := by
  induction metas using List.reverseRecOn with
  | nil => rfl
  | append_singleton metas m ih =>
    rw [latest_newest_concat]
    cases hlatest : SnapshotMeta.latest metas with
    | none =>
      rw [hlatest] at ih
      obtain rfl : metas = [] := ih
      simp
    | some b =>
      rw [hlatest] at ih
      obtain ⟨hmem, hmax⟩ := ih
      dsimp only
      split_ifs with hlt
      · refine ⟨List.mem_append_left _ hmem, fun m' hm' => ?_⟩
        rcases List.mem_append.mp hm' with hm' | hm'
        · exact hmax m' hm'
        · exact (List.mem_singleton.mp hm').symm ▸ hlt.le
      · refine ⟨List.mem_append_right _ List.mem_cons_self, fun m' hm' => ?_⟩
        rcases List.mem_append.mp hm' with hm' | hm'
        · exact (hmax m' hm').trans (not_lt.mp hlt)
        · exact (List.mem_singleton.mp hm').symm ▸ le_rfl

theorem location_snapPath {store : SnapshotStore} (path : String) {id : String}
    (hid : '/' ∉ id.toList) :
    location (store.snapPath path id) = entryOf (store.snapDirFor path) (snapName id) := by
  have hname : s!"{id}.snap" = .ofList (snapName id) := by
    rw [← String.toList_inj, toList_snapFile, String.toList_ofList]
  obtain ⟨hslash, hplain⟩ := snapName_plain hid
  have hrel : (String.ofList (snapName id)).toList.head? ≠ some '/' := by
    rw [String.toList_ofList]
    exact fun h => hslash (List.mem_of_mem_head? h)
  unfold SnapshotStore.snapPath
  rw [hname, location_join hrel, below_of_plain hslash hplain]
  rfl

/-! ## Laws of the snapshots -/

/-- The directories on the way to the file are there. -/
def ParentMade (tree : Tree) (path : String) : Prop :=
  ∀ parent, Path.parent path = some parent → ∀ l ∈ places parent, tree l = some .dir

section Laws

variable {W : Type} {fs : FileSystem W} {tree : W → Tree} {store : SnapshotStore} {path : String}
variable {w w' : W}

/-- Directories are made on the way to the parent, and nothing else changes. -/
theorem createParent_tree (h : fs.Lawful tree) {r : Except String Unit}
    (hrun : fs.createParent path w = some (r, w')) (l : List Component) :
    tree w' l = tree w l ∨ l ∈ places path ∧ tree w l = none ∧ tree w' l = some .dir := by
  unfold FileSystem.createParent at hrun
  cases hparent : Path.parent path with
  | none =>
    rw [hparent] at hrun
    cases hrun
    exact Or.inl rfl
  | some parent =>
    rw [hparent] at hrun
    exact ((h.createDirAll parent w r w' hrun).1 l).imp_right
      fun ⟨hl, hnone, hdir⟩ => ⟨places_parent hparent hl, hnone, hdir⟩

theorem createParent_made (h : fs.Lawful tree)
    (hrun : fs.createParent path w = some (.ok (), w')) : ParentMade (tree w') path := by
  intro parent hparent
  unfold FileSystem.createParent at hrun
  rw [hparent] at hrun
  exact (h.createDirAll parent w _ w' hrun).2 rfl

theorem createParent_entry (h : fs.Lawful tree) {r : Except String Unit} {dir : String}
    (henters : ¬Enters dir path) (hrun : fs.createParent path w = some (r, w'))
    (name : List Char) : tree w' (entryOf dir name) = tree w (entryOf dir name) :=
  (createParent_tree h hrun _).resolve_right
    fun hmade => entryOf_notMem_places henters name hmade.1

theorem createParent_clock {clock : W → ℕ} (hclock : fs.Ticking clock) {r : Except String Unit}
    (hrun : fs.createParent path w = some (r, w')) : clock w' = clock w := by
  unfold FileSystem.createParent at hrun
  cases hparent : Path.parent path with
  | none =>
    rw [hparent] at hrun
    cases hrun
    rfl
  | some parent =>
    rw [hparent] at hrun
    exact hclock.createDirAll _ _ _ _ hrun

/-- A snapshot holds what the file holds. Beside it there is only a directory for it. -/
theorem snapshot_eq_ok (h : fs.Lawful tree) {id : String}
    (hrun : (store.snapshot fs path).run.run w = some (.ok id, w')) :
    ∃ t content, id = toString t ∧
      (∀ clock : W → ℕ, fs.Ticking clock → clock w < t ∧ clock w' = t) ∧
      tree w (location path) = some (.file content) ∧
      tree w' (entryOf (store.snapDirFor path) (snapName id)) = some (.file content) ∧
      (∀ l, l ≠ entryOf (store.snapDirFor path) (snapName id) → tree w' l = tree w l ∨
        l ∈ places (store.snapDirFor path) ∧ tree w l = none ∧ tree w' l = some .dir) := by
  unfold SnapshotStore.snapshot at hrun
  obtain ⟨content, w₁, hread, hrun⟩ := bind_eq_ok.mp hrun
  obtain ⟨t, w₂, hnow, hrun⟩ := bind_eq_ok.mp hrun
  obtain ⟨⟨⟩, w₃, hdir, hrun⟩ := bind_eq_ok.mp hrun
  obtain ⟨⟨⟩, w₄, hwrite, hrun⟩ := bind_eq_ok.mp hrun
  obtain ⟨rfl, rfl⟩ := pure_eq_ok.mp hrun
  have hfile : location (store.snapPath path (toString t)) =
      entryOf (store.snapDirFor path) (snapName (toString t)) :=
    location_snapPath path (slash_notMem_toString t)
  obtain ⟨hsame, hcontent⟩ := h.read path w _ _ (attempt_eq_ok.mp hread)
  have hsame' := h.now _ _ _ (lift_eq_ok.mp hnow)
  obtain ⟨hmade, -⟩ := h.createDirAll _ _ _ _ (attempt_eq_ok.mp hdir)
  obtain ⟨hframe, hwritten⟩ := h.write _ _ _ _ _ (attempt_eq_ok.mp hwrite)
  have hid : s!"{t}" = toString t := rfl
  rw [hid, hfile] at hframe hwritten
  refine ⟨t, content, hid, fun clock hclock => ?_, hcontent content rfl, (hwritten rfl).2,
    fun l hl => ?_⟩
  · rw [hclock.write _ _ _ _ _ (attempt_eq_ok.mp hwrite),
      hclock.createDirAll _ _ _ _ (attempt_eq_ok.mp hdir),
      ← hclock.read _ _ _ _ (attempt_eq_ok.mp hread)]
    exact hclock.now _ _ _ (lift_eq_ok.mp hnow)
  · rw [hframe l hl, ← hsame, ← hsame']
    exact hmade l

/-- What is restored is what a file of the directory holds. -/
theorem restore_eq_ok (h : fs.Lawful tree) {id : String}
    (hrun : (store.restore fs path id).run.run w = some (.ok (), w')) :
    ∃ content, tree w (location (store.snapPath path id)) = some (.file content) ∧
      tree w' (location path) = some (.file content) := by
  unfold SnapshotStore.restore at hrun
  obtain ⟨content, w₁, hread, hrun⟩ := bind_eq_ok.mp hrun
  obtain ⟨⟨⟩, w₂, hparent, hwrite⟩ := bind_eq_ok.mp hrun
  obtain ⟨-, hcontent⟩ := h.read _ _ _ _ (attempt_eq_ok.mp hread)
  obtain ⟨-, hwritten⟩ := h.write _ _ _ _ _ (attempt_eq_ok.mp hwrite)
  exact ⟨content, hcontent content rfl, (hwritten rfl).2⟩

/-- The list is made of the entries of the directory, in some order. -/
theorem list_eq_ok (h : fs.Lawful tree) {metas : List SnapshotMeta}
    (hrun : (store.list fs path).run.run w = some (.ok metas, w')) :
    tree w' = tree w ∧ ∃ entries : List DirEntry, entries.Nodup ∧
      (∀ e, e ∈ entries ↔ tree w (entryOf (store.snapDirFor path) e.name.toList) ≠ none) ∧
      metas.Perm (entries.filterMap (SnapshotMeta.ofEntry path)) := by
  unfold SnapshotStore.list at hrun
  obtain ⟨b, w₁, hexists, hrun⟩ := bind_eq_ok.mp hrun
  obtain ⟨hsame, hb⟩ := h.pathExists _ _ _ _ (lift_eq_ok.mp hexists)
  cases b with
  | false =>
    obtain ⟨rfl, rfl⟩ := pure_eq_ok.mp hrun
    refine ⟨hsame, [], List.nodup_nil, fun e => ?_, List.Perm.nil⟩
    have hdir : tree w (location (store.snapDirFor path)) = none := by
      by_contra hne
      exact Bool.false_ne_true (hb.mpr hne)
    refine iff_of_false List.not_mem_nil (not_not.mpr ?_)
    by_contra hentry
    rw [h.nested w _ _ hentry] at hdir
    cases hdir
  | true =>
    obtain ⟨listing, w₂, hread, hrun⟩ := bind_eq_ok.mp hrun
    obtain ⟨entries, w₃, hentries, hrun⟩ := bind_eq_ok.mp hrun
    obtain ⟨hmapM, rfl⟩ := result_mapError_eq_ok.mp hentries
    obtain ⟨rfl, rfl⟩ := pure_eq_ok.mp hrun
    obtain ⟨hsame', hlisting⟩ := h.readDir _ _ _ _ (attempt_eq_ok.mp hread)
    obtain ⟨hnodup, hmem⟩ := hlisting listing entries rfl hmapM
    rw [hsame] at hmem
    exact ⟨hsame'.trans hsame, entries, hnodup, hmem, List.mergeSort_perm _ _⟩

theorem restoreLatest_eq_ok {id : String} :
    (store.restoreLatest fs path).run.run w = some (.ok id, w') ↔
      ∃ metas newest w₁, (store.list fs path).run.run w = some (.ok metas, w₁) ∧
        SnapshotMeta.latest metas = some newest ∧ newest.id = id ∧
          (store.restore fs path newest.id).run.run w₁ = some (.ok (), w') := by
  unfold SnapshotStore.restoreLatest
  rw [bind_eq_ok]
  constructor
  · rintro ⟨metas, w₁, hlist, hrun⟩
    cases hlatest : SnapshotMeta.latest metas with
    | none =>
      rw [hlatest] at hrun
      cases hrun
    | some newest =>
      rw [hlatest] at hrun
      obtain ⟨⟨⟩, w₂, hrestore, hrun⟩ := bind_eq_ok.mp hrun
      obtain ⟨hid, rfl⟩ := pure_eq_ok.mp hrun
      exact ⟨metas, newest, w₁, hlist, hlatest, hid, hrestore⟩
  · rintro ⟨metas, newest, w₁, hlist, hlatest, hid, hrestore⟩
    refine ⟨metas, w₁, hlist, ?_⟩
    rw [hlatest]
    exact bind_eq_ok.mpr ⟨(), w', hrestore, pure_eq_ok.mpr ⟨hid, rfl⟩⟩

theorem list_succeeds (h : fs.Lawful tree) (hreliable : fs.Reliable tree)
    (hdir : tree w (location (store.snapDirFor path)) = some .dir) :
    ∃ metas w', (store.list fs path).run.run w = some (.ok metas, w') := by
  obtain ⟨b, w₁, hexists⟩ := hreliable.pathExists (store.snapDirFor path) w
  obtain ⟨hsame, hb⟩ := h.pathExists _ _ _ _ hexists
  obtain rfl : b = true := hb.mpr (by simp [hdir])
  rw [← hsame] at hdir
  obtain ⟨listing, entries, w₂, hread, hentries⟩ := hreliable.readDir _ _ hdir
  exact ⟨_, w₂, bind_eq_ok.mpr ⟨true, w₁, lift_eq_ok.mpr hexists, bind_eq_ok.mpr ⟨listing, w₂,
    attempt_eq_ok.mpr hread, bind_eq_ok.mpr ⟨entries, w₂,
      result_mapError_eq_ok.mpr ⟨hentries, rfl⟩, pure_eq_ok.mpr ⟨rfl, rfl⟩⟩⟩⟩⟩

theorem restore_succeeds (h : fs.Lawful tree) (hreliable : fs.Reliable tree) {id : String}
    {content old : ByteArray}
    (hcontent : tree w (location (store.snapPath path id)) = some (.file content))
    (hparent : ParentMade (tree w) path)
    (hold : tree w (location path) = some (.file old)) :
    ∃ w', (store.restore fs path id).run.run w = some (.ok (), w') := by
  obtain ⟨content', w₁, hread⟩ := hreliable.read _ _ _ hcontent
  obtain ⟨hsame, -⟩ := h.read _ _ _ _ hread
  obtain ⟨w₂, hmade⟩ : ∃ w₂, fs.createParent path w₁ = some (.ok (), w₂) := by
    unfold FileSystem.createParent
    cases hp : Path.parent path with
    | none => exact ⟨w₁, rfl⟩
    | some parent => exact hreliable.createDirAll parent w₁ (hsame ▸ hparent parent hp)
  have hold' : tree w₂ (location path) = some (.file old) := by
    rcases createParent_tree h hmade (location path) with heq | ⟨-, hnone, -⟩
    · rw [heq, hsame, hold]
    · rw [hsame, hold] at hnone
      cases hnone
  obtain ⟨w₃, hwrite⟩ := hreliable.write path content' w₂ old hold'
  exact ⟨w₃, bind_eq_ok.mpr ⟨content', w₁, attempt_eq_ok.mpr hread, bind_eq_ok.mpr ⟨(), w₂,
    attempt_eq_ok.mpr hmade, attempt_eq_ok.mpr hwrite⟩⟩⟩

end Laws

end Pan
