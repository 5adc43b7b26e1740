import Mathlib.Data.List.Dedup
import Pan.Trees

namespace Pan

/-- What a list of nodes holds at a location. Paths start in a directory. -/
def treeOf (nodes : List (List Component × Node)) : Tree := fun l =>
  if l = [] then some .dir else nodes.lookup l

/-- Every node is in a directory. -/
structure Disk where
  nodes : List (List Component × Node)
  nested : ∀ l c, treeOf nodes (l ++ [c]) ≠ none → treeOf nodes l = some .dir
  time : ℕ

namespace Disk

def tree (d : Disk) : Tree := treeOf d.nodes

theorem tree_nil (d : Disk) : d.tree [] = some .dir := by simp [tree, treeOf]

/-- There is room for a node: a directory around it, and no directory in its place. -/
def HasRoom (d : Disk) (l : List Component) : Prop :=
  l ≠ [] ∧ d.tree l.dropLast = some .dir ∧ d.tree l ≠ some .dir

instance (d : Disk) (l : List Component) : Decidable (d.HasRoom l) :=
  inferInstanceAs (Decidable (_ ∧ _ ∧ _))

theorem treeOf_cons {nodes : List (List Component × Node)} {l l' : List Component} {node : Node} :
    treeOf ((l, node) :: nodes) l' =
      if l' = l ∧ l ≠ [] then some node else treeOf nodes l' := by
  unfold treeOf
  rw [List.lookup_cons]
  by_cases hl' : l' = []
  · subst hl'
    by_cases hl : l = []
    · simp [hl]
    · simp [hl, Ne.symm hl]
  · by_cases heq : l' = l
    · subst heq
      simp [hl']
    · have hbeq : (l' == l) = false := beq_eq_false_iff_ne.mpr heq
      simp [hl', heq, hbeq]

def put (d : Disk) (l : List Component) (node : Node) (h : d.HasRoom l) : Disk where
  nodes := (l, node) :: d.nodes
  nested := by
    intro l' c hne
    obtain ⟨hl, hdir, hfree⟩ := h
    rw [treeOf_cons] at hne ⊢
    split_ifs at hne with heq
    · -- the new node itself
      obtain ⟨rfl, -⟩ := heq
      rw [List.dropLast_concat] at hdir
      rwa [if_neg]
      exact fun h => absurd (congrArg List.length h.1) (by simp)
    · have hold := d.nested l' c hne
      rwa [if_neg]
      exact fun h => hfree (h.1 ▸ hold)
  time := d.time

theorem tree_put {d : Disk} {l : List Component} {node : Node} (h : d.HasRoom l)
    (l' : List Component) :
    (d.put l node h).tree l' = if l' = l then some node else d.tree l' := by
  have hl : l ≠ [] := h.1
  simp [tree, put, treeOf_cons, hl]

def empty : Disk := ⟨[], fun l c h => absurd h (by simp [treeOf]), 0⟩

def tick (d : Disk) : Disk := { d with time := d.time + 1 }

/-! ## Its calls -/

def read (path : String) : Sys Disk (Except String ByteArray) := fun d =>
  match d.tree (location path) with
  | some (.file content) => some (.ok content, d)
  | _ => some (.error "no such file", d)

def write (path : String) (content : ByteArray) : Sys Disk (Except String Unit) := fun d =>
  if h : d.HasRoom (location path) then some (.ok (), d.put (location path) (.file content) h)
  else some (.error "no such directory", d)

def mkdirs : List (List Component) → Sys Disk (Except String Unit)
  | [] => fun d => some (.ok (), d)
  | l :: ls => fun d =>
    if d.tree l = some .dir then mkdirs ls d
    else if h : d.tree l = none ∧ d.HasRoom l then mkdirs ls (d.put l .dir h.2)
    else some (.error "not a directory", d)

def createDirAll (path : String) : Sys Disk (Except String Unit) := mkdirs (places path)

/-- The entry of a directory that a node is, if it is one. -/
def entry? (dir l : List Component) : Option DirEntry :=
  match l.getLast? with
  | some (.normal name) =>
    if h : l.dropLast = dir ∧ '/' ∉ name ∧ String.ofList name ∉ ["", ".", ".."] then
      some ⟨.ofList name, by rw [String.toList_ofList]; exact h.2⟩
    else none
  | _ => none

instance : DecidableEq DirEntry := fun e e' =>
  decidable_of_iff (e.name = e'.name) ⟨fun h => by cases e; cases e'; cases h; rfl, congrArg _⟩

def entries (d : Disk) (dir : List Component) : List DirEntry :=
  (d.nodes.filterMap fun p => entry? dir p.1).dedup

def readDir (path : String) : Sys Disk (Except String (List (Except String DirEntry))) := fun d =>
  if d.tree (location path) = some .dir then
    some (.ok ((d.entries (location path)).map .ok), d)
  else some (.error "no such directory", d)

def pathExists (path : String) : Sys Disk Bool := fun d =>
  some (decide (d.tree (location path) ≠ none), d)

def now : Sys Disk ℕ := fun d => some (d.tick.time, d.tick)

def fs : FileSystem Disk where
  readToString path := fun d => (read path d).map fun r =>
    (r.1.bind fun content => match String.fromUTF8? content with
      | some text => .ok text
      | none => .error "no text", r.2)
  read := read
  write := write
  createDirAll := createDirAll
  readDir := readDir
  pathExists := pathExists
  isDir path := fun d => some (decide (d.tree (location path) = some .dir), d)
  isFile path := fun d =>
    some (decide (d.tree (location path) ≠ none ∧ d.tree (location path) ≠ some .dir), d)
  now := now

/-! ## Their laws -/

theorem mkdirs_spec {ls : List (List Component)} {d d' : Disk} {r : Except String Unit}
    (h : mkdirs ls d = some (r, d')) :
    (∀ l, d'.tree l = d.tree l ∨ l ∈ ls ∧ d.tree l = none ∧ d'.tree l = some .dir) ∧
      (r = .ok () → ∀ l ∈ ls, d'.tree l = some .dir) ∧ d'.time = d.time := by
  induction ls generalizing d with
  | nil =>
    cases h
    exact ⟨fun _ => Or.inl rfl, fun _ _ hl => absurd hl List.not_mem_nil, rfl⟩
  | cons l ls ih =>
    unfold mkdirs at h
    -- the directory is there, can be made, or cannot
    split_ifs at h with hdir hroom
    · obtain ⟨hframe, hmade, htime⟩ := ih h
      refine ⟨fun l' => (hframe l').imp_right fun hl' => ⟨List.mem_cons_of_mem l hl'.1, hl'.2⟩,
        fun hr l' hl' => ?_, htime⟩
      rcases List.mem_cons.mp hl' with rfl | hl'
      · -- a directory stays one
        rcases hframe l' with heq | ⟨-, hnone, -⟩
        · rw [heq, hdir]
        · rw [hdir] at hnone
          cases hnone
      · exact hmade hr l' hl'
    · obtain ⟨hframe, hmade, htime⟩ := ih h
      simp only [tree_put] at hframe
      have hl : d'.tree l = some .dir := by
        rcases hframe l with heq | ⟨-, -, heq⟩
        · rwa [if_pos rfl] at heq
        · exact heq
      refine ⟨fun l' => ?_, fun hr l' hl' => ?_, htime⟩
      · by_cases heq : l' = l
        · subst heq
          exact Or.inr ⟨List.mem_cons_self, hroom.1, hl⟩
        · have hl' := hframe l'
          rw [if_neg heq] at hl'
          exact hl'.imp_right fun h => ⟨List.mem_cons_of_mem l h.1, h.2⟩
      · rcases List.mem_cons.mp hl' with rfl | hl'
        · exact hl
        · exact hmade hr l' hl'
    · cases h
      exact ⟨fun _ => Or.inl rfl, fun hr => (by cases hr), rfl⟩

theorem entry?_eq_some {dir l : List Component} {e : DirEntry} :
    entry? dir l = some e ↔ l = dir ++ [.normal e.name.toList] := by
  unfold entry?
  constructor
  · intro h
    split at h
    · rename_i name hlast
      split_ifs at h with hname
      cases h
      rw [String.toList_ofList, ← hname.1]
      obtain ⟨init, rfl⟩ := List.getLast?_eq_some_iff.mp hlast
      rw [List.dropLast_concat]
    · cases h
  · rintro rfl
    obtain ⟨name, hplain⟩ := e
    rw [List.getLast?_concat]
    dsimp only
    rw [dif_pos]
    · simp
    · rw [List.dropLast_concat, String.ofList_toList]
      exact ⟨rfl, hplain⟩

theorem mem_entries {d : Disk} {dir : List Component} {e : DirEntry} :
    e ∈ d.entries dir ↔ d.tree (dir ++ [.normal e.name.toList]) ≠ none := by
  have hne : dir ++ [.normal e.name.toList] ≠ [] := by simp
  unfold entries tree treeOf
  rw [if_neg hne, ne_eq, List.lookup_eq_none_iff]
  simp only [List.mem_dedup, List.mem_filterMap, entry?_eq_some, not_forall]
  constructor
  · rintro ⟨p, hp, heq⟩
    exact ⟨p, hp, by simp [heq]⟩
  · rintro ⟨p, hp, heq⟩
    exact ⟨p, hp, by simpa using Eq.symm (by simpa using heq)⟩

theorem mapM_ok (es : List DirEntry) :
    (es.map Except.ok).mapM id = (.ok es : Except String (List DirEntry)) := by
  induction es with
  | nil => rfl
  | cons e es ih =>
    rw [List.map_cons, List.mapM_cons, ih]
    rfl

theorem lawful : fs.Lawful tree where
  nested d := d.nested
  read path d r d' h := by
    change read path d = _ at h
    unfold read at h
    split at h
    · rename_i content hfile
      cases h
      exact ⟨rfl, fun content' hr => by cases hr; exact hfile⟩
    · cases h
      exact ⟨rfl, fun content hr => by cases hr⟩
  write path content d r d' h := by
    change write path content d = _ at h
    unfold write at h
    split_ifs at h with hroom
    · cases h
      refine ⟨fun l hl => by rw [tree_put, if_neg hl], fun _ => ⟨hroom.2.2, ?_⟩⟩
      rw [tree_put, if_pos rfl]
    · cases h
      exact ⟨fun _ _ => rfl, fun hr => by cases hr⟩
  createDirAll path d r d' h := ⟨(mkdirs_spec h).1, (mkdirs_spec h).2.1⟩
  readDir path d r d' h := by
    change readDir path d = _ at h
    unfold readDir at h
    split_ifs at h
    · cases h
      refine ⟨rfl, fun listing es hr hes => ?_⟩
      cases hr
      rw [mapM_ok] at hes
      cases hes
      exact ⟨List.nodup_dedup _, fun e => mem_entries⟩
    · cases h
      exact ⟨rfl, fun _ _ hr => by cases hr⟩
  pathExists path d b d' h := by
    cases h
    exact ⟨rfl, by simp⟩
  now d t d' h := by
    cases h
    rfl

theorem ticking : fs.Ticking time where
  now d t d' h := by
    cases h
    exact ⟨Nat.lt_succ_self _, rfl⟩
  read path d r d' h := by
    change read path d = _ at h
    unfold read at h
    split at h <;> cases h <;> rfl
  write path content d r d' h := by
    change write path content d = _ at h
    unfold write at h
    split_ifs at h <;> cases h <;> rfl
  createDirAll path d r d' h := (mkdirs_spec h).2.2
  pathExists path d b d' h := by
    cases h
    rfl

/-- A clock that goes on by a second with each look at it. -/
def slowFs : FileSystem Disk := { fs with
  now := fun d => some (d.time + 1000000000, { d with time := d.time + 1000000000 }) }

theorem lawful_slowFs : slowFs.Lawful tree := { lawful with
  now := fun d t d' h => by
    cases h
    rfl }

theorem ticking_slowFs : slowFs.Ticking time := { ticking with
  now := fun d t d' h => by
    cases h
    exact ⟨Nat.lt_add_of_pos_right (by decide), rfl⟩ }

/-- A write that fails leaves the disk as it was. -/
theorem eq_of_write_error {path : String} {content : ByteArray} {d d' : Disk} {e : String}
    (h : fs.write path content d = some (.error e, d')) : d' = d := by
  change write path content d = _ at h
  unfold write at h
  split_ifs at h <;> cases h
  rfl

theorem mkdirs_of_dirs {ls : List (List Component)} {d : Disk}
    (h : ∀ l ∈ ls, d.tree l = some .dir) : mkdirs ls d = some (.ok (), d) := by
  induction ls with
  | nil => rfl
  | cons l ls ih =>
    unfold mkdirs
    rw [if_pos (h l List.mem_cons_self)]
    exact ih fun l' hl' => h l' (List.mem_cons_of_mem l hl')

theorem reliable : fs.Reliable tree where
  read path d content h := by
    refine ⟨content, d, ?_⟩
    change read path d = _
    unfold read
    rw [h]
  write path content d old h := by
    have hroom : d.HasRoom (location path) := by
      have hne : location path ≠ [] := fun hnil => by simp [hnil, tree_nil] at h
      refine ⟨hne, d.nested _ ((location path).getLast hne) ?_, by simp [h]⟩
      rw [List.dropLast_append_getLast]
      change d.tree _ ≠ none
      simp [h]
    exact ⟨_, dif_pos hroom⟩
  createDirAll path d h := ⟨d, mkdirs_of_dirs h⟩
  readDir path d h := ⟨_, _, d, if_pos h, mapM_ok _⟩
  pathExists path d := ⟨_, d, rfl⟩

end Disk

end Pan
