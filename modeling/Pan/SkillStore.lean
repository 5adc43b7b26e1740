import Pan.Confinement
import Pan.Disk
import Pan.SnapshotFiles

namespace Pan

open Fallible

structure SkillCaps where
  root : String
  libDir : String

namespace SkillCaps

/-! ## The capabilities -/

section Capabilities

variable {W : Type} (caps : SkillCaps) (fs : FileSystem W)
  (removeFile : String → Sys W (Except String Unit))

def save (name source path : String) : Fallible W ExecError Value := do
  attempt (fun e => ⟨s!"mkdir: {e}"⟩) (fs.createParent path)
  attempt (fun e => ⟨s!"write: {e}"⟩) (fs.write path source.toUTF8)
  return .object [("ok", .bool true), ("path", .string name)]

/-- Save the skill of these arguments if it is there, or is not there, as it is meant to be. -/
def saveWhen (present : Bool) (refusal : String → String) (args : Value) :
    Fallible W ExecError Value := do
  let name ← result (argStr args "name")
  let source ← result (argStr args "source")
  let path ← result (jail caps.root name)
  let found ← fs.pathExists path
  if found = present then save fs name source path
  else throw ⟨refusal name⟩

def create : Value → Fallible W ExecError Value :=
  caps.saveWhen fs false fun name => s!"skill `{name}` already exists"

def edit : Value → Fallible W ExecError Value :=
  caps.saveWhen fs true fun name => s!"skill `{name}` does not exist"

/-- What is listed: the names that end as a skill's or its manifest's. -/
def isSkillFile (name : String) : Bool :=
  decide (".py".toList <:+ name.toList ∨ ".toml".toList <:+ name.toList)

def listNames : Fallible W ExecError (List String) := do
  if ← fs.pathExists caps.root then
    let dir ← attempt (fun e => ⟨s!"list: {e}"⟩) (fs.readDir caps.root)
    let entries ← result ((dir.mapM id).mapError fun e => ExecError.mk s!"list: {e}")
    return (entries.map DirEntry.name).filter isSkillFile
  else return []

def list : Fallible W ExecError Value := do
  let skills ← caps.listNames fs
  return .object [("skills", .array ((sortStrings skills).map .string))]

def delete (args : Value) : Fallible W ExecError Value := do
  let name ← result (argStr args "name")
  let path ← result (jail caps.root name)
  if ← fs.pathExists path then
    attempt (fun e => ⟨s!"delete: {e}"⟩) (removeFile path)
    return .object [("ok", .bool true)]
  else throw ⟨s!"skill `{name}` does not exist"⟩

def execute (capability : String) (args : Value) : Fallible W ExecError Value :=
  match capability with
  | "cap.skill.run" => throw ⟨"cap.skill.run requires a ScopedInvoker"⟩
  | "cap.skill.create" => caps.create fs args
  | "cap.skill.edit" => caps.edit fs args
  | "cap.skill.list" => caps.list fs
  | "cap.skill.delete" => caps.delete fs removeFile args
  | other => throw ⟨s!"cap.skill has no `{other}`"⟩

def executeAll : List (String × Value) → Sys W (List (Except ExecError Value))
  | [] => return []
  | (capability, args) :: calls => do
    let answer ← (caps.execute fs removeFile capability args).run
    return answer :: (← executeAll calls)

end Capabilities

/-! ## What is kept of the files -/

/-- What the file at a location holds, if a file is there. -/
def contentAt (tree : Tree) (l : List Component) : Option ByteArray :=
  match tree l with
  | some (.file content) => some content
  | _ => none

def target (root : String) (args : Value) : Option (List Component) := do
  let name ← (argStr args "name").toOption
  let path ← (jail root name).toOption
  return location path

abbrev Answered := (String × Value) × Except ExecError Value

/-- What the file at a location holds after a call, if it held `content` before. -/
def held (root : String) (l : List Component) (content : Option ByteArray) (done : Answered) :
    Option ByteArray :=
  match done.2 with
  | .error _ => content
  | .ok _ =>
    if target root done.1.2 = some l then
      match done.1.1 with
      | "cap.skill.create" => (argStr done.1.2 "source").toOption.map String.toUTF8
      | "cap.skill.edit" => (argStr done.1.2 "source").toOption.map String.toUTF8
      | "cap.skill.delete" => none
      | _ => content
    else content

/-- The write of the file has failed; it may have been cut short. -/
def Spoils (root : String) (l : List Component) (done : Answered) : Prop :=
  target root done.1.2 = some l ∧ ∃ e : String, done.2 = .error ⟨s!"write: {e}"⟩

/-- Removing a file takes it out of the tree and nothing else. -/
structure Removes {W : Type} (removeFile : String → Sys W (Except String Unit))
    (tree : W → Tree) : Prop where
  ok : ∀ path w w', removeFile path w = some (.ok (), w') →
    (∃ content, tree w (location path) = some (.file content)) ∧
      tree w' (location path) = none ∧ ∀ l, l ≠ location path → tree w' l = tree w l
  error : ∀ path w e w', removeFile path w = some (.error e, w') → tree w' = tree w

theorem contentAt_congr {t t' : Tree} {l : List Component} (h : t' l = t l) :
    contentAt t' l = contentAt t l := by
  unfold contentAt
  rw [h]

theorem target_eq {root name path : String} {args : Value} (hname : argStr args "name" = .ok name)
    (hjail : jail root name = .ok path) : target root args = some (location path) := by
  simp [target, hname, hjail, Except.toOption]

section Laws

variable {W : Type} {caps : SkillCaps} {fs : FileSystem W} {tree : W → Tree}
  {removeFile : String → Sys W (Except String Unit)} {w w' : W}

theorem contentAt_createParent (h : fs.Lawful tree) {path : String} {r : Except String Unit}
    (hrun : fs.createParent path w = some (r, w')) (l : List Component) :
    contentAt (tree w') l = contentAt (tree w) l := by
  rcases createParent_tree h hrun l with hsame | ⟨-, hnone, hdir⟩
  · exact contentAt_congr hsame
  · simp [contentAt, hnone, hdir]

theorem dir_createParent (h : fs.Lawful tree) {path : String} {r : Except String Unit}
    (hrun : fs.createParent path w = some (r, w')) {l : List Component}
    (hdir : tree w l = some .dir) : tree w' l = some .dir := by
  rcases createParent_tree h hrun l with hsame | ⟨-, -, hdir'⟩
  · exact hsame.trans hdir
  · exact hdir'

/-- Where a skill is saved there is no directory, and only its file changes. -/
theorem save_eq_ok (h : fs.Lawful tree) {name source path : String} {v : Value}
    (hrun : (save fs name source path).run.run w = some (.ok v, w')) :
    tree w (location path) ≠ some .dir ∧
      contentAt (tree w') (location path) = some source.toUTF8 ∧
      (∀ l, l ≠ location path → contentAt (tree w') l = contentAt (tree w) l) ∧
      ∀ l, tree w l = some .dir → tree w' l = some .dir := by
  unfold save at hrun
  obtain ⟨⟨⟩, w₁, hdir, hrun⟩ := bind_eq_ok.mp hrun
  obtain ⟨⟨⟩, w₂, hwrite, hrun⟩ := bind_eq_ok.mp hrun
  obtain ⟨rfl, rfl⟩ := pure_eq_ok.mp hrun
  have hparent := attempt_eq_ok.mp hdir
  obtain ⟨hothers, hok⟩ := h.write _ _ _ _ _ (attempt_eq_ok.mp hwrite)
  obtain ⟨hfree, hfile⟩ := hok rfl
  refine ⟨fun hdir => hfree (dir_createParent h hparent hdir), by simp [contentAt, hfile],
    fun l hl => ?_, fun l hdir => ?_⟩
  · exact (contentAt_congr (hothers l hl)).trans (contentAt_createParent h hparent l)
  · have hdir' := dir_createParent h hparent hdir
    have hl : l ≠ location path := by
      rintro rfl
      exact hfree hdir'
    exact (hothers l hl).trans hdir'

/-- A skill that is not saved keeps all files and directories, but for its own if its write
failed. -/
theorem save_eq_error (h : fs.Lawful tree) {name source path : String} {e : ExecError}
    (hrun : (save fs name source path).run.run w = some (.error e, w')) (l : List Component)
    (hl : ¬(l = location path ∧ ∃ text : String, e = ⟨s!"write: {text}"⟩)) :
    contentAt (tree w') l = contentAt (tree w) l ∧
      (tree w l = some .dir → tree w' l = some .dir) := by
  unfold save at hrun
  rcases bind_eq_error.mp hrun with hdir | ⟨⟨⟩, w₁, hdir, hrun⟩
  · obtain ⟨text, hparent, -⟩ := attempt_eq_error.mp hdir
    exact ⟨contentAt_createParent h hparent l, dir_createParent h hparent⟩
  have hparent := attempt_eq_ok.mp hdir
  rcases bind_eq_error.mp hrun with hwrite | ⟨⟨⟩, w₂, hwrite, hrun⟩
  · obtain ⟨text, hcall, rfl⟩ := attempt_eq_error.mp hwrite
    have hne : l ≠ location path := fun heq => hl ⟨heq, text, rfl⟩
    have hsame := (h.write _ _ _ _ _ hcall).1 l hne
    exact ⟨(contentAt_congr hsame).trans (contentAt_createParent h hparent l),
      fun hdir => hsame.trans (dir_createParent h hparent hdir)⟩
  · cases hrun

/-- A call of these arguments that succeeds fits what the file at the location holds. A name that is
listed without a file is that of a directory. -/
structure FitsAt (root : String) (l : List Component) (content : Option ByteArray) (isDir : Prop)
    (capability : String) (args v : Value) : Prop where
  create : capability = "cap.skill.create" → target root args = some l → content = none
  edit : capability = "cap.skill.edit" → target root args = some l → content ≠ none
  delete : capability = "cap.skill.delete" → target root args = some l → content ≠ none
  list : capability = "cap.skill.list" → ∃ names : List String,
    v = .object [("skills", .array (names.map .string))] ∧ names.Pairwise (· ≤ ·) ∧
      (∀ name ∈ names, isSkillFile name = true) ∧
      ∀ e : DirEntry, l = entryOf root e.name.toList → isSkillFile e.name = true →
        (content ≠ none → e.name ∈ names) ∧ (e.name ∈ names → content ≠ none ∨ isDir)

theorem FitsAt.mono {root : String} {l : List Component} {content : Option ByteArray}
    {isDir isDir' : Prop} {capability : String} {args v : Value} (hdir : isDir → isDir')
    (h : FitsAt root l content isDir capability args v) :
    FitsAt root l content isDir' capability args v where
  create := h.create
  edit := h.edit
  delete := h.delete
  list hlist := by
    obtain ⟨names, hv, hsorted, hskills, hall⟩ := h.list hlist
    exact ⟨names, hv, hsorted, hskills, fun e hl he =>
      ⟨(hall e hl he).1, fun hname => ((hall e hl he).2 hname).imp_right hdir⟩⟩

/-- What a call comes to at each location: the answer fits what was there, what is there then is
what the call makes of it, and directories stay. -/
structure Keeps (caps : SkillCaps) (tree : W → Tree) (w w' : W) (capability : String)
    (args : Value) (answer : Except ExecError Value) : Prop where
  content : ∀ l, ¬Spoils caps.root l ((capability, args), answer) → contentAt (tree w') l =
    held caps.root l (contentAt (tree w) l) ((capability, args), answer)
  dirs : ∀ l, ¬Spoils caps.root l ((capability, args), answer) → tree w l = some .dir →
    tree w' l = some .dir
  fits : ∀ v, answer = .ok v → ∀ l,
    FitsAt caps.root l (contentAt (tree w) l) (tree w l = some .dir) capability args v

theorem Keeps.of_refused {capability : String} {args : Value} {e : ExecError}
    (h : tree w' = tree w) : Keeps caps tree w w' capability args (.error e) :=
  ⟨fun l _ => contentAt_congr (congrFun h l), fun l _ hdir => (congrFun h l).trans hdir,
    fun v hv => by cases hv⟩

/-- Saving is refused, or comes to writing where the file is there or is not. -/
theorem saveWhen_cases (h : fs.Lawful tree) {present : Bool} {refusal : String → String}
    {args : Value} {answer : Except ExecError Value}
    (hrun : (caps.saveWhen fs present refusal args).run.run w = some (answer, w')) :
    (∃ e, answer = .error e ∧ tree w' = tree w) ∨ ∃ name source path w₁,
      argStr args "source" = .ok source ∧ target caps.root args = some (location path) ∧
      tree w₁ = tree w ∧ (present = true ↔ tree w (location path) ≠ none) ∧
      (save fs name source path).run.run w₁ = some (answer, w') := by
  unfold saveWhen at hrun
  obtain ⟨e, -, rfl, rfl⟩ | ⟨name, hname, hrun⟩ := result_bind_cases hrun
  · exact Or.inl ⟨e, rfl, rfl⟩
  obtain ⟨e, -, rfl, rfl⟩ | ⟨source, hsource, hrun⟩ := result_bind_cases hrun
  · exact Or.inl ⟨e, rfl, rfl⟩
  obtain ⟨e, -, rfl, rfl⟩ | ⟨path, hjail, hrun⟩ := result_bind_cases hrun
  · exact Or.inl ⟨e, rfl, rfl⟩
  obtain ⟨found, w₁, hexists, hsave⟩ := lift_bind_cases hrun
  obtain ⟨htree, hfound⟩ := h.pathExists _ _ _ _ hexists
  by_cases hpresent : found = present
  · rw [if_pos hpresent] at hsave
    rw [hpresent] at hfound
    exact Or.inr ⟨name, source, path, w₁, hsource, target_eq hname hjail, htree, hfound, hsave⟩
  · rw [if_neg hpresent] at hsave
    cases hsave
    exact Or.inl ⟨_, rfl, htree⟩

/-- What the saving of a skill comes to, for a call that sets the file to its source. -/
theorem keeps_saveWhen (h : fs.Lawful tree) {present : Bool} {refusal : String → String}
    {capability : String} {args : Value} {answer : Except ExecError Value}
    (hheld : ∀ l content v, target caps.root args = some l →
      held caps.root l content ((capability, args), .ok v) =
        (argStr args "source").toOption.map String.toUTF8)
    (hfits : ∀ l content isDir v, (target caps.root args = some l →
      (present = true ↔ content ≠ none)) → FitsAt caps.root l content isDir capability args v)
    (hrun : (caps.saveWhen fs present refusal args).run.run w = some (answer, w')) :
    Keeps caps tree w w' capability args answer := by
  obtain ⟨e, rfl, htree⟩ | ⟨name, source, path, w₁, hsource, htarget, htree, hpresent, hsave⟩ :=
    saveWhen_cases h hrun
  · exact .of_refused htree
  cases answer with
  | error e =>
    have hkept : ∀ l, ¬Spoils caps.root l ((capability, args), .error e) →
        contentAt (tree w') l = contentAt (tree w) l ∧
          (tree w l = some .dir → tree w' l = some .dir) := by
      intro l hl
      rw [← htree]
      refine save_eq_error h hsave l fun hspoils => hl ?_
      obtain ⟨rfl, text, rfl⟩ := hspoils
      exact ⟨htarget, text, rfl⟩
    exact ⟨fun l hl => (hkept l hl).1, fun l hl => (hkept l hl).2, fun v hv => by cases hv⟩
  | ok v =>
    obtain ⟨hfree, hsaved, hothers, hdirs⟩ := save_eq_ok h hsave
    rw [htree] at hfree hothers hdirs
    refine ⟨fun l _ => ?_, fun l _ => hdirs l, fun v' _ l => hfits l _ _ v' fun hl => ?_⟩
    · by_cases hl : l = location path
      · subst hl
        rw [hheld _ _ _ htarget, hsaved, hsource]
        rfl
      · rw [hothers l hl]
        have hne : target caps.root args ≠ some l := by
          rw [htarget]
          exact fun heq => hl (Option.some.inj heq).symm
        exact (if_neg hne).symm
    · obtain rfl := Option.some.inj (htarget.symm.trans hl)
      -- there is a file or nothing: a directory could not have been written to
      rw [hpresent]
      unfold contentAt
      rcases hnode : tree w (location path) with _ | content | _
      · simp
      · simp
      · exact absurd hnode hfree

theorem keeps_create (h : fs.Lawful tree) {args : Value} {answer : Except ExecError Value}
    (hrun : (caps.create fs args).run.run w = some (answer, w')) :
    Keeps caps tree w w' "cap.skill.create" args answer := by
  refine keeps_saveWhen h (fun l content v hl => if_pos hl)
    (fun l content isDir v hpresent => ?_) hrun
  refine ⟨fun _ hl => ?_, fun hne => absurd hne (by decide), fun hne => absurd hne (by decide),
    fun hne => absurd hne (by decide)⟩
  by_contra hcontent
  exact absurd ((hpresent hl).mpr hcontent) (by decide)

theorem keeps_edit (h : fs.Lawful tree) {args : Value} {answer : Except ExecError Value}
    (hrun : (caps.edit fs args).run.run w = some (answer, w')) :
    Keeps caps tree w w' "cap.skill.edit" args answer := by
  refine keeps_saveWhen h (fun l content v hl => if_pos hl)
    (fun l content isDir v hpresent => ?_) hrun
  exact ⟨fun hne => absurd hne (by decide), fun _ hl => (hpresent hl).mp rfl,
    fun hne => absurd hne (by decide), fun hne => absurd hne (by decide)⟩

/-- A skill is deleted where its file is. -/
theorem keeps_delete (h : fs.Lawful tree) (hremove : Removes removeFile tree) {args : Value}
    {answer : Except ExecError Value}
    (hrun : (caps.delete fs removeFile args).run.run w = some (answer, w')) :
    Keeps caps tree w w' "cap.skill.delete" args answer := by
  unfold delete at hrun
  obtain ⟨e, -, rfl, rfl⟩ | ⟨name, hname, hrun⟩ := result_bind_cases hrun
  · exact .of_refused rfl
  obtain ⟨e, -, rfl, rfl⟩ | ⟨path, hjail, hrun⟩ := result_bind_cases hrun
  · exact .of_refused rfl
  obtain ⟨found, w₁, hexists, hcall⟩ := lift_bind_cases hrun
  have htree := (h.pathExists _ _ _ _ hexists).1
  have htarget := target_eq hname hjail
  -- a file that is not there is refused before anything is removed
  cases found with
  | false =>
    cases hcall
    exact .of_refused htree
  | true =>
    cases answer with
    | error e =>
      rcases bind_eq_error.mp hcall with hremoved | ⟨⟨⟩, w₂, hremoved, hdone⟩
      · obtain ⟨text, hfail, -⟩ := attempt_eq_error.mp hremoved
        exact .of_refused ((hremove.error _ _ _ _ hfail).trans htree)
      · cases hdone
    | ok v =>
      obtain ⟨⟨⟩, w₂, hremoved, hdone⟩ := bind_eq_ok.mp hcall
      obtain ⟨-, rfl⟩ := pure_eq_ok.mp hdone
      obtain ⟨⟨content, hfile⟩, hgone, hothers⟩ := hremove.ok _ _ _ (attempt_eq_ok.mp hremoved)
      rw [htree] at hfile hothers
      refine ⟨fun l _ => ?_, fun l _ hdir => ?_, fun v' _ l => ⟨fun hne => absurd hne (by decide),
        fun hne => absurd hne (by decide), fun _ hl => ?_, fun hne => absurd hne (by decide)⟩⟩
      · -- the file that is removed holds nothing any more, the others what they held
        by_cases hl : l = location path
        · subst hl
          have hheld : held caps.root (location path) (contentAt (tree w) (location path))
              (("cap.skill.delete", args), .ok v) = none := if_pos htarget
          rw [hheld, contentAt, hgone]
        · have hne : target caps.root args ≠ some l := by
            rw [htarget]
            exact fun heq => hl (Option.some.inj heq).symm
          exact (contentAt_congr (hothers l hl)).trans (if_neg hne).symm
      · have hl : l ≠ location path := by
          rintro rfl
          rw [hdir] at hfile
          cases hfile
        exact (hothers l hl).trans hdir
      · obtain rfl := Option.some.inj (htarget.symm.trans hl)
        simp [contentAt, hfile]

theorem mem_sortStrings {name : String} {names : List String} :
    name ∈ sortStrings names ↔ name ∈ names := List.mem_mergeSort

theorem pairwise_sortStrings (names : List String) : (sortStrings names).Pairwise (· ≤ ·) := by
  have hpairwise : (sortStrings names).Pairwise fun s t => decide (s ≤ t) = true := by
    apply List.pairwise_mergeSort
    · intro s t u hst htu
      exact decide_eq_true ((of_decide_eq_true hst).trans (of_decide_eq_true htu))
    · intro s t
      simpa using le_total s t
  exact hpairwise.imp fun h => of_decide_eq_true h

/-- What is listed are the skill files of the directory. -/
theorem listNames_eq_ok (h : fs.Lawful tree) {names : List String}
    (hrun : (caps.listNames fs).run.run w = some (.ok names, w')) : tree w' = tree w ∧
      (∀ name ∈ names, isSkillFile name = true) ∧
      ∀ e : DirEntry, isSkillFile e.name = true →
        (e.name ∈ names ↔ tree w (entryOf caps.root e.name.toList) ≠ none) := by
  unfold listNames at hrun
  obtain ⟨found, w₁, hexists, hlist⟩ := lift_bind_cases hrun
  obtain ⟨htree, hfound⟩ := h.pathExists _ _ _ _ hexists
  cases found with
  | false =>
    cases hlist
    refine ⟨htree, by simp, fun e _ => iff_of_false (by simp) fun he => ?_⟩
    -- a directory that is not there has no entries
    have hdir := h.nested w (location caps.root) (.normal e.name.toList) he
    have hsome : tree w (location caps.root) ≠ none := by rw [hdir]; simp
    exact absurd (hfound.mpr hsome) (by decide)
  | true =>
    obtain ⟨listing, w₂, hread, hrest⟩ := bind_eq_ok.mp hlist
    obtain ⟨entries, w₃, hentries, hdone⟩ := bind_eq_ok.mp hrest
    obtain ⟨hmapM, rfl⟩ := result_mapError_eq_ok.mp hentries
    obtain ⟨rfl, rfl⟩ := pure_eq_ok.mp hdone
    obtain ⟨hsame, hlisted⟩ := h.readDir _ _ _ _ (attempt_eq_ok.mp hread)
    obtain ⟨-, hmem⟩ := hlisted _ _ rfl hmapM
    refine ⟨hsame.trans htree, fun name hname => (List.mem_filter.mp hname).2, fun e he => ?_⟩
    rw [← htree, ← hmem, List.mem_filter]
    constructor
    · rintro ⟨hname, -⟩
      obtain ⟨e', he', heq⟩ := List.mem_map.mp hname
      cases e
      cases e'
      obtain rfl := heq
      exact he'
    · exact fun hentry => ⟨List.mem_map_of_mem hentry, he⟩

/-- A failed listing changes nothing. -/
theorem tree_listNames (h : fs.Lawful tree) {e : ExecError}
    (hrun : (caps.listNames fs).run.run w = some (.error e, w')) : tree w' = tree w := by
  unfold listNames at hrun
  obtain ⟨found, w₁, hexists, hlist⟩ := lift_bind_cases hrun
  have htree := (h.pathExists _ _ _ _ hexists).1
  cases found with
  | false => cases hlist
  | true =>
    rcases bind_eq_error.mp hlist with hread | ⟨listing, w₂, hread, hrest⟩
    · obtain ⟨text, hread, -⟩ := attempt_eq_error.mp hread
      exact (h.readDir _ _ _ _ hread).1.trans htree
    · have hsame := (h.readDir _ _ _ _ (attempt_eq_ok.mp hread)).1
      obtain ⟨e', -, -, rfl⟩ | ⟨entries, -, hdone⟩ := result_bind_cases hrest
      · exact hsame.trans htree
      · cases hdone

theorem keeps_list (h : fs.Lawful tree) {args : Value} {answer : Except ExecError Value}
    (hrun : (caps.list fs).run.run w = some (answer, w')) :
    Keeps caps tree w w' "cap.skill.list" args answer := by
  unfold list at hrun
  have hheld : ∀ l content v,
      held caps.root l content (("cap.skill.list", args), .ok v) = content :=
    fun l content v => ite_self _
  cases answer with
  | error e =>
    rcases bind_eq_error.mp hrun with hnames | ⟨names, w₁, hnames, hdone⟩
    · exact .of_refused (tree_listNames h hnames)
    · cases hdone
  | ok v =>
    obtain ⟨names, w₁, hnames, hdone⟩ := bind_eq_ok.mp hrun
    obtain ⟨rfl, rfl⟩ := pure_eq_ok.mp hdone
    obtain ⟨htree, hskills, hall⟩ := listNames_eq_ok h hnames
    refine ⟨fun l _ => by rw [hheld]; exact contentAt_congr (congrFun htree l),
      fun l _ hdir => (congrFun htree l).trans hdir, ?_⟩
    rintro v hv l
    obtain rfl := Except.ok.inj hv
    refine ⟨fun hne => absurd hne (by decide), fun hne => absurd hne (by decide),
      fun hne => absurd hne (by decide), fun _ => ⟨_, rfl, pairwise_sortStrings names,
      fun name hname => hskills name (mem_sortStrings.mp hname), fun e hl he => ?_⟩⟩
    subst hl
    rw [mem_sortStrings, hall e he]
    unfold contentAt
    rcases tree w (entryOf caps.root e.name.toList) with _ | content | _ <;> simp

/-- Every call that is answered keeps the files. -/
theorem keeps_execute (h : fs.Lawful tree) (hremove : Removes removeFile tree)
    {capability : String} {args : Value} {answer : Except ExecError Value}
    (hrun : (caps.execute fs removeFile capability args).run.run w = some (answer, w')) :
    Keeps caps tree w w' capability args answer := by
  unfold execute at hrun
  split at hrun
  · cases hrun
    exact .of_refused rfl
  · exact keeps_create h hrun
  · exact keeps_edit h hrun
  · exact keeps_list h hrun
  · exact keeps_delete h hremove hrun
  · cases hrun
    exact .of_refused rfl

/-! ## Whole runs -/

theorem executeAll_cons {call : String × Value} {calls : List (String × Value)}
    {answers : List (Except ExecError Value)}
    (hrun : caps.executeAll fs removeFile (call :: calls) w = some (answers, w')) :
    ∃ answer rest w₁, answers = answer :: rest ∧
      (caps.execute fs removeFile call.1 call.2).run.run w = some (answer, w₁) ∧
      caps.executeAll fs removeFile calls w₁ = some (rest, w') := by
  change ((caps.execute fs removeFile call.1 call.2).run.run w).bind (fun r =>
    (caps.executeAll fs removeFile calls r.2).bind fun r' => some (r.1 :: r'.1, r'.2)) = _ at hrun
  obtain ⟨⟨answer, w₁⟩, hfirst, hrun⟩ := Option.bind_eq_some_iff.mp hrun
  obtain ⟨⟨rest, w₂⟩, hrest, hrun⟩ := Option.bind_eq_some_iff.mp hrun
  cases hrun
  exact ⟨answer, rest, w₁, rfl, hfirst, hrest⟩

/-- What a run comes to at a location none of whose writes has failed. -/
theorem keeps_executeAll (h : fs.Lawful tree) (hremove : Removes removeFile tree)
    {calls : List (String × Value)} {answers : List (Except ExecError Value)}
    (hrun : caps.executeAll fs removeFile calls w = some (answers, w')) {l : List Component}
    (hl : ∀ done ∈ calls.zip answers, ¬Spoils caps.root l done) :
    contentAt (tree w') l =
        (calls.zip answers).foldl (held caps.root l) (contentAt (tree w) l) ∧
      (tree w l = some .dir → tree w' l = some .dir) ∧
      ∀ pre capability args v post, calls.zip answers = pre ++ ((capability, args), .ok v) :: post →
        FitsAt caps.root l (pre.foldl (held caps.root l) (contentAt (tree w) l))
          (tree w' l = some .dir) capability args v := by
  induction calls generalizing w answers with
  | nil =>
    cases hrun
    exact ⟨rfl, id, fun pre _ _ _ post hsplit => absurd hsplit (by simp)⟩
  | cons call calls ih =>
    obtain ⟨answer, rest, w₁, rfl, hfirst, hrest⟩ := executeAll_cons hrun
    have hkeeps := keeps_execute h hremove hfirst
    rw [List.zip_cons_cons] at hl ⊢
    have hunspoiled := hl _ List.mem_cons_self
    have hnext := hkeeps.content l hunspoiled
    obtain ⟨hcontent, hdirs, hfits⟩ := ih hrest fun done hdone =>
      hl done (List.mem_cons_of_mem _ hdone)
    refine ⟨?_, fun hdir => hdirs (hkeeps.dirs l hunspoiled hdir), ?_⟩
    · rw [List.foldl_cons, hcontent, hnext]
    · intro pre capability args v post hsplit
      -- the call is the first one, or one of the others after it
      cases pre with
      | nil =>
        obtain ⟨heq, -⟩ := List.cons.inj hsplit
        obtain ⟨rfl, rfl⟩ := Prod.mk.inj heq
        exact (hkeeps.fits v rfl l).mono fun hdir => hdirs (hkeeps.dirs l hunspoiled hdir)
      | cons done pre =>
        obtain ⟨rfl, hrestSplit⟩ := List.cons.inj hsplit
        rw [List.foldl_cons, ← hnext]
        exact hfits pre capability args v post hrestSplit

/-- The jail keeps every call under the root. -/
theorem root_prefix_target {root : String} {args : Value} {l : List Component}
    (h : target root args = some l) : location root <+: l := by
  unfold target at h
  obtain ⟨name, -, h⟩ := Option.bind_eq_some_iff.mp h
  obtain ⟨path, hpath, h⟩ := Option.bind_eq_some_iff.mp h
  obtain rfl := Option.some.inj h
  have hjail : FsCaps.jail root name = .ok path := by
    unfold jail at hpath
    cases hj : FsCaps.jail root name with
    | error e => rw [hj] at hpath; cases hpath
    | ok path' => rw [hj] at hpath; exact congrArg Except.ok (Option.some.inj hpath)
  have hconfined := confined_jail root name
  rw [hjail] at hconfined
  obtain ⟨names, -, hlocation⟩ := hconfined
  exact ⟨_, hlocation.symm⟩

theorem foldl_held_of_outside {root : String} {l : List Component} (hl : ¬location root <+: l)
    (dones : List Answered) (content : Option ByteArray) :
    dones.foldl (held root l) content = content := by
  induction dones with
  | nil => rfl
  | cons done dones ih =>
    have hsame : held root l content done = content := by
      unfold held
      split
      · rfl
      · exact if_neg fun htarget => hl (root_prefix_target htarget)
    rw [List.foldl_cons, hsame, ih]

end Laws

/-- After any run of calls, a file outside the root is as it was, and a file none of whose writes
has failed holds what the calls that succeeded, in their order, have made of it: the source of the
last `create` or `edit`, or nothing after a `delete`. Each of them found what it needs: a `create`
no file, an `edit` and a `delete` a file, and a `list` names all the skill files that are directly
under the root, in order and besides them only directories. -/
theorem skills_kept {W : Type} {caps : SkillCaps} {fs : FileSystem W} {tree : W → Tree}
    {removeFile : String → Sys W (Except String Unit)} {w w' : W} (h : fs.Lawful tree)
    (hremove : Removes removeFile tree) {calls : List (String × Value)}
    {answers : List (Except ExecError Value)}
    (hrun : caps.executeAll fs removeFile calls w = some (answers, w')) (l : List Component) :
    (¬location caps.root <+: l → contentAt (tree w') l = contentAt (tree w) l) ∧
    ((∀ done ∈ calls.zip answers, ¬Spoils caps.root l done) →
      contentAt (tree w') l =
          (calls.zip answers).foldl (held caps.root l) (contentAt (tree w) l) ∧
        ∀ pre capability args v post,
          calls.zip answers = pre ++ ((capability, args), .ok v) :: post →
            FitsAt caps.root l (pre.foldl (held caps.root l) (contentAt (tree w) l))
              (tree w' l = some .dir) capability args v) := by
  constructor
  · intro hl
    have hunspoiled : ∀ done ∈ calls.zip answers, ¬Spoils caps.root l done :=
      fun done _ hspoils => hl (root_prefix_target hspoils.1)
    rw [(keeps_executeAll h hremove hrun hunspoiled).1, foldl_held_of_outside hl]
  · intro hl
    obtain ⟨hcontent, -, hfits⟩ := keeps_executeAll h hremove hrun hl
    exact ⟨hcontent, hfits⟩

/-! ## On a disk -/

theorem lookup_filter_ne (nodes : List (List Component × Node)) (l l' : List Component) :
    (nodes.filter fun p => p.1 ≠ l).lookup l' = if l' = l then none else nodes.lookup l' := by
  induction nodes with
  | nil => simp
  | cons p nodes ih =>
    obtain ⟨k, node⟩ := p
    rw [List.lookup_cons]
    by_cases hk : k = l
    · subst hk
      have hdrop : ((k, node) :: nodes).filter (fun p => p.1 ≠ k) =
          nodes.filter fun p => p.1 ≠ k := by simp
      rw [hdrop, ih]
      by_cases hl : l' = k <;> simp [hl, beq_eq_false_iff_ne.mpr]
    · have hkeep : ((k, node) :: nodes).filter (fun p => p.1 ≠ l) =
          (k, node) :: nodes.filter fun p => p.1 ≠ l := by simp [hk]
      rw [hkeep, List.lookup_cons, ih]
      by_cases hl : l' = l
      · subst hl
        have hne : (l' == k) = false := beq_eq_false_iff_ne.mpr (Ne.symm hk)
        simp [hne]
      · simp [hl]

theorem treeOf_filter_ne {l : List Component} (hl : l ≠ []) (nodes : List (List Component × Node))
    (l' : List Component) :
    treeOf (nodes.filter fun p => p.1 ≠ l) l' = if l' = l then none else treeOf nodes l' := by
  unfold treeOf
  rw [lookup_filter_ne]
  by_cases hl' : l' = []
  · rw [if_pos hl', if_pos hl', if_neg fun heq => hl (heq.symm.trans hl')]
  · rw [if_neg hl', if_neg hl']

def unlink (d : Disk) (l : List Component) (content : ByteArray)
    (h : d.tree l = some (.file content)) : Disk where
  nodes := d.nodes.filter fun p => p.1 ≠ l
  nested := by
    have hl : l ≠ [] := by
      rintro rfl
      rw [d.tree_nil] at h
      cases h
    intro l' c hne
    rw [treeOf_filter_ne hl] at hne ⊢
    split_ifs at hne
    · exact absurd rfl hne
    have hdir := d.nested l' c hne
    -- what has entries is no file
    have hother : l' ≠ l := by
      rintro rfl
      rw [← Disk.tree, h] at hdir
      cases hdir
    rw [if_neg hother]
    exact hdir
  time := d.time

def removeFile (path : String) : Sys Disk (Except String Unit) := fun d =>
  match h : d.tree (location path) with
  | some (.file content) => some (.ok (), unlink d (location path) content h)
  | _ => some (.error "no such file", d)

theorem tree_unlink {d : Disk} {l : List Component} {content : ByteArray}
    (h : d.tree l = some (.file content)) (l' : List Component) :
    (unlink d l content h).tree l' = if l' = l then none else d.tree l' := by
  have hl : l ≠ [] := by
    rintro rfl
    rw [d.tree_nil] at h
    cases h
  exact treeOf_filter_ne hl d.nodes l'

theorem removes_removeFile : Removes removeFile Disk.tree where
  ok path d d' hrun := by
    unfold removeFile at hrun
    split at hrun
    · rename_i content h
      cases hrun
      exact ⟨⟨content, h⟩, by rw [tree_unlink, if_pos rfl],
        fun l hl => by rw [tree_unlink, if_neg hl]⟩
    · cases hrun
  error path d e d' hrun := by
    unfold removeFile at hrun
    split at hrun
    · cases hrun
    · cases hrun
      rfl

theorem executeAll_of_cons {W : Type} {caps : SkillCaps} {fs : FileSystem W}
    {removeFile : String → Sys W (Except String Unit)} {w w₁ w' : W} {call : String × Value}
    {calls : List (String × Value)} {answer : Except ExecError Value}
    {answers : List (Except ExecError Value)}
    (hcall : (caps.execute fs removeFile call.1 call.2).run.run w = some (answer, w₁))
    (hcalls : caps.executeAll fs removeFile calls w₁ = some (answers, w')) :
    caps.executeAll fs removeFile (call :: calls) w = some (answer :: answers, w') := by
  change ((caps.execute fs removeFile call.1 call.2).run.run w).bind (fun r =>
    (caps.executeAll fs removeFile calls r.2).bind fun q => some (r.1 :: q.1, q.2)) = _
  rw [hcall, Option.bind_some, hcalls]
  rfl

theorem execute_list {W : Type} {caps : SkillCaps} {fs : FileSystem W}
    {removeFile : String → Sys W (Except String Unit)} {w w' : W} {names sorted : List String}
    (hnames : (caps.listNames fs).run.run w = some (.ok names, w'))
    (hsorted : sortStrings names = sorted) (args : Value) :
    (caps.execute fs removeFile "cap.skill.list" args).run.run w =
      some (.ok (.object [("skills", .array (sorted.map .string))]), w') := by
  change ((caps.listNames fs >>= _).run.run w) = _
  rw [Fallible.run_bind, hnames, ← hsorted]
  rfl

/-! ## Two skills of which one is edited and deleted -/

namespace TwoSkills

def root : List Component := [.normal ['s']]

def f : List Component := root ++ [.normal ['f', '.', 'p', 'y']]

def g : List Component := root ++ [.normal ['g', '.', 'p', 'y']]

def created : Disk :=
  (Disk.empty.put root .dir (by decide)).put f (.file "a".toUTF8) (by decide)

def both : Disk := created.put g (.file "g".toUTF8) (by decide)

def edited : Disk := both.put f (.file "b".toUTF8) (by decide)

def deleted : Disk := unlink edited f "b".toUTF8 rfl

def caps : SkillCaps := ⟨"s", "lib"⟩

def saving (name source : String) : Value :=
  .object [("name", .string name), ("source", .string source)]

def calls : List (String × Value) :=
  [("cap.skill.create", saving "f.py" "a"), ("cap.skill.create", saving "g.py" "g"),
    ("cap.skill.list", .object []), ("cap.skill.edit", saving "f.py" "b"),
    ("cap.skill.delete", .object [("name", .string "f.py")]), ("cap.skill.list", .object [])]

def saved (name : String) : Value := .object [("ok", .bool true), ("path", .string name)]

def listed (names : List String) : Value := .object [("skills", .array (names.map .string))]

def answers : List Value :=
  [saved "f.py", saved "g.py", listed ["f.py", "g.py"], saved "f.py", .object [("ok", .bool true)],
    listed ["g.py"]]

theorem executeAll_calls :
    caps.executeAll Disk.fs removeFile calls Disk.empty = some (answers.map .ok, deleted) := by
  have hcreate : ((caps.execute Disk.fs removeFile "cap.skill.create" (saving "f.py" "a")).run.run
      Disk.empty) = some (.ok (saved "f.py"), created) := rfl
  have hboth : ((caps.execute Disk.fs removeFile "cap.skill.create" (saving "g.py" "g")).run.run
      created) = some (.ok (saved "g.py"), both) := rfl
  have htwo : sortStrings ["g.py", "f.py"] = ["f.py", "g.py"] := by
    unfold sortStrings
    rw [List.mergeSort]
    simp [List.MergeSort.Internal.splitInTwo]
  have hlist : (caps.listNames Disk.fs).run.run both = some (.ok ["g.py", "f.py"], both) := rfl
  have hedit : ((caps.execute Disk.fs removeFile "cap.skill.edit" (saving "f.py" "b")).run.run
      both) = some (.ok (saved "f.py"), edited) := rfl
  have hdelete : ((caps.execute Disk.fs removeFile "cap.skill.delete"
      (.object [("name", .string "f.py")])).run.run edited) =
        some (.ok (.object [("ok", .bool true)]), deleted) := rfl
  have hone : sortStrings ["g.py"] = ["g.py"] := List.mergeSort_singleton _
  have hlist' : (caps.listNames Disk.fs).run.run deleted = some (.ok ["g.py"], deleted) := rfl
  exact executeAll_of_cons hcreate (executeAll_of_cons hboth (executeAll_of_cons
    (execute_list hlist htwo _) (executeAll_of_cons hedit (executeAll_of_cons hdelete
      (executeAll_of_cons (execute_list hlist' hone _) rfl)))))

/-- No write has failed. -/
theorem not_spoils (l : List Component) :
    ∀ done ∈ calls.zip (answers.map .ok), ¬Spoils "s" l done := by
  rintro done hdone ⟨-, e, he⟩
  obtain ⟨v, -, hv⟩ := List.mem_map.mp (List.of_mem_zip hdone).2
  rw [← hv] at he
  cases he

/-- What is edited and deleted is gone, and the other skill stays. -/
theorem skills_kept_two :
    caps.executeAll Disk.fs removeFile calls Disk.empty = some (answers.map .ok, deleted) ∧
      contentAt deleted.tree f = none ∧ contentAt deleted.tree g = some "g".toUTF8 ∧
      contentAt deleted.tree (location "f.py") = none := by
  have hkept := skills_kept Disk.lawful removes_removeFile executeAll_calls
  refine ⟨executeAll_calls, ?_, ?_, ?_⟩
  · exact ((hkept f).2 (not_spoils f)).1
  · exact ((hkept g).2 (not_spoils g)).1
  · exact (hkept (location "f.py")).1 (by decide)

end TwoSkills

end SkillCaps

end Pan
