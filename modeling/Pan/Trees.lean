import Mathlib
import Pan.Locations

namespace Pan

/-! ## Laws of the calls -/

inductive Node where
  | file (content : ByteArray)
  | dir
deriving DecidableEq

abbrev Tree := List Component → Option Node

/-- The locations that a path leads through, and the one that it leads to. -/
def places (path : String) : List (List Component) :=
  (components path).inits.map (List.foldl Component.push [])

def entryOf (dir : String) (name : List Char) : List Component := location dir ++ [.normal name]

namespace FileSystem

variable {W : Type}

/-- The calls act on a tree as they are documented to. -/
structure Lawful (fs : FileSystem W) (tree : W → Tree) : Prop where
  nested : ∀ w l c, tree w (l ++ [c]) ≠ none → tree w l = some .dir
  read : ∀ path w r w', fs.read path w = some (r, w') → tree w' = tree w ∧
    ∀ content, r = .ok content → tree w (location path) = some (.file content)
  write : ∀ path content w r w', fs.write path content w = some (r, w') →
    (∀ l, l ≠ location path → tree w' l = tree w l) ∧
      (r = .ok () → tree w (location path) ≠ some .dir ∧
        tree w' (location path) = some (.file content))
  createDirAll : ∀ path w r w', fs.createDirAll path w = some (r, w') →
    (∀ l, tree w' l = tree w l ∨ l ∈ places path ∧ tree w l = none ∧ tree w' l = some .dir) ∧
      (r = .ok () → ∀ l ∈ places path, tree w' l = some .dir)
  readDir : ∀ path w r w', fs.readDir path w = some (r, w') → tree w' = tree w ∧
    ∀ listing entries, r = .ok listing → listing.mapM id = .ok entries →
      entries.Nodup ∧ ∀ e : DirEntry, e ∈ entries ↔ tree w (entryOf path e.name.toList) ≠ none
  pathExists : ∀ path w b w', fs.pathExists path w = some (b, w') → tree w' = tree w ∧
    (b = true ↔ tree w (location path) ≠ none)
  now : ∀ w t w', fs.now w = some (t, w') → tree w' = tree w

/-- The time goes on from each look at the clock to the next. -/
structure Ticking (fs : FileSystem W) (clock : W → ℕ) : Prop where
  now : ∀ w t w', fs.now w = some (t, w') → clock w < t ∧ clock w' = t
  read : ∀ path w r w', fs.read path w = some (r, w') → clock w' = clock w
  write : ∀ path content w r w', fs.write path content w = some (r, w') → clock w' = clock w
  createDirAll : ∀ path w r w', fs.createDirAll path w = some (r, w') → clock w' = clock w
  pathExists : ∀ path w b w', fs.pathExists path w = some (b, w') → clock w' = clock w

/-- No call fails that finds what it needs. -/
structure Reliable (fs : FileSystem W) (tree : W → Tree) : Prop where
  read : ∀ path w content, tree w (location path) = some (.file content) →
    ∃ content' w', fs.read path w = some (.ok content', w')
  write : ∀ path content w old, tree w (location path) = some (.file old) →
    ∃ w', fs.write path content w = some (.ok (), w')
  createDirAll : ∀ path w, (∀ l ∈ places path, tree w l = some .dir) →
    ∃ w', fs.createDirAll path w = some (.ok (), w')
  readDir : ∀ path w, tree w (location path) = some .dir →
    ∃ listing entries w', fs.readDir path w = some (.ok listing, w') ∧
      listing.mapM id = .ok entries
  pathExists : ∀ path w, ∃ b w', fs.pathExists path w = some (b, w')

end FileSystem

/-! ## Places -/

theorem mem_places {path : String} {l : List Component} :
    l ∈ places path ↔ ∃ cs, cs <+: components path ∧ cs.foldl Component.push [] = l := by
  simp only [places, List.mem_map, List.mem_inits]

theorem location_mem_places (path : String) : location path ∈ places path :=
  mem_places.mpr ⟨components path, List.prefix_rfl, rfl⟩

theorem places_parent {path parent : String} (h : Path.parent path = some parent) :
    places parent ⊆ places path := by
  intro l hl
  obtain ⟨cs, hcs, rfl⟩ := mem_places.mp hl
  exact mem_places.mpr ⟨cs, hcs.trans (components_parent h), rfl⟩

/-- The path leads through an entry of the directory. -/
def Enters (dir path : String) : Prop := ∃ name l, l ∈ places path ∧ entryOf dir name <+: l

theorem entryOf_notMem_places {dir path : String} (h : ¬Enters dir path) (name : List Char) :
    entryOf dir name ∉ places path :=
  fun hmem => h ⟨name, _, hmem, List.prefix_rfl⟩

theorem entryOf_ne_location {dir path : String} (h : ¬Enters dir path) (name : List Char) :
    entryOf dir name ≠ location path :=
  fun heq => entryOf_notMem_places h name (heq ▸ location_mem_places path)

theorem entryOf_eq_iff {dir dir' : String} {name name' : List Char} :
    entryOf dir name = entryOf dir' name' ↔ location dir = location dir' ∧ name = name' := by
  constructor
  · intro h
    obtain ⟨hdir, hname⟩ := List.append_inj' h rfl
    rw [List.singleton_inj, Component.normal.injEq] at hname
    exact ⟨hdir, hname⟩
  · rintro ⟨hdir, rfl⟩
    rw [entryOf, hdir, entryOf]

theorem entryOf_inj {dir : String} {name name' : List Char} :
    entryOf dir name = entryOf dir name' ↔ name = name' := by
  simp only [entryOf_eq_iff, true_and]

theorem mem_foldl_push {c : Component} {cs stack : List Component}
    (hc : c ∈ cs.foldl Component.push stack) : c ∈ stack ∨ c ∈ cs := by
  induction cs generalizing stack with
  | nil => exact Or.inl hc
  | cons d cs ih =>
    have hpush : c ∈ Component.push stack d → c ∈ stack ∨ c = d := by
      intro h
      unfold Component.push at h
      split at h
      · exact Or.inl h
      · exact Or.inr (List.mem_singleton.mp h)
      · exact (List.mem_append.mp h).imp_right List.mem_singleton.mp
      · split at h
        · exact Or.inl (List.dropLast_subset _ h)
        · exact Or.inl h
        · exact (List.mem_append.mp h).imp_right List.mem_singleton.mp
    rcases ih hc with h | h
    · rcases hpush h with h | rfl
      · exact Or.inl h
      · exact Or.inr List.mem_cons_self
    · exact Or.inr (List.mem_cons_of_mem d h)

theorem length_foldl_push (cs stack : List Component) :
    (cs.foldl Component.push stack).length ≤ stack.length + cs.length := by
  induction cs generalizing stack with
  | nil => exact le_rfl
  | cons d cs ih =>
    have hpush : (Component.push stack d).length ≤ stack.length + 1 := by
      unfold Component.push
      split
      · exact Nat.le_succ _
      · simp
      · simp
      · split <;> simp
        omega
    rw [List.foldl_cons, List.length_cons]
    have hrest := ih (Component.push stack d)
    omega

/-- A path that enters a directory is longer than the way to it. -/
theorem Enters.length_lt {dir path : String} (h : Enters dir path) :
    (location dir).length < (components path).length := by
  obtain ⟨name, l, hl, hentry⟩ := h
  obtain ⟨cs, hcs, rfl⟩ := mem_places.mp hl
  have hfold := length_foldl_push cs []
  have hbelow := hentry.length_le
  have hcs' := hcs.length_le
  simp only [entryOf, List.length_append, List.length_cons, List.length_nil] at hbelow hfold
  omega

theorem mem_tail_components {path : String} {c : Component} (hc : c ∈ (components path).tail) :
    c = .parentDir ∨ ∃ name, c = .normal name := by
  have hbelow : c ∈ below path := by
    by_cases hpath : path.toList.head? = some '/'
    · rw [components_of_absolute hpath] at hc
      exact hc
    · rcases components_of_relative hpath with h | h <;> rw [h] at hc
      · exact List.tail_subset _ hc
      · exact hc
  exact mem_below hbelow

theorem prefix_foldl_push {cs : List Component} (hcs : ∀ c ∈ cs, ∃ name, c = .normal name)
    (stack : List Component) : stack <+: cs.foldl Component.push stack := by
  induction cs generalizing stack with
  | nil => exact List.prefix_rfl
  | cons c cs ih =>
    obtain ⟨name, rfl⟩ := hcs c List.mem_cons_self
    exact (List.prefix_append stack _).trans (ih (fun c hc => hcs c (List.mem_cons_of_mem _ hc)) _)

/-- A path that never goes back does not lead through what is below it. -/
theorem not_enters_self {path : String} (hpath : .parentDir ∉ components path) :
    ¬Enters path path := by
  rintro ⟨name, l, hl, hentry⟩
  obtain ⟨cs, ⟨ds, hds⟩, rfl⟩ := mem_places.mp hl
  have hbelow : cs.foldl Component.push [] <+: location path := by
    cases cs with
    | nil => exact List.nil_prefix
    | cons c cs =>
      unfold location
      rw [← hds, List.foldl_append]
      refine prefix_foldl_push (fun d hd => ?_) _
      have htail : d ∈ (components path).tail := by
        rw [← hds]
        exact List.mem_append_right cs hd
      refine (mem_tail_components htail).resolve_left fun hparent => hpath ?_
      exact hparent ▸ List.tail_subset _ htail
  have hlength := (hentry.trans hbelow).length_le
  rw [entryOf, List.length_append, List.length_singleton] at hlength
  omega

end Pan
