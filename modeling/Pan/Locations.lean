import Pan.FileSystem

namespace Pan

/-! ## Components of relative and absolute paths -/

/-- A relative path begins with its components below, after a dot at most. -/
theorem components_of_relative {rel : String} (hrel : rel.toList.head? ≠ some '/') :
    components rel = below rel ∨ components rel = .curDir :: below rel := by
  unfold components
  simp only [hrel, if_false]
  split_ifs
  · exact Or.inr rfl
  · exact Or.inl rfl

theorem components_of_absolute {path : String} (hpath : path.toList.head? = some '/') :
    components path = .rootDir :: below path := by
  unfold components
  simp only [hpath, if_true]
  rfl

/-- Below the beginning of a path there are names and `..` only. -/
theorem mem_below {rel : String} {c : Component} (hc : c ∈ below rel) :
    c = .parentDir ∨ ∃ name, c = .normal name := by
  obtain ⟨s, -, hs⟩ := List.mem_filterMap.mp hc
  unfold Component.ofSegment at hs
  split at hs
  · cases hs
  · cases hs
  · exact Or.inl (Option.some.inj hs).symm
  · exact Or.inr ⟨_, (Option.some.inj hs).symm⟩

/-! ## The parent of a path -/

theorem front_append_body (path : String) :
    components path = Path.front path ++ (Path.body path).filterMap Component.ofSegment := by
  unfold components Path.body Path.front
  dsimp only
  obtain ⟨first, rest, hsegments⟩ :=
    List.exists_cons_of_ne_nil (List.splitOn_ne_nil '/' path.toList)
  rw [hsegments]
  split_ifs with habsolute hdot
  · -- before the root there is nothing
    obtain ⟨tail, htail⟩ := List.head?_eq_some_iff.mp habsolute
    rw [htail, List.splitOn_cons_eq_if_modifyHead] at hsegments
    obtain rfl : first = [] := by simpa using (List.cons.inj hsegments).1.symm
    rfl
  · obtain rfl : first = ['.'] := by simpa using hdot
    rfl
  · rfl

/-- A path that is put together again of its front and of segments has the components of these. -/
theorem components_render {path : String} {segments : List (List Char)}
    (h : segments <+: Path.body path) :
    components (Path.render (Path.front path) segments) =
      Path.front path ++ segments.filterMap Component.ofSegment := by
  have hsegment : ∀ s ∈ segments, '/' ∉ s := fun s hs =>
    Text.notMem_of_mem_splitOn (List.mem_of_mem_drop (h.subset hs))
  have hsplit : segments ≠ [] → (['/'].intercalate segments).splitOn '/' = segments :=
    List.splitOn_intercalate '/' hsegment
  have hvoid : segments = [] → (['/'].intercalate segments).splitOn '/' = [[]] := by
    rintro rfl
    rfl
  have hbelow : ((['/'].intercalate segments).splitOn '/').filterMap Component.ofSegment =
      segments.filterMap Component.ofSegment := by
    by_cases hnil : segments = []
    · rw [hvoid hnil, hnil]
      rfl
    · rw [hsplit hnil]
  unfold Path.render Path.front
  split_ifs with habsolute hdot
  · unfold components
    simp only [String.toList_ofList, List.head?_cons, if_true, List.splitOn_cons_eq_if_modifyHead]
    exact congrArg (Component.rootDir :: ·) hbelow
  · -- the dot is a segment of its own
    have hhead : (['/'].intercalate (['.'] :: segments)).head? = some '.' := by
      cases segments <;> simp
    have hwhole : (['/'].intercalate (['.'] :: segments)).splitOn '/' = ['.'] :: segments := by
      refine List.splitOn_intercalate '/' (fun s hs => ?_) (List.cons_ne_nil _ _)
      rcases List.mem_cons.mp hs with rfl | hs
      · decide
      · exact hsegment s hs
    unfold components
    simp only [String.toList_ofList, hhead, hwhole]
    rfl
  · unfold Path.body Path.front at h
    rw [if_neg habsolute, if_neg hdot, List.length_nil, List.drop_zero] at h
    rcases List.eq_nil_or_concat segments with rfl | hconcat
    · rfl
    · have hnil : segments ≠ [] := by
        obtain ⟨l, s, rfl⟩ := hconcat
        simp
      obtain ⟨first, rest, rfl⟩ := List.exists_cons_of_ne_nil hnil
      obtain ⟨tail, htail⟩ := h
      have hfirst : (path.toList.splitOn '/').head? = some first :=
        (congrArg List.head? htail).symm
      -- the path is not absolute, so what is rendered must not begin with a slash either
      have hhead : (['/'].intercalate (first :: rest)).head? ≠ some '/' := by
        intro hslash
        apply habsolute
        have hpath : ['/'].intercalate (path.toList.splitOn '/') = path.toList :=
          List.intercalate_splitOn '/'
        rw [← hpath, ← htail]
        cases first with
        | nil =>
          cases rest with
          | nil => simp at hslash
          | cons s rest => simp
        | cons c first =>
          have hc : c = '/' := by cases rest <;> simpa using hslash
          exact absurd List.mem_cons_self (hc ▸ hsegment _ List.mem_cons_self)
      unfold components
      simp only [String.toList_ofList, hhead, if_false, hsplit hnil]
      rw [hfirst] at hdot
      simp [hdot]

/-- A parent has the components of its path up to some place. -/
theorem components_parent {path parent : String} (h : Path.parent path = some parent) :
    components parent <+: components path := by
  rw [front_append_body path]
  unfold Path.parent at h
  split at h
  · cases h
  · cases h
  · cases h
    exact List.nil_prefix
  · cases h
    have hbody : ((Path.body path).rdropWhile Path.isVoid).dropLast.rdropWhile Path.isVoid <+:
        Path.body path :=
      (List.rdropWhile_prefix _ _).trans
        ((List.dropLast_prefix _).trans (List.rdropWhile_prefix _ _))
    rw [components_render hbody]
    exact List.prefix_append_right_inj _ |>.mpr (hbody.filterMap _)

/-! ## Locations -/

def Component.push (stack : List Component) : Component → List Component
  | .curDir => stack
  | .rootDir => [.rootDir]
  | .normal name => stack ++ [.normal name]
  | .parentDir =>
    match stack.getLast? with
    | some (.normal _) => stack.dropLast
    | some .rootDir => stack
    | _ => stack ++ [.parentDir]

def location (path : String) : List Component := (components path).foldl Component.push []

/-- Names lead further down. -/
theorem foldl_push_names (names : List (List Char)) (stack : List Component) :
    (names.map Component.normal).foldl Component.push stack =
      stack ++ names.map Component.normal := by
  induction names generalizing stack with
  | nil => exact (List.append_nil stack).symm
  | cons name names ih =>
    rw [List.map_cons, List.foldl_cons, ih]
    exact List.append_assoc stack _ _

/-- The file lies in the directory itself, not further down and not elsewhere. -/
def DirectlyIn (dir file : String) : Prop := ∃ name, location file = location dir ++ [.normal name]

theorem location_of_relative {rel : String} (hrel : rel.toList.head? ≠ some '/') :
    location rel = (below rel).foldl Component.push [] := by
  unfold location
  rcases components_of_relative hrel with h | h <;> rw [h]
  rfl

theorem Path.join_of_relative {dir rel : String} (hrel : rel.toList.head? ≠ some '/') :
    Path.join dir rel = joinPath dir rel := if_neg hrel

/-- A relative path is followed from where the directory leads. -/
theorem location_join {dir rel : String} (hrel : rel.toList.head? ≠ some '/') :
    location (Path.join dir rel) = (below rel).foldl Component.push (location dir) := by
  rw [Path.join_of_relative hrel]
  by_cases hdir : dir = ""
  · subst hdir
    rw [joinPath_empty, location_of_relative hrel]
    rfl
  · unfold location
    rw [components_joinPath hdir, List.foldl_append]

theorem location_join_of_absolute {dir path : String} (hpath : path.toList.head? = some '/') :
    location (Path.join dir path) = location path := by
  unfold Path.join
  rw [if_pos hpath]

/-- An absolute path leads to a location under the root. -/
theorem head_location_of_absolute {path : String} (hpath : path.toList.head? = some '/') :
    (location path).head? = some .rootDir := by
  have hkeep : ∀ cs stack : List Component,
      (∀ c ∈ cs, c = .parentDir ∨ ∃ name, c = .normal name) →
        stack.head? = some .rootDir → (cs.foldl Component.push stack).head? = some .rootDir := by
    intro cs
    induction cs with
    | nil => exact fun _ _ h => h
    | cons c cs ih =>
      intro stack hcs hstack
      obtain ⟨rest, rfl⟩ := List.head?_eq_some_iff.mp hstack
      refine ih _ (fun c' hc' => hcs c' (List.mem_cons_of_mem c hc')) ?_
      rcases hcs c List.mem_cons_self with rfl | ⟨name, rfl⟩
      · unfold Component.push
        dsimp only
        split
        · -- the name that is taken back is not the root
          rename_i name hlast
          cases rest with
          | nil => simp at hlast
          | cons c rest => simp
        · rfl
        · rfl
      · rfl
  unfold location
  rw [components_of_absolute hpath, List.foldl_cons]
  exact hkeep _ _ (fun _ hc => mem_below hc) rfl

/-! ## Names of files -/

/-- One component further down, or back up as far as where it began. -/
def Component.descend (names : List Component) : Component → Option (List Component)
  | .normal name => some (names ++ [.normal name])
  | .parentDir => if names.isEmpty then none else some names.dropLast
  | .curDir => some names
  | .rootDir => none

/-- A relative path that never leaves where it starts and comes down to one name. -/
def SingleName (s : String) : Prop :=
  s.toList.head? ≠ some '/' ∧
    ∃ name, (below s).foldlM Component.descend [] = some [.normal name]

/-- What has been gone down can be taken back. -/
def Names (names : List Component) : Prop := ∀ c ∈ names, ∃ name, c = Component.normal name

theorem Names.descend {names names' : List Component} {c : Component} (h : Names names)
    (hc : c.descend names = some names') : Names names' := by
  cases c with
  | rootDir => cases hc
  | curDir =>
    cases hc
    exact h
  | normal name =>
    cases hc
    intro c hc
    rcases List.mem_append.mp hc with hc | hc
    · exact h c hc
    · exact ⟨name, List.mem_singleton.mp hc⟩
  | parentDir =>
    unfold Component.descend at hc
    dsimp only at hc
    split_ifs at hc
    cases hc
    exact fun c hc => h c (List.dropLast_subset names hc)

/-- From any directory the way down is the same. -/
theorem Names.push {names names' : List Component} {c : Component} (h : Names names)
    (hc : c.descend names = some names') (base : List Component) :
    Component.push (base ++ names) c = base ++ names' := by
  cases c with
  | rootDir => cases hc
  | curDir =>
    cases hc
    rfl
  | normal name =>
    cases hc
    exact List.append_assoc base names _
  | parentDir =>
    unfold Component.descend at hc
    dsimp only at hc
    split_ifs at hc with hempty
    cases hc
    rcases List.eq_nil_or_concat names with rfl | ⟨names, last, rfl⟩
    · exact absurd rfl hempty
    · obtain ⟨name, rfl⟩ := h last (by simp)
      simp [Component.push, ← List.append_assoc]

theorem foldl_push_of_descend {cs names names' : List Component} (h : Names names)
    (hcs : cs.foldlM Component.descend names = some names') (base : List Component) :
    cs.foldl Component.push (base ++ names) = base ++ names' := by
  induction cs generalizing names with
  | nil =>
    cases hcs
    rfl
  | cons c cs ih =>
    rw [List.foldlM_cons] at hcs
    obtain ⟨names₁, hc, hcs⟩ := Option.bind_eq_some_iff.mp hcs
    rw [List.foldl_cons, h.push hc base]
    exact ih (h.descend hc) hcs

/-- A single name stays in any directory. -/
theorem SingleName.directlyIn {s : String} (h : SingleName s) (dir : String) :
    DirectlyIn dir (Path.join dir s) := by
  obtain ⟨hrel, name, hdescend⟩ := h
  refine ⟨name, ?_⟩
  have hnames : Names [] := fun c hc => by cases hc
  rw [location_join hrel, ← foldl_push_of_descend hnames hdescend, List.append_nil]

/-- A path that has left a directory does not come back to it without naming it. -/
theorem not_prefix_push {stack dir : List Component} {d : List Char} {c : Component}
    (h : ¬dir ++ [.normal d] <+: stack) (hc : c = .parentDir ∨ ∃ name, c = .normal name)
    (hd : c ≠ .normal d) : ¬dir ++ [.normal d] <+: Component.push stack c := by
  have hconcat : ∀ c' : Component, c' ≠ .normal d → ¬dir ++ [.normal d] <+: stack ++ [c'] := by
    intro c' hc' hpre
    rcases List.prefix_concat_iff.mp hpre with heq | hpre
    · exact hc' (List.append_inj' heq rfl |>.2 |> List.singleton_inj.mp |> Eq.symm)
    · exact h hpre
  rcases hc with rfl | ⟨name, rfl⟩
  · unfold Component.push
    dsimp only
    split
    · exact fun hpre => h (hpre.trans (List.dropLast_prefix stack))
    · exact h
    · exact hconcat _ (by simp)
  · exact hconcat _ hd

theorem not_prefix_foldl_push {cs stack dir : List Component} {d : List Char}
    (h : ¬dir ++ [.normal d] <+: stack) (hcs : ∀ c ∈ cs, c = .parentDir ∨ ∃ name, c = .normal name)
    (hd : .normal d ∉ cs) : ¬dir ++ [.normal d] <+: cs.foldl Component.push stack := by
  induction cs generalizing stack with
  | nil => exact h
  | cons c cs ih =>
    rw [List.mem_cons, not_or] at hd
    exact ih (not_prefix_push h (hcs c List.mem_cons_self) (Ne.symm hd.1))
      (fun c' hc' => hcs c' (List.mem_cons_of_mem c hc')) hd.2

/-- A path that climbs out of where it starts is out of it for good, unless it names it. -/
theorem not_prefix_of_descend_none {cs names : List Component} {d : List Char}
    (dir : List Component) (h : Names names) (hnone : cs.foldlM Component.descend names = none)
    (hcs : ∀ c ∈ cs, c = .parentDir ∨ ∃ name, c = .normal name) (hd : .normal d ∉ cs) :
    ¬dir ++ [.normal d] <+: cs.foldl Component.push (dir ++ [.normal d] ++ names) := by
  induction cs generalizing names with
  | nil => cases hnone
  | cons c cs ih =>
    rw [List.mem_cons, not_or] at hd
    have hrest : ∀ c' ∈ cs, c' = .parentDir ∨ ∃ name, c' = .normal name :=
      fun c' hc' => hcs c' (List.mem_cons_of_mem c hc')
    rw [List.foldlM_cons] at hnone
    rw [List.foldl_cons]
    cases hc : c.descend names with
    | some names₁ =>
      rw [hc] at hnone
      rw [h.push hc]
      exact ih (h.descend hc) hnone hrest hd.2
    | none =>
      -- only a `..` right at the start leaves it
      refine not_prefix_foldl_push ?_ hrest hd.2
      rcases hcs c List.mem_cons_self with rfl | ⟨name, rfl⟩
      · unfold Component.descend at hc
        dsimp only at hc
        split_ifs at hc with hempty
        rw [List.isEmpty_iff.mp hempty]
        intro hpre
        have hlength := hpre.length_le
        simp [Component.push] at hlength
      · cases hc

/-- Some directory is left by every name that is not single: any that the name does not name. -/
theorem not_directlyIn {s dir : String} (hs : ¬SingleName s) {base : List Component} {d : List Char}
    (hdir : location dir = base ++ [.normal d]) (hhead : (location dir).head? ≠ some .rootDir)
    (hd : .normal d ∉ below s) : ¬DirectlyIn dir (Path.join dir s) := by
  rintro ⟨name, hname⟩
  by_cases hrel : s.toList.head? = some '/'
  · rw [location_join_of_absolute hrel] at hname
    have habsolute := head_location_of_absolute hrel
    rw [hname, hdir] at habsolute
    rw [hdir] at hhead
    cases base <;> simp_all
  · rw [location_join hrel] at hname
    have hnames : Names [] := fun c hc => by cases hc
    cases hdescend : (below s).foldlM Component.descend [] with
    | none =>
      have hleft := not_prefix_of_descend_none base hnames hdescend
        (fun _ hc => mem_below hc) hd
      rw [List.append_nil, ← hdir, hname] at hleft
      exact hleft (List.prefix_append _ _)
    | some names =>
      have hpush := foldl_push_of_descend hnames hdescend (location dir)
      rw [List.append_nil, hname] at hpush
      exact hs ⟨hrel, name, hdescend.trans (congrArg some (List.append_cancel_left hpush).symm)⟩

/-- A name is the only component of its own text. -/
theorem below_of_plain {name : List Char} (hslash : '/' ∉ name)
    (hplain : name ≠ [] ∧ name ≠ ['.'] ∧ name ≠ ['.', '.']) :
    below (.ofList name) = [.normal name] := by
  unfold below
  rw [String.toList_ofList, List.splitOn_eq_singleton hslash,
    List.filterMap_cons_some (Component.ofSegment_of_plain hplain)]
  rfl

/-- The name of a directory that is not in a path: it is too long. -/
def otherName (s : String) : List Char := List.replicate (s.toList.length + 1) 'a'

theorem mem_otherName {s : String} {c : Char} (hc : c ∈ otherName s) : c = 'a' :=
  (List.mem_replicate.mp hc).2

theorem head_otherName (s : String) : (String.ofList (otherName s)).toList.head? = some 'a' := by
  rw [String.toList_ofList, otherName, List.replicate_succ]
  rfl

theorem below_otherName (s : String) :
    below (.ofList (otherName s)) = [.normal (otherName s)] := by
  have hne : otherName s ≠ [] := by simp [otherName]
  refine below_of_plain (fun hslash => ?_) ⟨hne, fun h => ?_, fun h => ?_⟩
  · exact absurd (mem_otherName hslash) (by decide)
  · exact absurd (mem_otherName (c := '.') (s := s) (by simp [h])) (by decide)
  · exact absurd (mem_otherName (c := '.') (s := s) (by simp [h])) (by decide)

theorem normal_otherName_notMem_below (s : String) : .normal (otherName s) ∉ below s := by
  intro hmem
  obtain ⟨segment, hsegment, hs⟩ := List.mem_filterMap.mp hmem
  have htext : otherName s = segment := Component.text_of_ofSegment hs
  have hlength : segment.length ≤ s.toList.length := by
    refine (List.sublist_flatten_of_mem hsegment).length_le.trans ?_
    rw [Text.flatten_splitOn]
    exact List.length_filter_le _ _
  rw [← htext, otherName, List.length_replicate] at hlength
  exact absurd hlength (by omega)

end Pan
