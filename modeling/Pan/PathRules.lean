import Mathlib.Data.List.Permutation
import Pan.Governors

namespace Pan

/-! ## The jail -/

inductive Component where
  | rootDir
  | curDir
  | parentDir
  | normal (name : List Char)
deriving DecidableEq

namespace Component

/-- What stands between two separators. Nothing and `.` are no components of their own. -/
def ofSegment : List Char → Option Component
  | [] => none
  | ['.'] => none
  | ['.', '.'] => some parentDir
  | name => some (normal name)

def text : Component → List Char
  | rootDir => ['/']
  | curDir => ['.']
  | parentDir => ['.', '.']
  | normal name => name

end Component

/-- `Path::components`: a `.` counts at the beginning alone. -/
def components (path : String) : List Component :=
  let segments := path.toList.splitOn '/'
  (if path.toList.head? = some '/' then [.rootDir]
    else if segments.head? = some ['.'] then [.curDir]
    else []) ++ segments.filterMap Component.ofSegment

def fileOf (path : String) : List Component := (components path).filter fun c => c ≠ .curDir

/-- `Path::join` with a relative path. -/
def joinPath (root rel : String) : String :=
  if root.toList.getLast?.all (· = '/') then root ++ rel else root ++ "/" ++ rel

namespace FsCaps

def refusal (rel : String) : Component → Option ExecError
  | .parentDir => some ⟨s!"`..` in `{rel}` is not allowed"⟩
  | .rootDir => some ⟨s!"`{rel}` must be relative"⟩
  | _ => none

/-- The path that the executor opens for the path of a request. -/
def jail (root rel : String) : Except ExecError String :=
  if rel.toList.head? = some '/' then .error ⟨s!"absolute path `{rel}` is not allowed"⟩
  else
    match (components rel).findSome? (refusal rel) with
    | some e => .error e
    | none => .ok (joinPath root rel)

end FsCaps

/-! ## Spellings of a file -/

def below (rel : String) : List Component :=
  (rel.toList.splitOn '/').filterMap Component.ofSegment

theorem Component.ofSegment_ne_curDir {s : List Char} {c : Component}
    (h : Component.ofSegment s = some c) : c ≠ .curDir := by
  rintro rfl
  unfold ofSegment at h
  split at h <;> simp at h

theorem Component.text_of_ofSegment {s : List Char} {c : Component}
    (h : Component.ofSegment s = some c) : c.text = s := by
  unfold ofSegment at h
  split at h <;> simp at h <;> simp [← h, text]

theorem Component.ofSegment_eq_none {s : List Char} :
    Component.ofSegment s = none ↔ s = [] ∨ s = ['.'] := by
  unfold ofSegment
  split <;> simp_all

theorem Component.ofSegment_of_plain {name : List Char}
    (hplain : name ≠ [] ∧ name ≠ ['.'] ∧ name ≠ ['.', '.']) :
    Component.ofSegment name = some (.normal name) := by
  unfold ofSegment
  split <;> simp_all

theorem filter_below (rel : String) : (below rel).filter (fun c => c ≠ .curDir) = below rel := by
  rw [List.filter_eq_self]
  intro c hc
  obtain ⟨s, -, hs⟩ := List.mem_filterMap.mp hc
  simpa using Component.ofSegment_ne_curDir hs

/-- The file of a path, without the special case of a `.` at its beginning. -/
theorem fileOf_eq (path : String) :
    fileOf path = (if path.toList.head? = some '/' then [.rootDir] else []) ++ below path := by
  unfold fileOf components
  rw [List.filter_append]
  change _ ++ (below path).filter _ = _
  rw [filter_below]
  split_ifs <;> simp

/-- A path that is joined to another one adds its components to it. -/
theorem components_joinPath {root : String} (hroot : root ≠ "") (rel : String) :
    components (joinPath root rel) = components root ++ below rel := by
  -- whether the root ends with a separator or not, there is one between the two
  have hcut : ∀ l : List Char, root.toList ≠ [] →
      joinPath root rel = String.ofList l ++ "/" ++ rel →
      root.toList = l ∨ root.toList = l ++ ['/'] →
        components (joinPath root rel) = components root ++ below rel := by
    intro l hne hjoin hl
    have hsegments : (String.ofList l ++ "/" ++ rel).toList.splitOn '/' =
        l.splitOn '/' ++ rel.toList.splitOn '/' := by
      rw [← List.splitOn_append_cons_self]
      simp
    obtain ⟨first, rest, hfirst⟩ := List.exists_cons_of_ne_nil (List.splitOn_ne_nil '/' l)
    have hroot' : root.toList.splitOn '/' = l.splitOn '/' ∨
        root.toList.splitOn '/' = l.splitOn '/' ++ [[]] := by
      rcases hl with hl | hl
      · exact Or.inl (congrArg _ hl)
      · refine Or.inr ?_
        rw [hl, List.splitOn_append_cons_self]
        simp
    have hhead : (String.ofList l ++ "/" ++ rel).toList.head? = root.toList.head? := by
      cases l with
      | nil =>
        rcases hl with hl | hl
        · exact absurd hl hne
        · simp [hl]
      | cons c l => rcases hl with hl | hl <;> simp [hl]
    -- an empty segment at the end of the root is no component
    have hfront : (l.splitOn '/' ++ rel.toList.splitOn '/').head? =
        (root.toList.splitOn '/').head? := by
      rcases hroot' with hsame | hsame <;> rw [hsame, hfirst] <;> rfl
    have hbelow : (root.toList.splitOn '/').filterMap Component.ofSegment =
        (l.splitOn '/').filterMap Component.ofSegment := by
      rcases hroot' with hsame | hsame
      · rw [hsame]
      · rw [hsame, List.filterMap_append]
        exact List.append_nil _
    rw [hjoin]
    unfold components below
    dsimp only
    rw [hsegments, hhead, hfront, hbelow, List.filterMap_append, List.append_assoc]
  have hne : root.toList ≠ [] := by
    rw [ne_eq, ← String.toList_inj] at hroot
    simpa using hroot
  rcases List.eq_nil_or_concat root.toList with hnil | ⟨l, c, hlast⟩
  · exact absurd hnil hne
  · by_cases hc : c = '/'
    · refine hcut l hne ?_ (Or.inr (by rw [hlast, hc, List.concat_eq_append]))
      rw [← String.toList_inj]
      simp [joinPath, hlast, hc]
    · refine hcut root.toList hne ?_ (Or.inl rfl)
      rw [← String.toList_inj]
      simp [joinPath, hlast, hc]

theorem joinPath_empty (rel : String) : joinPath "" rel = rel := by
  rw [← String.toList_inj]
  simp [joinPath]

/-- The file is the root's, with the components of the relative path after it. -/
theorem exists_fileOf_joinPath (root : String) :
    ∃ base, ∀ rel : String, rel.toList.head? ≠ some '/' →
      fileOf (joinPath root rel) = base ++ below rel := by
  by_cases hroot : root = ""
  · subst hroot
    refine ⟨[], fun rel hrel => ?_⟩
    rw [joinPath_empty, fileOf_eq, if_neg hrel]
  · refine ⟨fileOf root, fun rel _ => ?_⟩
    unfold fileOf
    rw [components_joinPath hroot, List.filter_append, filter_below]

theorem jail_eq_ok {root rel path : String} (h : FsCaps.jail root rel = .ok path) :
    path = joinPath root rel ∧ rel.toList.head? ≠ some '/' := by
  unfold FsCaps.jail at h
  split_ifs at h with habsolute
  split at h
  · cases h
  · exact ⟨(Except.ok.inj h).symm, habsolute⟩

/-- Two requests for one file have the same components below the root. -/
theorem below_eq_of_jail {root p q a b : String} (hp : FsCaps.jail root p = .ok a)
    (hq : FsCaps.jail root q = .ok b) (hfile : fileOf a = fileOf b) : below p = below q := by
  obtain ⟨rfl, hprel⟩ := jail_eq_ok hp
  obtain ⟨rfl, hqrel⟩ := jail_eq_ok hq
  obtain ⟨base, hbase⟩ := exists_fileOf_joinPath root
  rw [hbase p hprel, hbase q hqrel] at hfile
  exact List.append_cancel_left hfile

/-- The components hold every character of a path but the separators and dots. -/
theorem count_below {c : Char} (hslash : c ≠ '/') (hdot : c ≠ '.') (rel : String) :
    ((below rel).flatMap Component.text).count c = rel.toList.count c := by
  have hsegments : ∀ segments : List (List Char),
      ((segments.filterMap Component.ofSegment).flatMap Component.text).count c =
        segments.flatten.count c := by
    intro segments
    induction segments with
    | nil => rfl
    | cons s segments ih =>
      rw [List.flatten_cons, List.count_append, ← ih]
      cases hs : Component.ofSegment s with
      | none =>
        -- nothing is lost with a segment that is left out
        have hzero : s.count c = 0 := by
          rcases Component.ofSegment_eq_none.mp hs with rfl | rfl
          · rfl
          · exact List.count_eq_zero.mpr (by simpa using hdot)
        rw [List.filterMap_cons_none hs, hzero, Nat.zero_add]
      | some component =>
        rw [List.filterMap_cons_some hs, List.flatMap_cons, List.count_append,
          Component.text_of_ofSegment hs]
  unfold below
  rw [hsegments, Text.flatten_splitOn, List.count_filter (by simpa using hslash)]

/-! ## Globs without stars -/

/-- A character of a glob and one that it stands for. -/
def GlobChar (d c : Char) : Prop := if d = '?' then c ≠ '/' else c = d

theorem globMatchRec_cons {d : Char} (hd : d ≠ '*') (pat path : List Char) :
    globMatchRec (d :: pat) path = true ↔
      ∃ c rest, path = c :: rest ∧ GlobChar d c ∧ globMatchRec pat rest = true := by
  unfold GlobChar
  by_cases hquestion : d = '?'
  · subst hquestion
    cases path <;> simp [globMatchRec]
  · cases path with
    | nil => simp [globMatchRec, hd, hquestion]
    | cons c rest =>
      rw [globMatchRec]
      · simp [hquestion]
      all_goals simp_all

/-- Without a star a glob is matched character by character. -/
theorem globMatchRec_iff_forall₂ {pat path : List Char} (hpat : '*' ∉ pat) :
    globMatchRec pat path = true ↔ List.Forall₂ GlobChar pat path := by
  induction pat generalizing path with
  | nil => cases path <;> simp [globMatchRec]
  | cons d pat ih =>
    obtain ⟨hd, hrest⟩ := List.ne_and_not_mem_of_not_mem_cons hpat
    rw [globMatchRec_cons (Ne.symm hd), List.forall₂_cons_left_iff]
    constructor
    · rintro ⟨c, rest, rfl, hc, hmatch⟩
      exact ⟨c, rest, hc, (ih hrest).mp hmatch, rfl⟩
    · rintro ⟨c, rest, hc, hmatch, rfl⟩
      exact ⟨c, rest, rfl, hc, (ih hrest).mpr hmatch⟩

def Special (c : Char) : Prop := c = '*' ∨ c = '?'

instance (c : Char) : Decidable (Special c) := inferInstanceAs (Decidable (_ ∨ _))

/-- The glob of a path: the path itself but for its special characters. -/
def globOf (path : List Char) : List Char := path.map fun c => if Special c then '?' else c

theorem globMatchRec_globOf {path path' : List Char} :
    globMatchRec (globOf path) path' = true ↔
      List.Forall₂ (fun c d => if Special c then d ≠ '/' else d = c) path path' := by
  have hstar : '*' ∉ globOf path := by
    simp only [globOf, List.mem_map, not_exists, not_and]
    intro c _
    split_ifs with hc
    · decide
    · exact fun h => hc (Or.inl h)
  rw [globMatchRec_iff_forall₂ hstar, globOf, List.forall₂_map_left_iff]
  have hrel : (fun c d => GlobChar (if Special c then '?' else c) d) =
      fun c d => if Special c then d ≠ '/' else d = c := by
    funext c d
    unfold GlobChar
    by_cases hc : Special c
    · simp [hc]
    · have hquestion : c ≠ '?' := fun h => hc (Or.inr h)
      simp [hc, hquestion]
  rw [hrel]

/-- The glob of a path matches the path. -/
theorem globMatchRec_globOf_self (path : List Char) :
    globMatchRec (globOf path) path = true := by
  rw [globMatchRec_globOf, List.forall₂_same]
  intro c _
  split_ifs with hc
  · rcases hc with rfl | rfl <;> decide
  · rfl

/-! ## Two spellings of one file -/

/-- Equal, or both special. -/
def Alike (c d : Char) : Prop := c = d ∨ Special c ∧ Special d

theorem alike_of_globOf {path path' : List Char}
    (h : globMatchRec (globOf path) path' = true) (h' : globMatchRec (globOf path') path = true) :
    List.Forall₂ Alike path path' := by
  rw [globMatchRec_globOf, List.forall₂_iff_get] at h h'
  -- each text matches the glob of the other, place by place
  obtain ⟨hlength, hget⟩ := h
  obtain ⟨-, hget'⟩ := h'
  refine List.forall₂_iff_get.mpr ⟨hlength, fun i hi hi' => ?_⟩
  have hc := hget i hi hi'
  have hd := hget' i hi' hi
  unfold Alike
  grind

/-- Segments that are alike and give one component, or none, are equal. -/
theorem segment_eq_of_alike {s s' : List Char} (halike : List.Forall₂ Alike s s')
    (h : Component.ofSegment s = Component.ofSegment s') : s = s' := by
  cases hs : Component.ofSegment s with
  | some c =>
    have hs' : Component.ofSegment s' = some c := h ▸ hs
    rw [← Component.text_of_ofSegment hs, Component.text_of_ofSegment hs']
  | none =>
    -- both segments are left out, as nothing or as a dot
    have hs' : Component.ofSegment s' = none := h ▸ hs
    rcases Component.ofSegment_eq_none.mp hs with rfl | rfl
    · exact (List.forall₂_nil_left_iff.mp halike).symm
    · rcases Component.ofSegment_eq_none.mp hs' with rfl | rfl
      · cases halike
      · rfl

theorem ofSegment_eq_none_of_alike {s s' : List Char} (halike : List.Forall₂ Alike s s')
    (h : Component.ofSegment s = none) : Component.ofSegment s' = none := by
  rw [Component.ofSegment_eq_none]
  rcases Component.ofSegment_eq_none.mp h with rfl | rfl
  · exact Or.inl (List.forall₂_nil_left_iff.mp halike)
  · obtain ⟨c, rest, hc, hrest, rfl⟩ := List.forall₂_cons_left_iff.mp halike
    rw [List.forall₂_nil_left_iff.mp hrest]
    rcases hc with rfl | ⟨hdot, -⟩
    · exact Or.inr rfl
    · exact absurd hdot (by decide)

theorem Alike.symm {c d : Char} (h : Alike c d) : Alike d c := h.imp Eq.symm And.symm

/-- Separators are alike to separators only. -/
theorem Alike.slash_iff {c d : Char} (h : Alike c d) : c = '/' ↔ d = '/' := by
  rcases h with rfl | ⟨hc, hd⟩
  · exact Iff.rfl
  · rcases hc with rfl | rfl <;> rcases hd with rfl | rfl <;> decide

theorem segments_eq_of_alike {segments segments' : List (List Char)}
    (hall : List.Forall₂ (List.Forall₂ Alike) segments segments')
    (h : segments.filterMap Component.ofSegment = segments'.filterMap Component.ofSegment) :
    segments = segments' := by
  induction hall with
  | nil => rfl
  | @cons s s' segments segments' hs hrest ih =>
    cases hc : Component.ofSegment s with
    | none =>
      have hc' := ofSegment_eq_none_of_alike hs hc
      rw [List.filterMap_cons_none hc, List.filterMap_cons_none hc'] at h
      rw [ih h, segment_eq_of_alike hs (hc.trans hc'.symm)]
    | some c =>
      cases hc' : Component.ofSegment s' with
      | none =>
        -- a segment is left out with the one that is alike
        have hs' : List.Forall₂ Alike s' s := (hs.imp fun _ _ => Alike.symm).flip
        rw [ofSegment_eq_none_of_alike hs' hc'] at hc
        cases hc
      | some c' =>
        rw [List.filterMap_cons_some hc, List.filterMap_cons_some hc'] at h
        obtain ⟨rfl, htail⟩ := List.cons.inj h
        rw [ih htail, segment_eq_of_alike hs (hc.trans hc'.symm)]

/-- Two spellings of a file that are alike are one. -/
theorem eq_of_alike {p q : String} (halike : List.Forall₂ Alike p.toList q.toList)
    (h : below p = below q) : p = q := by
  have hsegments := Text.forall₂_splitOn (a := '/') (fun _ _ => Alike.slash_iff) halike
  rw [← String.toList_inj]
  exact Text.splitOn_injective '/' (segments_eq_of_alike hsegments h)

/-! ## What the rules make of them -/

/-- The verdict is the same for all args. -/
def Governor.IgnoresArgs {W : Type} (governor : Governor W) : Prop :=
  ∀ scope capability args args',
    governor.govern scope capability args = governor.govern scope capability args'

namespace PathGovernor

/-- The rules give requests with the paths `p` and `q` one verdict, whatever the governor within
says of the capability. -/
def SameVerdict (rules : List PathRule) (capability p q : String) : Prop :=
  ∀ (W : Type) (inner : Governor W), inner.IgnoresArgs → ∀ scope args args' w,
    path args = some p → path args' = some q →
      (PathGovernor inner rules).govern scope capability args w =
        (PathGovernor inner rules).govern scope capability args' w

/-- The rules let requests with the paths `p` and `q` pass alike. -/
def SameAccess (rules : List PathRule) (capability p q : String) : Prop :=
  ∀ (W : Type) (inner : Governor W), inner.IgnoresArgs → ∀ scope args args' w,
    path args = some p → path args' = some q →
      ((PathGovernor inner rules).Allows scope capability args w ↔
        (PathGovernor inner rules).Allows scope capability args' w)

def Denies (rules : List PathRule) (capability p : String) : Prop :=
  (denial capability p rules).isSome

def argsAt (p : String) : Value := .object [("path", .string p)]

theorem path_argsAt (p : String) : path (argsAt p) = some p := by
  simp [path, argsAt, Value.asStr]

variable {W : Type} {inner : Governor W} {rules : List PathRule} {scope : Scope}
  {capability p q : String} {args args' : Value} {w : W}

theorem govern_of_denies {reason : String} (hargs : path args = some p)
    (h : denial capability p rules = some reason) :
    (PathGovernor inner rules).govern scope capability args w = some (.deny reason, w) := by
  simp [PathGovernor, hargs, h]

theorem govern_of_not_denies (hargs : path args = some p) (h : ¬Denies rules capability p) :
    (PathGovernor inner rules).govern scope capability args w =
      inner.govern scope capability args w := by
  have hnone : denial capability p rules = none := by simpa [Denies] using h
  simp [PathGovernor, hargs, hnone]

theorem allows_iff (hargs : path args = some p) :
    (PathGovernor inner rules).Allows scope capability args w ↔
      ¬Denies rules capability p ∧ inner.Allows scope capability args w := by
  unfold Governor.Allows
  by_cases h : Denies rules capability p
  · obtain ⟨reason, hreason⟩ := Option.isSome_iff_exists.mp h
    simp [govern_of_denies hargs hreason, h]
  · simp [govern_of_not_denies hargs h, h]

theorem denial_eq_some {reason : String} (h : denial capability p rules = some reason) :
    ∃ glob : String, reason = s!"path `{p}` denied by rule `{glob}` for `{capability}`" := by
  induction rules with
  | nil => cases h
  | cons rule rules ih =>
    unfold denial at h
    split_ifs at h
    · exact ⟨rule.pathGlob, (Option.some.inj h).symm⟩
    · exact ih h

/-- The reason of a denial tells the spellings of a file apart. -/
theorem eq_of_denial {reason : String} (hfile : below p = below q)
    (hp : denial capability p rules = some reason)
    (hq : denial capability q rules = some reason) : p = q := by
  obtain ⟨glob, hglob⟩ := denial_eq_some hp
  obtain ⟨glob', hglob'⟩ := denial_eq_some hq
  -- one file has one number of quotes, and a quote follows the path
  have hcount : p.toList.count '`' = q.toList.count '`' := by
    rw [← count_below (by decide) (by decide), ← count_below (by decide) (by decide), hfile]
  have htext := congrArg String.toList (hglob.symm.trans hglob')
  simp only [toString, String.toList_append, List.append_assoc] at htext
  rw [← String.toList_inj]
  exact Text.append_cons_inj_of_count hcount (List.append_cancel_left htext)

theorem sameAccess_iff :
    SameAccess rules capability p q ↔
      (Denies rules capability p ↔ Denies rules capability q) := by
  constructor
  · intro h
    -- before a governor that allows everything the rules decide alone
    have hall : ∀ p, (AllowAll Unit).Allows ⟨""⟩ capability (argsAt p) () := fun _ => ⟨(), rfl⟩
    have hsame := h Unit (AllowAll Unit) (fun _ _ _ _ => rfl) ⟨""⟩ (argsAt p) (argsAt q) ()
      (path_argsAt p) (path_argsAt q)
    rw [allows_iff (path_argsAt p), allows_iff (path_argsAt q)] at hsame
    simpa [hall, not_iff_not] using hsame
  · intro h W inner hinner scope args args' w hp hq
    rw [allows_iff hp, allows_iff hq, h]
    unfold Governor.Allows
    rw [hinner scope capability args args']

theorem sameVerdict_iff (hfile : below p = below q) :
    SameVerdict rules capability p q ↔
      p = q ∨ ¬Denies rules capability p ∧ ¬Denies rules capability q := by
  constructor
  · intro h
    have haccess : Denies rules capability p ↔ Denies rules capability q := by
      apply sameAccess_iff.mp
      intro W inner hinner scope args args' w hp hq
      unfold Governor.Allows
      rw [h W inner hinner scope args args' w hp hq]
    by_cases hdenies : Denies rules capability p
    · -- both are denied, and the reason quotes the path
      obtain ⟨reason, hreason⟩ := Option.isSome_iff_exists.mp hdenies
      obtain ⟨reason', hreason'⟩ := Option.isSome_iff_exists.mp (haccess.mp hdenies)
      have hsame := h Unit (AllowAll Unit) (fun _ _ _ _ => rfl) ⟨""⟩ (argsAt p) (argsAt q) ()
        (path_argsAt p) (path_argsAt q)
      rw [govern_of_denies (path_argsAt p) hreason,
        govern_of_denies (path_argsAt q) hreason'] at hsame
      have heq : reason = reason' := by simpa using hsame
      exact Or.inl (eq_of_denial hfile hreason (heq ▸ hreason'))
    · exact Or.inr ⟨hdenies, fun hq => hdenies (haccess.mpr hq)⟩
  · intro h W inner hinner scope args args' w hp hq
    have hverdict := hinner scope capability args args'
    rcases h with rfl | ⟨hpdenies, hqdenies⟩
    · simp [PathGovernor, hp, hq, hverdict]
    · rw [govern_of_not_denies hp hpdenies, govern_of_not_denies hq hqdenies, hverdict]

def ruleFor (capability p : String) : PathRule :=
  ⟨capability, String.ofList (globOf p.toList), false⟩

theorem denies_ruleFor :
    Denies [ruleFor capability p] capability q ↔
      globMatchRec (globOf p.toList) q.toList = true := by
  unfold Denies denial PathRule.appliesTo globMatchSimple ruleFor
  rw [String.toList_ofList, prefixMatches_self, Bool.true_and]
  by_cases h : globMatchRec (globOf p.toList) q.toList = true <;> simp [denial, h]

/-- Rules can tell every two spellings of a file apart. -/
theorem eq_of_sameAccess (capability : String) (hfile : below p = below q)
    (h : ∀ rules, SameAccess rules capability p q) : p = q := by
  have hleft := sameAccess_iff.mp (h [ruleFor capability p])
  have hright := sameAccess_iff.mp (h [ruleFor capability q])
  rw [denies_ruleFor, denies_ruleFor] at hleft hright
  exact eq_of_alike (alike_of_globOf (hleft.mp (globMatchRec_globOf_self _))
    (hright.mpr (globMatchRec_globOf_self _))) hfile

end PathGovernor

open PathGovernor

/-- Of two spellings of one file: rules give them one verdict exactly if they are one text or
neither is denied, let them pass alike exactly if they deny both or neither, and all rules do so
exactly if they are one text. -/
theorem path_verdicts_iff {root p q a b : String} (hp : FsCaps.jail root p = .ok a)
    (hq : FsCaps.jail root q = .ok b) (hfile : fileOf a = fileOf b) (capability : String) :
    (∀ rules, SameVerdict rules capability p q ↔
      p = q ∨ ¬Denies rules capability p ∧ ¬Denies rules capability q) ∧
    (∀ rules, SameAccess rules capability p q ↔
      (Denies rules capability p ↔ Denies rules capability q)) ∧
    ((∀ rules, SameVerdict rules capability p q) ↔ p = q) ∧
    ((∀ rules, SameAccess rules capability p q) ↔ p = q) := by
  have hbelow : below p = below q := below_eq_of_jail hp hq hfile
  refine ⟨fun rules => sameVerdict_iff hbelow, fun rules => sameAccess_iff, ⟨fun h => ?_, ?_⟩,
    eq_of_sameAccess capability hbelow, ?_⟩
  · apply eq_of_sameAccess capability hbelow
    intro rules W inner hinner scope args args' w hp hq
    unfold Governor.Allows
    rw [h rules W inner hinner scope args args' w hp hq]
  · rintro rfl rules
    exact (sameVerdict_iff rfl).mpr (Or.inl rfl)
  · rintro rfl rules
    exact sameAccess_iff.mpr Iff.rfl

theorem path_verdicts_iff_dot :
    fileOf "root/secret" = fileOf "root/./secret" ∧
      ((∀ rules, SameVerdict rules "cap.fs.read" "secret" "./secret") ↔ "secret" = "./secret") :=
  have hp : FsCaps.jail "root" "secret" = .ok "root/secret" := by rfl
  have hq : FsCaps.jail "root" "./secret" = .ok "root/./secret" := by rfl
  have hfile : fileOf "root/secret" = fileOf "root/./secret" := by decide
  ⟨hfile, (path_verdicts_iff hp hq hfile "cap.fs.read").2.2.1⟩

/-- The grant of all file capabilities, and the rule that denies `secret`. -/
def secretGovernor : Governor Unit :=
  PathGovernor (ScopedGovernor Unit [("persona.clerk", ["cap.fs"])]) [⟨"cap.fs", "secret", false⟩]

theorem secret_read_through_dot :
    (ScopedGovernor Unit [("persona.clerk", ["cap.fs"])]).IgnoresArgs ∧
    FsCaps.jail "root" "secret" = .ok "root/secret" ∧
    FsCaps.jail "root" "./secret" = .ok "root/./secret" ∧
    fileOf "root/secret" = fileOf "root/./secret" ∧
    secretGovernor.govern ⟨"persona.clerk"⟩ "cap.fs.read" (argsAt "secret") () =
      some (.deny "path `secret` denied by rule `secret` for `cap.fs.read`", ()) ∧
    secretGovernor.govern ⟨"persona.clerk"⟩ "cap.fs.read" (argsAt "./secret") () =
      some (.allow, ()) := by
  refine ⟨fun _ _ _ _ => rfl, by rfl, by rfl, by decide, ?_, ?_⟩ <;> decide

end Pan
