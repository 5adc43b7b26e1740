import Mathlib.Data.List.Basic
import Mathlib.Logic.Basic

namespace Text

section Patterns

variable {α : Type*} [DecidableEq α]

/-- What stands before and behind the first `pat`, a pattern that is not empty. -/
def splitAtPattern (pat : List α) : List α → Option (List α × List α)
  | [] => none
  | a :: l =>
    if pat.isPrefixOf (a :: l) then some ([], (a :: l).drop pat.length)
    else (splitAtPattern pat l).map fun p => (a :: p.1, p.2)

/-- What stands before and behind the first pattern of the two; where both begin it is `pat`. -/
def splitAtEither (pat pat' : List α) : List α → Option (List α × List α)
  | [] => none
  | a :: l =>
    if pat.isPrefixOf (a :: l) then some ([], (a :: l).drop pat.length)
    else if pat'.isPrefixOf (a :: l) then some ([], (a :: l).drop pat'.length)
    else (splitAtEither pat pat' l).map fun p => (a :: p.1, p.2)

variable {pat pat' l x y : List α}

@[simp] theorem splitAtPattern_nil (pat : List α) : splitAtPattern pat [] = none := rfl

theorem splitAtPattern_of_prefix (hpat : pat ≠ []) (r : List α) :
    splitAtPattern pat (pat ++ r) = some ([], r) := by
  obtain ⟨a, p, rfl⟩ := List.exists_cons_of_ne_nil hpat
  have hcut : splitAtPattern (a :: p) (a :: p ++ r) =
      some ([], (a :: p ++ r).drop (a :: p).length) :=
    if_pos (List.isPrefixOf_iff_prefix.mpr (List.prefix_append (a :: p) r))
  rw [hcut, List.drop_left]

theorem splitAtPattern_cons {a : α} (h : ¬pat <+: a :: l) :
    splitAtPattern pat (a :: l) = (splitAtPattern pat l).map fun p => (a :: p.1, p.2) :=
  if_neg (mt List.isPrefixOf_iff_prefix.mp h)

theorem splitAtPattern_eq_none (hpat : pat ≠ []) :
    splitAtPattern pat l = none ↔ ∀ i, ¬pat <+: l.drop i := by
  induction l with
  | nil => simp [hpat]
  | cons a l ih =>
    by_cases h : pat <+: a :: l
    · obtain ⟨r, hr⟩ := h
      rw [← hr, splitAtPattern_of_prefix hpat]
      exact iff_of_false (by simp) fun hall => hall 0 (List.prefix_append _ _)
    · rw [splitAtPattern_cons h, Option.map_eq_none_iff, ih]
      constructor
      · rintro hall (_ | i)
        · exact h
        · exact hall i
      · exact fun hall i => hall (i + 1)

/-- Before the first occurrence the pattern begins nowhere. -/
theorem splitAtPattern_eq_some (hpat : pat ≠ []) :
    splitAtPattern pat l = some (x, y) ↔
      l = x ++ (pat ++ y) ∧ ∀ i < x.length, ¬pat <+: l.drop i := by
  induction l generalizing x with
  | nil =>
    refine iff_of_false (by simp) ?_
    rintro ⟨h, -⟩
    simp [hpat] at h
  | cons a l ih =>
    by_cases h : pat <+: a :: l
    · obtain ⟨r, hr⟩ := h
      rw [← hr, splitAtPattern_of_prefix hpat]
      constructor
      · intro hxy
        cases hxy
        exact ⟨rfl, by simp⟩
      · rintro ⟨hl, hfirst⟩
        cases x with
        | nil => rw [List.append_cancel_left hl]
        | cons b x => exact absurd (List.prefix_append _ _) (hfirst 0 (Nat.succ_pos _))
    · rw [splitAtPattern_cons h, Option.map_eq_some_iff]
      constructor
      · rintro ⟨⟨x', y'⟩, hxy, hp⟩
        cases hp
        obtain ⟨hl, hfirst⟩ := ih.mp hxy
        refine ⟨by rw [hl, List.cons_append], ?_⟩
        rintro (_ | i) hi
        · exact h
        · exact hfirst i (Nat.lt_of_succ_lt_succ hi)
      · rintro ⟨hl, hfirst⟩
        cases x with
        | nil => exact absurd ⟨y, hl.symm⟩ h
        | cons b x =>
          obtain ⟨rfl, htail⟩ := List.cons.inj hl
          exact ⟨(x, y), ih.mpr ⟨htail, fun i hi => hfirst (i + 1) (Nat.succ_lt_succ hi)⟩, rfl⟩

/-! ## The first of two -/

theorem splitAtEither_cons {a : α} (h : ¬pat <+: a :: l) (h' : ¬pat' <+: a :: l) :
    splitAtEither pat pat' (a :: l) =
      (splitAtEither pat pat' l).map fun p => (a :: p.1, p.2) :=
  (if_neg (mt List.isPrefixOf_iff_prefix.mp h)).trans
    (if_neg (mt List.isPrefixOf_iff_prefix.mp h'))

theorem splitAtEither_of_prefix (hpat : pat ≠ []) (pat' r : List α) :
    splitAtEither pat pat' (pat ++ r) = some ([], r) := by
  obtain ⟨a, p, rfl⟩ := List.exists_cons_of_ne_nil hpat
  have hcut : splitAtEither (a :: p) pat' (a :: p ++ r) =
      some ([], (a :: p ++ r).drop (a :: p).length) :=
    if_pos (List.isPrefixOf_iff_prefix.mpr (List.prefix_append (a :: p) r))
  rw [hcut, List.drop_left]

theorem splitAtEither_of_prefix_right (hpat' : pat' ≠ []) {r : List α}
    (h : ¬pat <+: pat' ++ r) : splitAtEither pat pat' (pat' ++ r) = some ([], r) := by
  obtain ⟨a, p, rfl⟩ := List.exists_cons_of_ne_nil hpat'
  have hcut : splitAtEither pat (a :: p) (a :: p ++ r) =
      some ([], (a :: p ++ r).drop (a :: p).length) :=
    (if_neg (mt List.isPrefixOf_iff_prefix.mp h)).trans
      (if_pos (List.isPrefixOf_iff_prefix.mpr (List.prefix_append (a :: p) r)))
  rw [hcut, List.drop_left]

/-- The one that begins first, if both occur. -/
theorem splitAtEither_eq (hpat : pat ≠ []) (hpat' : pat' ≠ []) :
    splitAtEither pat pat' l = match splitAtPattern pat l, splitAtPattern pat' l with
      | none, q => q
      | some p, none => some p
      | some p, some q => if p.1.length ≤ q.1.length then some p else some q := by
  induction l with
  | nil => rfl
  | cons a l ih =>
    by_cases h : pat <+: a :: l
    · obtain ⟨r, hr⟩ := h
      rw [← hr, splitAtEither_of_prefix hpat, splitAtPattern_of_prefix hpat]
      cases splitAtPattern pat' (pat ++ r) <;> simp
    · by_cases h' : pat' <+: a :: l
      · obtain ⟨r, hr⟩ := h'
        rw [← hr] at h ⊢
        rw [splitAtEither_of_prefix_right hpat' h, splitAtPattern_of_prefix hpat']
        cases hp : splitAtPattern pat (pat' ++ r) with
        | none => rfl
        | some p =>
          obtain ⟨hl, -⟩ := (splitAtPattern_eq_some hpat).mp hp
          cases hx : p.1 with
          | nil =>
            rw [hx] at hl
            exact absurd ⟨p.2, hl.symm⟩ h
          | cons b x => simp [hx]
      · rw [splitAtEither_cons h h', splitAtPattern_cons h, splitAtPattern_cons h', ih]
        cases splitAtPattern pat l with
        | none => rfl
        | some p =>
          cases splitAtPattern pat' l with
          | none => rfl
          | some q =>
            simp only [Option.map_some, List.length_cons, Nat.add_le_add_iff_right]
            split_ifs <;> rfl

end Patterns

/-! ## Encodings -/

section Encodings

variable {α β : Type*} {enc : α → List β}

/-- The code of `a` is one letter that occurs in no other code. -/
def IsLetter (enc : α → List β) (a : α) : Prop :=
  ∃ b, enc a = [b] ∧ ∀ a', b ∈ enc a' → a' = a

theorem flatMap_prefix_iff (hne : ∀ a, enc a ≠ []) {pat l : List α}
    (hpat : ∀ a ∈ pat, IsLetter enc a) : pat.flatMap enc <+: l.flatMap enc ↔ pat <+: l := by
  constructor
  · intro h
    induction pat generalizing l with
    | nil => exact List.nil_prefix
    | cons a pat ih =>
      obtain ⟨⟨b, hb, hother⟩, hrest⟩ := List.forall_mem_cons.mp hpat
      cases l with
      | nil => simp [hb] at h
      | cons a' l =>
        obtain ⟨b', code, hcode⟩ := List.exists_cons_of_ne_nil (hne a')
        rw [List.flatMap_cons, List.flatMap_cons, hb, hcode, List.singleton_append,
          List.cons_append, List.cons_prefix_cons] at h
        obtain ⟨rfl, h⟩ := h
        obtain rfl : a' = a := hother a' (by simp [hcode])
        rw [hb] at hcode
        obtain ⟨-, rfl⟩ := List.cons.inj hcode
        rw [List.nil_append] at h
        exact List.cons_prefix_cons.mpr ⟨rfl, ih hrest h⟩
  · rintro ⟨r, rfl⟩
    rw [List.flatMap_append]
    exact List.prefix_append _ _

variable [DecidableEq α] [DecidableEq β]

omit [DecidableEq α] in
/-- No pattern begins in what does not have its first letter. -/
theorem splitAtPattern_append_left {b : β} {pat code : List β} (h : b ∉ code) (l : List β) :
    splitAtPattern (b :: pat) (code ++ l) =
      (splitAtPattern (b :: pat) l).map fun p => (code ++ p.1, p.2) := by
  induction code with
  | nil => simp
  | cons b' code ih =>
    obtain ⟨hb', hcode⟩ := List.ne_and_not_mem_of_not_mem_cons h
    have hstart : ¬b :: pat <+: b' :: (code ++ l) := fun hpre =>
      hb' (List.cons_prefix_cons.mp hpre).1
    rw [List.cons_append, splitAtPattern_cons hstart, ih hcode, Option.map_map]
    rfl

theorem splitAtPattern_flatMap (hne : ∀ a, enc a ≠ []) {pat : List α} (hpat : pat ≠ [])
    (hletters : ∀ a ∈ pat, IsLetter enc a) (l : List α) :
    splitAtPattern (pat.flatMap enc) (l.flatMap enc) =
      (splitAtPattern pat l).map fun p => (p.1.flatMap enc, p.2.flatMap enc) := by
  obtain ⟨p, pat, rfl⟩ := List.exists_cons_of_ne_nil hpat
  obtain ⟨b, hb, hother⟩ := hletters p (List.mem_cons_self ..)
  have hcons : (p :: pat).flatMap enc = b :: pat.flatMap enc := by
    rw [List.flatMap_cons, hb, List.singleton_append]
  induction l with
  | nil => rfl
  | cons a l ih =>
    by_cases h : p :: pat <+: a :: l
    · obtain ⟨r, hr⟩ := h
      rw [← hr, List.flatMap_append, splitAtPattern_of_prefix hpat,
        splitAtPattern_of_prefix (by simp [hcons])]
      rfl
    · have hstart := mt (flatMap_prefix_iff hne hletters).mp h
      have hl : (a :: l).flatMap enc = enc a ++ l.flatMap enc := List.flatMap_cons
      rw [hl] at hstart ⊢
      rw [splitAtPattern_cons h, Option.map_map]
      by_cases hmem : b ∈ enc a
      · obtain rfl := hother a hmem
        rw [hb, List.singleton_append] at hstart ⊢
        rw [splitAtPattern_cons hstart, ih, Option.map_map]
        congr 1
        funext q
        simp [hb]
      · rw [hcons, splitAtPattern_append_left hmem, ← hcons, ih,
          Option.map_map]
        congr 1

end Encodings

end Text
