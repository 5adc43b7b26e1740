import Mathlib.Data.List.Basic
import Mathlib.Data.List.DropRight
import Mathlib.Data.String.Basic

namespace Text

section Lists

variable {α : Type*} [DecidableEq α]

/-- What stands before and after the first `a`. -/
def splitOnce (a : α) : List α → Option (List α × List α)
  | [] => none
  | b :: l => if b = a then some ([], l) else (splitOnce a l).map fun p => (b :: p.1, p.2)

/-- What stands before and after the last `a`. -/
def rsplitOnce (a : α) (l : List α) : Option (List α × List α) :=
  (splitOnce a l.reverse).map fun p => (p.2.reverse, p.1.reverse)

theorem splitOnce_eq_none {a : α} {l : List α} : splitOnce a l = none ↔ a ∉ l := by
  induction l with
  | nil => simp [splitOnce]
  | cons b l ih =>
    by_cases hb : b = a
    · simp [splitOnce, hb]
    · rw [splitOnce, if_neg hb, Option.map_eq_none_iff, ih, List.mem_cons]
      simp [Ne.symm hb]

theorem splitOnce_append (a : α) {l₁ : List α} (l₂ : List α) (h : a ∉ l₁) :
    splitOnce a (l₁ ++ a :: l₂) = some (l₁, l₂) := by
  induction l₁ with
  | nil => simp [splitOnce]
  | cons b l₁ ih =>
    obtain ⟨hb, hl⟩ := List.ne_and_not_mem_of_not_mem_cons h
    rw [List.cons_append, splitOnce, if_neg (Ne.symm hb), ih hl]
    rfl

theorem splitOnce_eq_some {a : α} {l l₁ l₂ : List α} :
    splitOnce a l = some (l₁, l₂) ↔ l = l₁ ++ a :: l₂ ∧ a ∉ l₁ := by
  constructor
  · intro h
    induction l generalizing l₁ with
    | nil => simp [splitOnce] at h
    | cons b l ih =>
      rw [splitOnce] at h
      split_ifs at h with hb
      · cases h
        simp [hb]
      · obtain ⟨⟨m₁, m₂⟩, hm, hp⟩ := Option.map_eq_some_iff.mp h
        cases hp
        obtain ⟨hl, hmem⟩ := ih hm
        exact ⟨by rw [hl, List.cons_append], List.not_mem_cons_of_ne_of_not_mem (Ne.symm hb) hmem⟩
  · rintro ⟨rfl, h⟩
    exact splitOnce_append a l₂ h

theorem rsplitOnce_eq_none {a : α} {l : List α} : rsplitOnce a l = none ↔ a ∉ l := by
  rw [rsplitOnce, Option.map_eq_none_iff, splitOnce_eq_none, List.mem_reverse]

theorem rsplitOnce_eq_some {a : α} {l l₁ l₂ : List α} :
    rsplitOnce a l = some (l₁, l₂) ↔ l = l₁ ++ a :: l₂ ∧ a ∉ l₂ := by
  unfold rsplitOnce
  constructor
  · intro h
    obtain ⟨⟨m₁, m₂⟩, hm, hp⟩ := Option.map_eq_some_iff.mp h
    obtain ⟨rfl, rfl⟩ := Prod.mk.inj hp
    obtain ⟨hl, hmem⟩ := splitOnce_eq_some.mp hm
    have hl' : l = m₂.reverse ++ a :: m₁.reverse := by
      rw [← List.reverse_reverse l, hl]
      simp
    exact ⟨hl', by simpa using hmem⟩
  · rintro ⟨rfl, h⟩
    have hrev : (l₁ ++ a :: l₂).reverse = l₂.reverse ++ a :: l₁.reverse := by simp
    rw [hrev, splitOnce_append a _ (by simpa using h)]
    simp

/-- What stands before an `a`, if it is known how many more stand there. -/
theorem append_cons_inj_of_count {a : α} {l l' m m' : List α} (hcount : l.count a = l'.count a)
    (h : l ++ a :: m = l' ++ a :: m') : l = l' := by
  -- whatever the longer of the two has beyond the shorter begins with an `a`
  have hempty : ∀ {l l' r m m' : List α}, l.count a = l'.count a → l' = l ++ r →
      a :: m = r ++ a :: m' → r = [] := by
    intro l l' r m m' hcount hl hr
    cases r with
    | nil => rfl
    | cons b r =>
      obtain ⟨rfl, -⟩ := List.cons.inj hr
      rw [hl, List.count_append, List.count_cons_self] at hcount
      omega
  rcases List.append_eq_append_iff.mp h with ⟨r, hl, hr⟩ | ⟨r, hl, hr⟩
  · rw [hl, hempty hcount hl hr, List.append_nil]
  · rw [hl, hempty hcount.symm hl hr, List.append_nil]

/-- The occurrences of `pat` that do not overlap, from the left on; the next `skip` elements belong
to the last one. -/
def countMatchesFrom (pat : List α) (skip : ℕ) : List α → ℕ
  | [] => 0
  | a :: l =>
    if 0 < skip then countMatchesFrom pat (skip - 1) l
    else if pat.isPrefixOf (a :: l) then countMatchesFrom pat (pat.length - 1) l + 1
    else countMatchesFrom pat 0 l

/-- `matches(pat).count()`, of a pattern that is not empty. -/
def countMatches (pat l : List α) : ℕ := countMatchesFrom pat 0 l

theorem countMatchesFrom_of_length_lt {pat l : List α} (h : l.length < pat.length) (skip : ℕ) :
    countMatchesFrom pat skip l = 0 := by
  induction l generalizing skip with
  | nil => rfl
  | cons a l ih =>
    have hl : l.length < pat.length := Nat.lt_of_succ_lt h
    have hpat : pat.isPrefixOf (a :: l) = false := by
      rw [Bool.eq_false_iff]
      intro hpre
      exact absurd (List.isPrefixOf_iff_prefix.mp hpre).length_le (not_le.mpr h)
    rw [countMatchesFrom, hpat]
    simp [ih hl]

/-- One more occurrence at the end is one more that is counted, or one before it that it
completes. -/
theorem countMatchesFrom_lt_append {pat : List α} (hpat : pat ≠ []) (l r : List α) {skip : ℕ}
    (hskip : skip ≤ l.length) :
    countMatchesFrom pat skip l < countMatchesFrom pat skip (l ++ (pat ++ r)) := by
  induction l generalizing skip with
  | nil =>
    obtain rfl : skip = 0 := Nat.le_zero.mp hskip
    obtain ⟨a, pat', rfl⟩ := List.exists_cons_of_ne_nil hpat
    have hpre : (a :: pat').isPrefixOf (a :: (pat' ++ r)) = true :=
      List.isPrefixOf_iff_prefix.mpr (List.prefix_append _ _)
    rw [List.nil_append, List.cons_append, countMatchesFrom, countMatchesFrom,
      if_neg (lt_irrefl 0), if_pos hpre]
    exact Nat.succ_pos _
  | cons a l ih =>
    rw [List.cons_append, countMatchesFrom, countMatchesFrom]
    by_cases hpos : 0 < skip
    · rw [if_pos hpos, if_pos hpos]
      exact ih (by rw [List.length_cons] at hskip; omega)
    rw [if_neg hpos, if_neg hpos]
    by_cases hpre : pat <+: a :: l
    · have hlong : pat <+: a :: (l ++ (pat ++ r)) := hpre.trans (List.prefix_append _ _)
      have hlength := hpre.length_le
      rw [if_pos (List.isPrefixOf_iff_prefix.mpr hpre),
        if_pos (List.isPrefixOf_iff_prefix.mpr hlong)]
      exact Nat.succ_lt_succ (ih (by rw [List.length_cons] at hlength; omega))
    rw [if_neg (mt List.isPrefixOf_iff_prefix.mp hpre)]
    by_cases hlong : pat <+: a :: (l ++ (pat ++ r))
    · -- the occurrence begins in `l` and ends beyond it, so `l` has no room for another
      have hshort : (a :: l).length < pat.length := by
        by_contra hle
        exact hpre (List.prefix_of_prefix_length_le hlong
          (List.prefix_append (a :: l) (pat ++ r)) (not_lt.mp hle))
      have hl : l.length < pat.length := Nat.lt_of_succ_lt hshort
      rw [if_pos (List.isPrefixOf_iff_prefix.mpr hlong), countMatchesFrom_of_length_lt hl]
      exact Nat.succ_pos _
    · rw [if_neg (mt List.isPrefixOf_iff_prefix.mp hlong)]
      exact ih (Nat.zero_le _)

theorem countMatches_lt_append {pat : List α} (hpat : pat ≠ []) (l r : List α) :
    countMatches pat l < countMatches pat (l ++ (pat ++ r)) :=
  countMatchesFrom_lt_append hpat l r (Nat.zero_le _)

/-! ## Around an occurrence -/

/-- What stands before and after the first occurrence of `pat`. -/
def splitAround (pat : List α) : List α → Option (List α × List α)
  | [] => if pat = [] then some ([], []) else none
  | a :: l =>
    if pat.isPrefixOf (a :: l) then some ([], (a :: l).drop pat.length)
    else (splitAround pat l).map fun p => (a :: p.1, p.2)

theorem splitAround_of_isPrefix {pat l : List α} (h : pat <+: l) :
    splitAround pat l = some ([], l.drop pat.length) := by
  cases l with
  | nil =>
    obtain rfl := List.prefix_nil.mp h
    rfl
  | cons a l => exact if_pos (List.isPrefixOf_iff_prefix.mpr h)

theorem splitAround_append (pat l : List α) : splitAround pat (pat ++ l) = some ([], l) := by
  rw [splitAround_of_isPrefix (List.prefix_append pat l), List.drop_left]

theorem splitAround_cons {pat l : List α} {a : α} (h : ¬pat <+: a :: l) :
    splitAround pat (a :: l) = (splitAround pat l).map fun p => (a :: p.1, p.2) :=
  if_neg (mt List.isPrefixOf_iff_prefix.mp h)

theorem splitAround_eq_none {pat l : List α} : splitAround pat l = none ↔ ¬pat <:+: l := by
  induction l with
  | nil => simp [splitAround]
  | cons a l ih =>
    rw [List.infix_cons_iff, not_or]
    by_cases h : pat <+: a :: l
    · rw [splitAround_of_isPrefix h]
      exact iff_of_false (Option.some_ne_none _) fun hno => hno.1 h
    · rw [splitAround_cons h, Option.map_eq_none_iff, ih]
      exact (and_iff_right h).symm

theorem append_of_splitAround {pat l l₁ l₂ : List α} (h : splitAround pat l = some (l₁, l₂)) :
    l = l₁ ++ pat ++ l₂ := by
  induction l generalizing l₁ with
  | nil =>
    rw [splitAround] at h
    split_ifs at h with hpat
    cases h
    rw [hpat]
    rfl
  | cons a l ih =>
    by_cases hpat : pat <+: a :: l
    · rw [splitAround_of_isPrefix hpat] at h
      cases h
      exact (List.prefix_iff_eq_append.mp hpat).symm
    · rw [splitAround_cons hpat] at h
      obtain ⟨⟨m₁, m₂⟩, hm, hp⟩ := Option.map_eq_some_iff.mp h
      cases hp
      rw [ih hm]
      rfl

theorem length_of_splitAround {pat l l₁ l₂ : List α} (h : splitAround pat l = some (l₁, l₂)) :
    l₂.length ≤ l.length := by
  rw [append_of_splitAround h, List.length_append]
  exact Nat.le_add_left _ _

/-! ## Trimming -/

def trimMatches (p : α → Bool) (l : List α) : List α := (l.dropWhile p).rdropWhile p

section Trim

omit [DecidableEq α]

variable {p : α → Bool} {a : α} {l l' r w : List α}

theorem trimMatches_infix (p : α → Bool) (l : List α) : trimMatches p l <:+: l :=
  (List.rdropWhile_prefix p _).isInfix.trans (List.dropWhile_suffix p).isInfix

theorem dropWhile_of_head (h : ∀ a ∈ l.head?, p a = false) : l.dropWhile p = l := by
  cases l with
  | nil => rfl
  | cons a l => exact List.dropWhile_cons_of_neg (by simp [h a rfl])

theorem head_dropWhile (p : α → Bool) (l : List α) : ∀ a ∈ (l.dropWhile p).head?, p a = false :=
  fun a ha => by
    have := List.head?_dropWhile_not p l
    rw [ha] at this
    exact this

theorem dropWhile_append_of_head (hw : ∀ a ∈ w, p a) (h : ∀ a ∈ l.head?, p a = false) :
    (w ++ l).dropWhile p = l := by
  rw [List.dropWhile_append_of_pos hw, dropWhile_of_head h]

/-- A front keeps what it had, up to where it ended. -/
theorem dropWhile_prefix_dropWhile (h : l <+: l') : l.dropWhile p <+: l'.dropWhile p := by
  obtain ⟨r, rfl⟩ := h
  rw [List.dropWhile_append]
  split_ifs with hempty
  · rw [List.isEmpty_iff.mp hempty]
    exact List.nil_prefix
  · exact List.prefix_append _ _

theorem rdropWhile_append_of_pos (hw : ∀ a ∈ w, p a) : (l ++ w).rdropWhile p = l.rdropWhile p := by
  rw [List.rdropWhile, List.reverse_append, List.dropWhile_append_of_pos (by simpa using hw)]
  rfl

/-- What stands behind an element that does not match is trimmed on its own. -/
theorem rdropWhile_append_of_last (h : ∀ a ∈ l.getLast?, p a = false) (r : List α) :
    (l ++ r).rdropWhile p = l ++ r.rdropWhile p := by
  induction r using List.reverseRecOn with
  | nil =>
    rw [List.rdropWhile_nil, List.append_nil, List.rdropWhile_eq_self_iff]
    exact fun hne => by simp [h _ (List.getLast?_eq_some_getLast hne)]
  | append_singleton r a ih =>
    rw [← List.append_assoc, List.rdropWhile_concat, List.rdropWhile_concat]
    split_ifs
    · exact ih
    · exact List.append_assoc _ _ _

end Trim

/-! ## Segments -/

/-- The segments hold every element but the separators. -/
theorem flatten_splitOn (a : α) (l : List α) :
    (l.splitOn a).flatten = l.filter fun b => b ≠ a := by
  induction l with
  | nil => simp
  | cons b l ih =>
    rw [List.splitOn_cons_eq_if_modifyHead]
    by_cases hb : b = a
    · simpa [hb] using ih
    · obtain ⟨s, segments, hsegments⟩ := List.exists_cons_of_ne_nil (List.splitOn_ne_nil a l)
      rw [hsegments] at ih ⊢
      simpa [hb] using ih

theorem notMem_of_mem_splitOn {a : α} {l s : List α} (hs : s ∈ l.splitOn a) : a ∉ s := by
  intro ha
  have hmem := List.mem_flatten_of_mem hs ha
  rw [flatten_splitOn] at hmem
  simp at hmem

/-- What is put at the end of a list goes to its last segment. -/
theorem exists_splitOn_append {a : α} {suffix : List α} (h : a ∉ suffix) (l : List α) :
    ∃ segments last, a ∉ last ∧ (l ++ suffix).splitOn a = segments ++ [last ++ suffix] := by
  have hsingle : ∀ last, a ∉ last → (last ++ suffix).splitOn a = [last ++ suffix] := by
    intro last hlast
    refine List.splitOn_eq_singleton ?_
    rw [List.mem_append, not_or]
    exact ⟨hlast, h⟩
  cases hcut : rsplitOnce a l with
  | none =>
    have hmem := rsplitOnce_eq_none.mp hcut
    exact ⟨[], l, hmem, hsingle l hmem⟩
  | some cut =>
    obtain ⟨front, last⟩ := cut
    obtain ⟨rfl, hlast⟩ := rsplitOnce_eq_some.mp hcut
    refine ⟨front.splitOn a, last, hlast, ?_⟩
    rw [List.append_assoc, List.cons_append, List.splitOn_append_cons_self, hsingle last hlast]

/-- A list is its segments. -/
theorem splitOn_injective (a : α) : Function.Injective (List.splitOn a) := by
  intro l l' h
  have hl : [a].intercalate (l.splitOn a) = l := List.intercalate_splitOn a
  have hl' : [a].intercalate (l'.splitOn a) = l' := List.intercalate_splitOn a
  rw [← hl, ← hl', h]

/-- Lists that agree element by element, and on the separators, agree segment by segment. -/
theorem forall₂_splitOn {a : α} {R : α → α → Prop} (hR : ∀ b c, R b c → (b = a ↔ c = a))
    {l l' : List α} (h : List.Forall₂ R l l') :
    List.Forall₂ (List.Forall₂ R) (l.splitOn a) (l'.splitOn a) := by
  induction h with
  | nil => simp
  | @cons b c l l' hbc hrest ih =>
    rw [List.splitOn_cons_eq_if_modifyHead, List.splitOn_cons_eq_if_modifyHead]
    by_cases hb : b = a
    · have hc : c = a := (hR b c hbc).mp hb
      simpa [hb, hc] using ih
    · -- the element goes to the front of the first segment
      have hc : c ≠ a := fun hc => hb ((hR b c hbc).mpr hc)
      obtain ⟨s, segments, hs⟩ := List.exists_cons_of_ne_nil (List.splitOn_ne_nil a l)
      obtain ⟨s', segments', hs'⟩ := List.exists_cons_of_ne_nil (List.splitOn_ne_nil a l')
      rw [hs, hs'] at ih ⊢
      obtain ⟨hhead, htail⟩ := List.forall₂_cons.mp ih
      simpa [hb, hc] using ⟨⟨hbc, hhead⟩, htail⟩

end Lists

/-! ## Strings -/

theorem fromUTF8?_toUTF8 (s : String) : String.fromUTF8? s.toUTF8 = some s := by
  unfold String.fromUTF8?
  exact dif_pos s.isValidUTF8

theorem append_eq_ofList {s t : String} {l m : List Char} (hs : s = String.ofList l)
    (ht : t = String.ofList m) : s ++ t = String.ofList (l ++ m) := by
  rw [hs, ht, String.ofList_append]

theorem utf8ByteSize_ofList_cons (c : Char) (l : List Char) :
    (String.ofList (c :: l)).utf8ByteSize = c.utf8Size + (String.ofList l).utf8ByteSize := by
  have hcons : String.ofList (c :: l) = String.singleton c ++ String.ofList l := by
    rw [← String.toList_inj]
    simp
  rw [hcons, String.utf8ByteSize_append, String.utf8ByteSize_singleton]

theorem utf8ByteSize_ofList_eq_zero {l : List Char} :
    (String.ofList l).utf8ByteSize = 0 ↔ l = [] := by
  rw [String.utf8ByteSize_eq_zero_iff, ← String.toList_eq_nil_iff, String.toList_ofList]

theorem utf8ByteSize_ofList_le (l : List Char) :
    (String.ofList l).utf8ByteSize ≤ 4 * l.length := by
  induction l with
  | nil => exact le_rfl
  | cons c l ih =>
    have hc := c.utf8Size_le_four
    rw [utf8ByteSize_ofList_cons, List.length_cons]
    omega

/-- `strip_prefix`. -/
def stripPrefix (pre s : String) : Option String :=
  (s.toList.dropPrefix? pre.toList).map String.ofList

theorem stripPrefix_eq_some {pre s r : String} : stripPrefix pre s = some r ↔ s = pre ++ r := by
  unfold stripPrefix
  rw [Option.map_eq_some_iff, ← String.toList_inj, String.toList_append]
  constructor
  · rintro ⟨l, hl, rfl⟩
    obtain ⟨pre', hs, hpre⟩ := List.dropPrefix?_eq_some_iff.mp hl
    rw [hs, eq_of_beq hpre, String.toList_ofList]
  · intro h
    exact ⟨r.toList, by rw [h, List.dropPrefix?_append_of_beq _ (beq_self_eq_true _)],
      String.ofList_toList⟩

theorem stripPrefix_append (pre r : String) : stripPrefix pre (pre ++ r) = some r :=
  stripPrefix_eq_some.mpr rfl

end Text
