import Mathlib.Data.List.Perm.Basic
import Mathlib.Data.List.Infix

namespace Selection

variable {α : Type*}

def select (chosen : ℕ → Bool) : List α → List α
  | [] => []
  | a :: l =>
    if chosen 0 then a :: select (fun i => chosen (i + 1)) l
    else select (fun i => chosen (i + 1)) l

/-- All that is pinned is chosen, and nothing is passed over behind a choice. -/
structure KeepsRecent (pinned : α → Bool) (l : List α) (chosen : ℕ → Bool) : Prop where
  keeps : ∀ i a, l[i]? = some a → pinned a = true → chosen i = true
  recent : ∀ i j a b, i < j → l[i]? = some a → l[j]? = some b → pinned a = false →
    chosen i = true → chosen j = true

theorem select_sublist (chosen : ℕ → Bool) (l : List α) : (select chosen l).Sublist l := by
  induction l generalizing chosen with
  | nil => exact List.Sublist.refl _
  | cons a l ih =>
    rw [select]
    split_ifs
    · exact (ih _).cons_cons a
    · exact (ih _).cons a

theorem select_of_forall {chosen : ℕ → Bool} {l : List α} (h : ∀ i < l.length, chosen i = true) :
    select chosen l = l := by
  induction l generalizing chosen with
  | nil => rfl
  | cons a l ih =>
    rw [select, if_pos (h 0 (Nat.succ_pos _)), ih]
    intro i hi
    exact h (i + 1) (Nat.succ_lt_succ hi)

variable {pinned : α → Bool}

theorem KeepsRecent.tail {a : α} {l : List α} {chosen : ℕ → Bool}
    (h : KeepsRecent pinned (a :: l) chosen) : KeepsRecent pinned l fun i => chosen (i + 1) where
  keeps i b hb := h.keeps (i + 1) b hb
  recent i j b c hij hb hc := h.recent (i + 1) (j + 1) b c (Nat.succ_lt_succ hij) hb hc

theorem KeepsRecent.exists_append {l : List α} {chosen : ℕ → Bool}
    (h : KeepsRecent pinned l chosen) :
    ∃ old new, l = old ++ new ∧ select chosen l = old.filter pinned ++ new := by
  induction l generalizing chosen with
  | nil => exact ⟨[], [], rfl, rfl⟩
  | cons a l ih =>
    obtain ⟨old, new, hl, hselect⟩ := ih h.tail
    rw [select]
    cases ha : pinned a with
    | true =>
      refine ⟨a :: old, new, by rw [hl, List.cons_append], ?_⟩
      rw [if_pos (h.keeps 0 a rfl ha), hselect, List.filter_cons_of_pos ha, List.cons_append]
    | false =>
      by_cases h0 : chosen 0 = true
      · -- from here on everything is chosen
        refine ⟨[], a :: l, rfl, ?_⟩
        rw [if_pos h0, select_of_forall]
        · rfl
        intro i hi
        exact h.recent 0 (i + 1) a l[i] (Nat.succ_pos i) rfl (by simp [hi]) ha h0
      · refine ⟨a :: old, new, by rw [hl, List.cons_append], ?_⟩
        rw [if_neg h0, hselect, List.filter_cons_of_neg (by simp [ha])]

/-- The positions of what is pinned in the front, and all those behind it. -/
def cut (pinned : α → Bool) (old : List α) (i : ℕ) : Bool := (old[i]?.map pinned).getD true

theorem select_cut (old new : List α) :
    select (cut pinned old) (old ++ new) = old.filter pinned ++ new := by
  induction old with
  | nil =>
    apply select_of_forall
    intro i _
    rfl
  | cons a old ih =>
    have htail : (fun i => cut pinned (a :: old) (i + 1)) = cut pinned old := by
      funext i
      simp [cut]
    rw [List.cons_append, select, htail, ih]
    cases ha : pinned a <;> simp [cut, ha]

theorem keepsRecent_cut (old new : List α) :
    KeepsRecent pinned (old ++ new) (cut pinned old) where
  keeps i a ha hp := by
    rcases Nat.lt_or_ge i old.length with hi | hi
    · rw [List.getElem?_append_left hi] at ha
      simp [cut, ha, hp]
    · simp [cut, List.getElem?_eq_none hi]
  recent i j a b hij ha hb hp hi := by
    have hlength : old.length ≤ i := by
      by_contra hlt
      rw [List.getElem?_append_left (not_le.mp hlt)] at ha
      simp [cut, ha, hp] at hi
    simp [cut, List.getElem?_eq_none (hlength.trans hij.le)]

/-- What a selection of the pinned and the recent comes to. -/
theorem exists_keepsRecent_iff {l r : List α} :
    (∃ chosen, r = select chosen l ∧ KeepsRecent pinned l chosen) ↔
      ∃ old new, l = old ++ new ∧ r = old.filter pinned ++ new := by
  constructor
  · rintro ⟨chosen, rfl, h⟩
    exact h.exists_append
  · rintro ⟨old, new, rfl, rfl⟩
    exact ⟨cut pinned old, (select_cut old new).symm, keepsRecent_cut old new⟩

/-! ## Taking what fits -/

section Taking

variable (fits : List α → α → Bool)

def take (kept : List α) (a : α) : List α := if fits kept a then kept ++ [a] else kept

def taken : List α → List α → List α
  | _, [] => []
  | kept, a :: l => if fits kept a then a :: taken (kept ++ [a]) l else taken kept l

@[simp] theorem taken_nil (kept : List α) : taken fits kept [] = [] := rfl

theorem taken_cons (kept l : List α) (a : α) : taken fits kept (a :: l) =
    if fits kept a then a :: taken fits (kept ++ [a]) l else taken fits kept l := rfl

theorem foldl_take (l kept : List α) : l.foldl (take fits) kept = kept ++ taken fits kept l := by
  induction l generalizing kept with
  | nil => simp
  | cons a l ih =>
    rw [List.foldl_cons, ih, taken_cons, take]
    split_ifs <;> simp

theorem taken_sublist (l kept : List α) : (taken fits kept l).Sublist l := by
  induction l generalizing kept with
  | nil => exact List.Sublist.refl _
  | cons a l ih =>
    rw [taken_cons]
    split_ifs
    · exact (ih _).cons_cons a
    · exact (ih _).cons a

theorem taken_append (l₁ l₂ kept : List α) :
    taken fits kept (l₁ ++ l₂) =
      taken fits kept l₁ ++ taken fits (kept ++ taken fits kept l₁) l₂ := by
  induction l₁ generalizing kept with
  | nil => simp
  | cons a l₁ ih =>
    rw [List.cons_append, taken_cons, taken_cons]
    split_ifs
    · rw [ih, List.cons_append, List.append_assoc, List.singleton_append]
    · rw [ih]

/-- Each element of a list fits when those before it have been added. -/
def FitsInTurn (kept l : List α) : Prop :=
  ∀ front a, front ++ [a] <+: l → fits (kept ++ front) a = true

theorem fitsInTurn_cons {kept l : List α} {a : α} :
    FitsInTurn fits kept (a :: l) ↔ fits kept a = true ∧ FitsInTurn fits (kept ++ [a]) l := by
  constructor
  · intro h
    refine ⟨by simpa using h [] a ⟨l, rfl⟩, ?_⟩
    intro front b hb
    have := h (a :: front) b (List.cons_prefix_cons.mpr ⟨rfl, hb⟩)
    rwa [List.append_cons] at this
  · rintro ⟨ha, hl⟩ front b hb
    cases front with
    | nil =>
      obtain ⟨rfl, -⟩ := List.cons_prefix_cons.mp hb
      rwa [List.append_nil]
    | cons c front =>
      obtain ⟨rfl, hfront⟩ := List.cons_prefix_cons.mp hb
      rw [List.append_cons]
      exact hl front b hfront

theorem taken_eq_self_iff {kept l : List α} : taken fits kept l = l ↔ FitsInTurn fits kept l := by
  induction l generalizing kept with
  | nil => exact iff_of_true rfl fun front a h => absurd h.length_le (by simp)
  | cons a l ih =>
    rw [fitsInTurn_cons, ← ih, taken_cons]
    split_ifs with ha
    · simp [ha]
    · refine iff_of_false ?_ (fun h => ha h.1)
      intro h
      have := (taken_sublist fits l kept).length_le
      rw [h, List.length_cons] at this
      omega

theorem taken_eq_nil_iff {kept l : List α} :
    taken fits kept l = [] ↔ ∀ a ∈ l, fits kept a = false := by
  induction l with
  | nil => simp
  | cons a l ih =>
    rw [taken_cons]
    split_ifs with ha
    · simp [ha]
    · rw [ih]
      simp [Bool.eq_false_iff.mpr ha]

variable {fits}

/-- What does not fit does not fit later. -/
theorem notMem_taken (hfits : ∀ kept a b, fits (kept ++ [b]) a = true → fits kept a = true)
    {kept l : List α} {a : α} (ha : ¬fits kept a = true) : a ∉ taken fits kept l := by
  induction l generalizing kept with
  | nil => simp
  | cons b l ih =>
    rw [taken_cons]
    split_ifs with hb
    · rw [List.mem_cons, not_or]
      exact ⟨fun hab => ha (hab ▸ hb), ih (mt (hfits kept a b) ha)⟩
    · exact ih ha

theorem taken_perm_iff (hfits : ∀ kept a b, fits (kept ++ [b]) a = true → fits kept a = true)
    {kept l₁ l₂ : List α} :
    (taken fits kept (l₁ ++ l₂)).Perm l₁ ↔
      FitsInTurn fits kept l₁ ∧ ∀ a ∈ l₂, fits (kept ++ l₁) a = false := by
  rw [← taken_eq_self_iff, ← taken_eq_nil_iff]
  constructor
  · intro h
    induction l₁ generalizing kept with
    | nil => exact ⟨rfl, by simpa using h⟩
    | cons a l₁ ih =>
      rw [List.cons_append, taken_cons] at h
      split_ifs at h with ha
      · obtain ⟨hl₁, hl₂⟩ := ih (List.perm_cons a |>.mp h)
        rw [taken_cons, if_pos ha, hl₁]
        exact ⟨rfl, by simpa using hl₂⟩
      · exact absurd (h.mem_iff.mpr (List.mem_cons_self ..)) (notMem_taken hfits ha)
  · rintro ⟨hl₁, hl₂⟩
    rw [taken_append, hl₁, hl₂, List.append_nil]

end Taking

end Selection
