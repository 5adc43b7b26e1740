import Mathlib.Data.List.DropRight

namespace Window

variable {α : Type*} {l l' : List α} {m n : ℕ}

/-- `while l.len() > n { l.remove(0) }` -/
def trim (n : ℕ) : List α → List α
  | [] => []
  | a :: l => if n < (a :: l).length then trim n l else a :: l

theorem rtake_of_length_le (h : l.length ≤ n) : l.rtake n = l := by
  rw [List.rtake, Nat.sub_eq_zero_of_le h, List.drop_zero]

@[simp] theorem rtake_length (n : ℕ) (l : List α) : (l.rtake n).length = min n l.length := by
  rw [List.rtake, List.length_drop]
  omega

theorem rtake_suffix (n : ℕ) (l : List α) : l.rtake n <:+ l := List.drop_suffix _ l

theorem rtake_cons_of_lt {a : α} (h : n < (a :: l).length) : (a :: l).rtake n = l.rtake n := by
  have hlength : (a :: l).length - n = l.length - n + 1 := by
    rw [List.length_cons] at h ⊢
    omega
  rw [List.rtake, hlength, List.drop_succ_cons, List.rtake]

theorem trim_eq_rtake (n : ℕ) (l : List α) : trim n l = l.rtake n := by
  induction l with
  | nil => rw [trim, List.rtake_nil]
  | cons a l ih =>
    rw [trim]
    split
    case isTrue h => rw [ih, rtake_cons_of_lt h]
    case isFalse h => exact (rtake_of_length_le (Nat.not_lt.mp h)).symm

/-- What was cut away before is not seen in a window that is no wider. -/
theorem rtake_append_rtake (h : n ≤ m) (l l' : List α) :
    (l.rtake m ++ l').rtake n = (l ++ l').rtake n := by
  induction l with
  | nil => rw [List.rtake_nil]
  | cons a l ih =>
    by_cases hm : m < (a :: l).length
    · have hn : n < (a :: (l ++ l')).length := by
        rw [List.length_cons, List.length_append]
        rw [List.length_cons] at hm
        omega
      rw [rtake_cons_of_lt hm, ih, List.cons_append, rtake_cons_of_lt hn]
    · rw [rtake_of_length_le (Nat.not_lt.mp hm)]

@[simp] theorem rtake_rtake (n : ℕ) (l : List α) : (l.rtake n).rtake n = l.rtake n := by
  simpa only [List.append_nil] using rtake_append_rtake (Nat.le_refl n) l []

theorem rtake_append (l l' : List α) (n : ℕ) :
    (l ++ l').rtake n = l.rtake (n - l'.length) ++ l'.rtake n := by
  have hsplit : (l ++ l').length - n - l.length = l'.length - n := by
    rw [List.length_append]
    omega
  rw [List.rtake, List.drop_append, hsplit, List.rtake, List.rtake]
  congr 1
  rcases Nat.le_total l'.length n with h | h
  · congr 1
    rw [List.length_append]
    omega
  · rw [Nat.sub_eq_zero_of_le h, List.drop_eq_nil_of_le (by simp; omega),
      List.drop_eq_nil_of_le (by simp)]

/-- Behind the same list, lists of one length leave the same window as they do on their own. -/
theorem rtake_append_left_inj {s t : List α} (h : s.length = t.length) (l : List α) (n : ℕ) :
    (l ++ s).rtake n = (l ++ t).rtake n ↔ s.rtake n = t.rtake n := by
  rw [rtake_append, rtake_append, h, List.append_right_inj]

theorem eq_iff_length_eq_of_suffix {s t : List α} (hs : s <:+ l) (ht : t <:+ l) :
    s = t ↔ s.length = t.length := by
  constructor
  · intro h
    rw [h]
  · intro h
    exact (List.suffix_of_suffix_length_le hs ht h.le).eq_of_length h

/-- An end of a list is its window exactly if it is as long. -/
theorem rtake_eq_iff {s : List α} (hs : s <:+ l) : l.rtake n = s ↔ min n l.length = s.length := by
  rw [eq_iff_length_eq_of_suffix (rtake_suffix n l) hs, rtake_length]

/-! ## The run at the end -/

section EndRun

variable [DecidableEq α]

/-- How many elements at the end are `a`. -/
def endRun (a : α) (l : List α) : ℕ := (l.reverse.takeWhile (· = a)).length

@[simp] theorem endRun_nil (a : α) : endRun a [] = 0 := rfl

theorem endRun_concat (a b : α) (l : List α) :
    endRun a (l ++ [b]) = if b = a then endRun a l + 1 else 0 := by
  unfold endRun
  rw [List.reverse_concat, List.takeWhile_cons]
  by_cases h : b = a
  · rw [if_pos h, if_pos (decide_eq_true h), List.length_cons]
  · rw [if_neg h, if_neg (by simpa using h), List.length_nil]

theorem endRun_le_length (a : α) (l : List α) : endRun a l ≤ l.length := by
  induction l using List.reverseRecOn with
  | nil => exact le_rfl
  | append_singleton l b ih =>
    rw [endRun_concat, List.length_append, List.length_singleton]
    split
    · exact Nat.succ_le_succ ih
    · exact Nat.zero_le _

/-- The run is as long as the places, counted from the end, that hold `a`. -/
theorem le_endRun_iff {a : α} : n ≤ endRun a l ↔
    n ≤ l.length ∧ ∀ j, l.length - n ≤ j → j < l.length → l[j]? = some a := by
  induction l using List.reverseRecOn generalizing n with
  | nil => simp
  | append_singleton l b ih =>
    have hlast : (l ++ [b])[l.length]? = some b := List.getElem?_concat_length
    have hbefore : ∀ j < l.length, (l ++ [b])[j]? = l[j]? := fun j hj =>
      List.getElem?_append_left hj
    rw [endRun_concat, List.length_append, List.length_singleton]
    rcases n with _ | n
    · simp
      omega
    by_cases hb : b = a
    · rw [if_pos hb, Nat.succ_le_succ_iff, Nat.succ_le_succ_iff, ih]
      refine and_congr_right fun _ => ⟨fun h j hj hlt => ?_, fun h j hj hlt => ?_⟩
      · rcases Nat.lt_succ_iff_lt_or_eq.mp hlt with hlt | rfl
        · rw [hbefore j hlt]
          exact h j (by omega) hlt
        · rw [hlast, hb]
      · rw [← hbefore j hlt]
        exact h j (by omega) (by omega)
    · rw [if_neg hb]
      refine iff_of_false (by omega) fun ⟨_, h⟩ => hb ?_
      simpa [hlast] using h l.length (by omega) (by omega)

end EndRun

end Window
