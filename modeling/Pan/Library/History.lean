import Mathlib.Data.List.DropRight
import Mathlib.Data.List.Basic

namespace History

variable {Λ β : Type*}

/-- Every action of `h` bears the relation `R` to the actions before it. -/
def Always (R : List Λ → Λ → Prop) (h : List Λ) : Prop :=
  ∀ pre a post, h = pre ++ a :: post → R pre a

theorem always_nil (R : List Λ → Λ → Prop) : Always R [] := by
  intro pre a post h
  simp at h

theorem always_concat {R : List Λ → Λ → Prop} {h : List Λ} {a : Λ} :
    Always R (h ++ [a]) ↔ Always R h ∧ R h a := by
  constructor
  · intro hall
    refine ⟨fun pre b post he => hall pre b (post ++ [a]) (by simp [he]), hall h a [] rfl⟩
  · rintro ⟨hall, hlast⟩ pre b post he
    rcases List.eq_nil_or_concat post with rfl | ⟨post', c, rfl⟩
    · obtain ⟨rfl, hb⟩ := List.append_inj' he rfl
      obtain rfl : a = b := by simpa using hb
      exact hlast
    · have he' : h ++ [a] = (pre ++ b :: post') ++ [c] := by simpa using he
      exact hall pre b post' (List.append_inj' he' rfl).1

theorem always_append {R : List Λ → Λ → Prop} {h t : List Λ} :
    Always R (h ++ t) ↔ Always R h ∧ Always (fun pre a => R (h ++ pre) a) t := by
  induction t using List.reverseRecOn with
  | nil => simp [always_nil]
  | append_singleton t a ih =>
    rw [← List.append_assoc, always_concat, always_concat, ih, and_assoc]

theorem always_cons {R : List Λ → Λ → Prop} {a : Λ} {h : List Λ} :
    Always R (a :: h) ↔ R [] a ∧ Always (fun pre b => R (a :: pre) b) h := by
  have hone : Always R [a] ↔ R [] a := by
    rw [← List.nil_append [a], always_concat]
    exact and_iff_right (always_nil R)
  rw [← List.singleton_append, always_append, hone]
  rfl

theorem always_append_pair {R : List Λ → Λ → Prop} {h : List Λ} {a b : Λ} :
    Always R (h ++ [a, b]) ↔ (Always R h ∧ R h a) ∧ R (h ++ [a]) b := by
  rw [show h ++ [a, b] = (h ++ [a]) ++ [b] by simp, always_concat, always_concat]

theorem Always.append {R : List Λ → Λ → Prop} {h t : List Λ} (hall : Always R h)
    (ht : ∀ a ∈ t, ∀ pre, R (h ++ pre) a) : Always R (h ++ t) := by
  refine always_append.mpr ⟨hall, fun pre a post he => ht a ?_ pre⟩
  simp [he]

theorem Always.append_of_forall {R : List Λ → Λ → Prop} {h t : List Λ} (hall : Always R h)
    (ht : ∀ a ∈ t, ∀ pre, R pre a) : Always R (h ++ t) :=
  hall.append fun a ha _ => ht a ha _

theorem Always.mono {R S : List Λ → Λ → Prop} (hRS : ∀ pre a, R pre a → S pre a) {h : List Λ}
    (hall : Always R h) : Always S h :=
  fun pre a post he => hRS pre a (hall pre a post he)

/-- What happened after the last action that satisfies `p`. -/
def since (p : Λ → Bool) (h : List Λ) : List Λ := h.rtakeWhile fun a => !p a

@[simp] theorem since_nil (p : Λ → Bool) : since p [] = [] := rfl

theorem since_concat (p : Λ → Bool) (h : List Λ) (a : Λ) :
    since p (h ++ [a]) = if p a then [] else since p h ++ [a] := by
  rw [since, List.rtakeWhile_concat]
  cases p a <;> rfl

theorem since_append_of_forall {p : Λ → Bool} {t : List Λ} (ht : ∀ a ∈ t, p a = false)
    (h : List Λ) : since p (h ++ t) = since p h ++ t := by
  induction t using List.reverseRecOn with
  | nil => simp
  | append_singleton t a ih =>
    have ha : p a = false := ht a (by simp)
    have hinit : ∀ b ∈ t, p b = false := fun b hb => ht b (by simp [hb])
    rw [← List.append_assoc, since_concat, ha, ih hinit]
    simp

theorem mem_of_mem_since {p : Λ → Bool} {h : List Λ} {a : Λ} (ha : a ∈ since p h) : a ∈ h :=
  (List.rtakeWhile_suffix _ _).subset ha

/-- What came before an action that satisfies `p` is out of sight. -/
theorem since_append_of_mem {p : Λ → Bool} {t : List Λ} {a : Λ} (ha : a ∈ t) (hp : p a = true)
    (h : List Λ) : since p (h ++ t) = since p t := by
  induction t using List.reverseRecOn with
  | nil => cases ha
  | append_singleton t b ih =>
    rw [← List.append_assoc, since_concat, since_concat]
    cases hb : p b with
    | true => rfl
    | false =>
      have hne : a ≠ b := fun he => by simp [← he, hp] at hb
      rw [ih (List.mem_append.mp ha |>.resolve_right (by simp [hne]))]

/-- The last thing that `f` picks out of the history. -/
def latest (f : Λ → Option β) (h : List Λ) : Option β := (h.filterMap f).getLast?

@[simp] theorem latest_nil (f : Λ → Option β) : latest f [] = none := rfl

theorem latest_concat (f : Λ → Option β) (h : List Λ) (a : Λ) :
    latest f (h ++ [a]) = (f a).or (latest f h) := by
  cases ha : f a <;> simp [latest, List.filterMap_append, ha]

theorem latest_append_of_forall {f : Λ → Option β} {t : List Λ} (ht : ∀ a ∈ t, f a = none)
    (h : List Λ) : latest f (h ++ t) = latest f h := by
  have hnil : t.filterMap f = [] := List.filterMap_eq_nil_iff.mpr ht
  rw [latest, latest, List.filterMap_append, hnil, List.append_nil]

/-- If no more than `n` actions satisfy `p` after each one that satisfies `q`, and none does
before the first of these, then at most `n` times as many satisfy `p` as satisfy `q`. -/
theorem countP_le_mul_countP {p q : Λ → Bool} {n : ℕ} {h : List Λ}
    (hdisj : ∀ a, p a = true → q a = false)
    (hall : Always (fun pre a => p a = true → 0 < pre.countP q ∧ (since q pre).countP p < n) h) :
    h.countP p ≤ n * h.countP q := by
  -- after each `q` at most `n` letters with `p`, so the bound holds from one `q` to the next
  suffices hs : (h.countP q = 0 ∧ h.countP p = 0) ∨ ∃ k, h.countP q = k + 1 ∧
      h.countP p ≤ n * k + (since q h).countP p ∧ (since q h).countP p ≤ n by
    rcases hs with ⟨-, hp⟩ | ⟨k, hq, hp, hn⟩
    · simp [hp]
    · rw [hq, Nat.mul_succ]
      omega
  induction h using List.reverseRecOn with
  | nil => exact Or.inl ⟨rfl, rfl⟩
  | append_singleton h a ih =>
    obtain ⟨hpre, ha⟩ := always_concat.mp hall
    rw [since_concat]
    rcases ih hpre with ⟨hq, hp⟩ | ⟨k, hq, hp, hn⟩
    · cases hqa : q a with
      | true =>
        right
        have hpa : p a = false := by by_contra hc; simp [hdisj a (by simpa using hc)] at hqa
        exact ⟨0, by simp [hq, hqa], by simp [hp, hpa], by simp⟩
      | false =>
        left
        have hpa : p a = false := by
          by_contra hc
          have := (ha (by simpa using hc)).1
          omega
        simp [hq, hp, hqa, hpa]
    · right
      cases hqa : q a with
      | true =>
        have hpa : p a = false := by by_contra hc; simp [hdisj a (by simpa using hc)] at hqa
        refine ⟨k + 1, by simp [hq, hqa], ?_, by simp⟩
        rw [Nat.mul_succ]
        simp only [List.countP_append, List.countP_singleton, hpa, if_true, List.countP_nil]
        simp
        omega
      | false =>
        refine ⟨k, by simp [hq, hqa], ?_⟩
        cases hpa : p a with
        | true =>
          have hlt := (ha hpa).2
          simp [hpa]
          omega
        | false => simpa [hpa] using ⟨hp, hn⟩

end History
