import Mathlib.Data.List.Perm.Basic

namespace Collect

variable {α β δ ε : Type*}

/-- Both fail, or both give the same items in some order. -/
inductive SameItems : Except ε (List β) → Except ε (List β) → Prop
  | error (e e' : ε) : SameItems (.error e) (.error e')
  | ok {l l' : List β} (h : l.Perm l') : SameItems (.ok l) (.ok l')

def joined (x y : Except ε (List β)) : Except ε (List β) := do
  let l ← x
  let l' ← y
  return l ++ l'

theorem flatMapM_cons (f : α → Except ε (List β)) (a : α) (l : List α) :
    (a :: l).flatMapM f = joined (f a) (l.flatMapM f) := List.flatMapM_cons

namespace SameItems

variable {x x' y y' z : Except ε (List β)}

theorem refl (x : Except ε (List β)) : SameItems x x := by
  cases x with
  | error e => exact .error e e
  | ok l => exact .ok (.refl l)

theorem trans (h : SameItems x y) (h' : SameItems y z) : SameItems x z := by
  cases h with
  | error e e' =>
    cases h'
    exact .error _ _
  | ok h =>
    cases h' with
    | ok h' => exact .ok (h.trans h')

theorem joined (h : SameItems x x') (h' : SameItems y y') :
    SameItems (Collect.joined x y) (Collect.joined x' y') := by
  cases h with
  | error e e' => exact .error e e'
  | ok h =>
    cases h' with
    | error e e' => exact .error e e'
    | ok h' => exact .ok (h.append h')

theorem joined_comm (x y z : Except ε (List β)) :
    SameItems (Collect.joined x (Collect.joined y z))
      (Collect.joined y (Collect.joined x z)) := by
  cases x with
  | error e =>
    cases y with
    | error e' => exact .error e e'
    | ok l => exact .error e e
  | ok l =>
    cases y with
    | error e => exact .error e e
    | ok l' =>
      cases z with
      | error e => exact .error e e
      | ok l'' =>
        refine .ok ?_
        rw [← List.append_assoc, ← List.append_assoc]
        exact List.perm_append_comm.append_right _

end SameItems

theorem flatMapM_congr {f g : α → Except ε (List β)} (h : ∀ a, SameItems (f a) (g a))
    (l : List α) : SameItems (l.flatMapM f) (l.flatMapM g) := by
  induction l with
  | nil => exact .refl _
  | cons a l ih =>
    rw [flatMapM_cons, flatMapM_cons]
    exact (h a).joined ih

theorem flatMapM_perm {l l' : List α} (h : l.Perm l') (f : α → Except ε (List β)) :
    SameItems (l.flatMapM f) (l'.flatMapM f) := by
  induction h with
  | nil => exact .refl _
  | cons a _ ih =>
    rw [flatMapM_cons, flatMapM_cons]
    exact (SameItems.refl _).joined ih
  | swap a b l =>
    simp only [flatMapM_cons]
    exact .joined_comm _ _ _
  | trans _ _ ih ih' => exact ih.trans ih'

/-- A fold whose every step adds the items of a computation adds the items of all. -/
theorem foldlM_eq_flatMapM {add : δ → List β → δ} {f : δ → α → Except ε δ}
    {g : α → Except ε (List β)} (hnil : ∀ d, add d [] = d)
    (happend : ∀ d l l', add (add d l) l' = add d (l ++ l'))
    (hstep : ∀ d a, f d a = (g a).map (add d)) (l : List α) (d : δ) :
    l.foldlM f d = (l.flatMapM g).map (add d) := by
  induction l generalizing d with
  | nil => exact congrArg Except.ok (hnil d).symm
  | cons a l ih =>
    rw [List.foldlM_cons, flatMapM_cons, hstep]
    cases g a with
    | error e => rfl
    | ok items =>
      change l.foldlM f (add d items) = _
      rw [ih]
      cases l.flatMapM g with
      | error e => rfl
      | ok items' => exact congrArg Except.ok (happend d items items')

/-! ## What is collected -/

theorem flatMapM_eq_ok {f : α → Except ε (List β)} {l : List α} {ys : List β}
    (h : l.flatMapM f = .ok ys) : (∀ a ∈ l, ∃ items, f a = .ok items) ∧
      ∀ y, y ∈ ys ↔ ∃ a ∈ l, ∃ items, f a = .ok items ∧ y ∈ items := by
  induction l generalizing ys with
  | nil =>
    cases h
    simp
  | cons a l ih =>
    rw [flatMapM_cons] at h
    cases ha : f a with
    | error e =>
      rw [ha] at h
      cases h
    | ok items =>
      cases hl : l.flatMapM f with
      | error e =>
        rw [ha, hl] at h
        cases h
      | ok items' =>
        rw [ha, hl] at h
        cases h
        obtain ⟨hall, hmem⟩ := ih hl
        refine ⟨List.forall_mem_cons.mpr ⟨⟨items, ha⟩, hall⟩, fun y => ?_⟩
        rw [List.mem_append, hmem]
        simp [ha]

/-- If each of the computations returns, so do all together. -/
theorem exists_flatMapM {f : α → Except ε (List β)} {l : List α}
    (h : ∀ a ∈ l, ∃ items, f a = .ok items) : ∃ ys, l.flatMapM f = .ok ys := by
  induction l with
  | nil => exact ⟨[], rfl⟩
  | cons a l ih =>
    obtain ⟨items, ha⟩ := h a (by simp)
    obtain ⟨items', hl⟩ := ih fun b hb => h b (by simp [hb])
    rw [flatMapM_cons, ha, hl]
    exact ⟨items ++ items', rfl⟩

/-- All of a list are there. -/
theorem mapM_id_eq_ok {l : List (Except ε α)} {xs : List α} :
    l.mapM id = .ok xs ↔ l = xs.map .ok := by
  induction l generalizing xs with
  | nil => cases xs <;> simp [pure, Except.pure]
  | cons x l ih =>
    rw [List.mapM_cons]
    cases x with
    | error e => cases xs <;> simp [bind, Except.bind]
    | ok a =>
      cases hl : l.mapM id with
      | error e => cases xs <;> simp [bind, Except.bind, hl, ← ih]
      | ok as => cases xs <;> simp [bind, Except.bind, pure, Except.pure, hl, ← ih]

/-- Computations that return the same, whatever their errors are. -/
theorem toOption_congr {x y : Except ε α} (h : ∀ a, x = .ok a ↔ y = .ok a) :
    x.toOption = y.toOption := by
  cases x with
  | ok a => rw [(h a).mp rfl]
  | error e =>
    cases y with
    | ok a => cases (h a).mpr rfl
    | error e' => rfl

end Collect
