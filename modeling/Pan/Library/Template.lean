import Mathlib.Logic.Nontrivial.Defs
import Mathlib.Data.List.Basic

namespace Template

variable {α ν : Type*}

inductive Piece (α ν : Type*) where
  | letter (a : α)
  | name (n : ν)

def Piece.eval (env : ν → List α) : Piece α ν → List α
  | letter a => [a]
  | name n => env n

def eval (env : ν → List α) (p : List (Piece α ν)) : List α := p.flatMap (Piece.eval env)

@[simp] theorem eval_nil (env : ν → List α) : eval env [] = [] := rfl

@[simp] theorem eval_cons (env : ν → List α) (x : Piece α ν) (p : List (Piece α ν)) :
    eval env (x :: p) = x.eval env ++ eval env p := List.flatMap_cons

@[simp] theorem eval_append (env : ν → List α) (p q : List (Piece α ν)) :
    eval env (p ++ q) = eval env p ++ eval env q := List.flatMap_append

section Distinct

variable [Nontrivial α]

/-- Pieces that differ begin with different letters under some environment. -/
theorem exists_head_ne {x y : Piece α ν} (h : x ≠ y) :
    ∃ env : ν → List α, ∃ a b, a ≠ b ∧ x.eval env = [a] ∧ y.eval env = [b] := by
  classical
  obtain ⟨a₀, b₀, hab⟩ := exists_pair_ne α
  cases x with
  | letter a =>
    cases y with
    | letter b => exact ⟨fun _ => [], a, b, fun heq => h (congrArg Piece.letter heq), rfl, rfl⟩
    | name n =>
      obtain ⟨b, hb⟩ := exists_ne a
      exact ⟨fun _ => [b], a, b, hb.symm, rfl, rfl⟩
  | name n =>
    cases y with
    | letter b =>
      obtain ⟨a, ha⟩ := exists_ne b
      exact ⟨fun _ => [a], a, b, ha, rfl, rfl⟩
    | name m =>
      have hne : m ≠ n := fun heq => h (congrArg Piece.name heq.symm)
      exact ⟨fun k => if k = n then [a₀] else [b₀], a₀, b₀, hab, if_pos rfl, if_neg hne⟩

/-- A piece stands for something under some environment. -/
theorem exists_eval_ne_nil (x : Piece α ν) : ∃ env : ν → List α, x.eval env ≠ [] := by
  obtain ⟨a₀, -⟩ := exists_pair_ne α
  cases x with
  | letter a => exact ⟨fun _ => [], List.cons_ne_nil a []⟩
  | name n => exact ⟨fun _ => [a₀], List.cons_ne_nil a₀ []⟩

/-- Templates that look the same under every environment are the same. -/
theorem eq_of_eval_eq {p q : List (Piece α ν)} (h : ∀ env, eval env p = eval env q) : p = q := by
  induction p generalizing q with
  | nil =>
    cases q with
    | nil => rfl
    | cons y q =>
      obtain ⟨env, hne⟩ := exists_eval_ne_nil y
      have heq := (h env).symm
      rw [eval_nil, eval_cons, List.append_eq_nil_iff] at heq
      exact absurd heq.1 hne
  | cons x p ih =>
    cases q with
    | nil =>
      obtain ⟨env, hne⟩ := exists_eval_ne_nil x
      have heq := h env
      rw [eval_nil, eval_cons, List.append_eq_nil_iff] at heq
      exact absurd heq.1 hne
    | cons y q =>
      by_cases hxy : x = y
      · subst hxy
        rw [ih fun env => by simpa only [eval_cons, List.append_cancel_left_eq] using h env]
      · obtain ⟨env, a, b, hab, hx, hy⟩ := exists_head_ne hxy
        have heq := h env
        rw [eval_cons, eval_cons, hx, hy] at heq
        exact absurd (List.cons.inj heq).1 hab

end Distinct

end Template
