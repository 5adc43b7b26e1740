import Mathlib.Data.List.Infix

namespace Glob

variable {α : Type*} {sep : α}

inductive Token (α : Type*) where
  | any
  | star
  | one
  | lit (a : α)
deriving DecidableEq

/-- The texts that a pattern stands for. A `star` and a `one` stand for no separator. -/
def Matches (sep : α) : List (Token α) → List α → Prop
  | [], s => s = []
  | .any :: tokens, s => ∃ w v, s = w ++ v ∧ Matches sep tokens v
  | .star :: tokens, s => ∃ w v, s = w ++ v ∧ sep ∉ w ∧ Matches sep tokens v
  | .one :: tokens, s => ∃ c v, s = c :: v ∧ c ≠ sep ∧ Matches sep tokens v
  | .lit a :: tokens, s => ∃ v, s = a :: v ∧ Matches sep tokens v

/-- Let a run of any kind stand where there is one without separators. -/
def Token.widen : Token α → Token α
  | .star => .any
  | token => token

def widen (tokens : List (Token α)) : List (Token α) := tokens.map Token.widen

/-- Only the end of a text is left to the tokens behind the first. -/
theorem Matches.cons_imp {token : Token α} {tokens tokens' : List (Token α)} {s : List α}
    (h : Matches sep (token :: tokens) s)
    (htokens : ∀ v, v <:+ s → Matches sep tokens v → Matches sep tokens' v) :
    Matches sep (token :: tokens') s := by
  cases token with
  | any =>
    obtain ⟨w, v, rfl, hv⟩ := h
    exact ⟨w, v, rfl, htokens v (List.suffix_append w v) hv⟩
  | star =>
    obtain ⟨w, v, rfl, hw, hv⟩ := h
    exact ⟨w, v, rfl, hw, htokens v (List.suffix_append w v) hv⟩
  | one =>
    obtain ⟨c, v, rfl, hc, hv⟩ := h
    exact ⟨c, v, rfl, hc, htokens v (List.suffix_cons c v) hv⟩
  | lit a =>
    obtain ⟨v, rfl, hv⟩ := h
    exact ⟨v, rfl, htokens v (List.suffix_cons a v) hv⟩

theorem Matches.star_any {tokens : List (Token α)} {s : List α}
    (h : Matches sep (.star :: tokens) s) : Matches sep (.any :: tokens) s := by
  obtain ⟨w, v, hs, -, hv⟩ := h
  exact ⟨w, v, hs, hv⟩

theorem Matches.any_star {tokens : List (Token α)} {s : List α} (hsep : sep ∉ s)
    (h : Matches sep (.any :: tokens) s) : Matches sep (.star :: tokens) s := by
  obtain ⟨w, v, rfl, hv⟩ := h
  exact ⟨w, v, rfl, fun hmem => hsep (List.mem_append_left v hmem), hv⟩

/-- A wider pattern stands for more. -/
theorem Matches.widen {tokens : List (Token α)} {s : List α} (h : Matches sep tokens s) :
    Matches sep (Glob.widen tokens) s := by
  induction tokens generalizing s with
  | nil => exact h
  | cons token tokens ih =>
    have hrest := h.cons_imp fun v _ hv => ih hv
    cases token with
    | star => exact hrest.star_any
    | any | one | lit => exact hrest

/-- In a text without separators there is nothing to tell the runs apart. -/
theorem matches_of_widen {tokens : List (Token α)} {s : List α} (hsep : sep ∉ s)
    (h : Matches sep (widen tokens) s) : Matches sep tokens s := by
  induction tokens generalizing s with
  | nil => exact h
  | cons token tokens ih =>
    have hrest : Matches sep (token.widen :: tokens) s :=
      Matches.cons_imp h fun v hv => ih fun hmem => hsep (hv.subset hmem)
    cases token with
    | star => exact hrest.any_star hsep
    | any | one | lit => exact hrest

/-- Every run without separators comes directly behind one of any kind. -/
def Anchored : List (Token α) → Prop
  | [] => True
  | .star :: _ => False
  | .any :: .star :: tokens => Anchored tokens
  | _ :: tokens => Anchored tokens

/-- What an anchored run may not hold is left to the run before it. -/
theorem Anchored.matches_of_widen {tokens : List (Token α)} (hanchored : Anchored tokens)
    {s : List α} (h : Matches sep (widen tokens) s) : Matches sep tokens s := by
  induction tokens using Anchored.induct generalizing s with
  | case1 => exact h
  | case2 tokens => exact hanchored.elim
  | case3 tokens ih =>
    obtain ⟨w, v, rfl, w', v', rfl, hv⟩ := h
    exact ⟨w ++ w', v', (List.append_assoc w w' v').symm, [], v', rfl, List.not_mem_nil,
      ih hanchored hv⟩
  | case4 token tokens hstar hany ih =>
    have htokens : Anchored tokens := by
      unfold Anchored at hanchored
      split at hanchored <;> simp_all
    have hrest : Matches sep (token.widen :: tokens) s :=
      Matches.cons_imp h fun v _ => ih htokens
    cases token with
    | star => exact (hstar rfl).elim
    | any | one | lit => exact hrest

/-- A text begins with the literal that its pattern begins with. -/
theorem Matches.head {tokens : List (Token α)} {s : List α} {a : α}
    (h : Matches sep (.lit a :: tokens) s) : s.head? = some a := by
  obtain ⟨v, rfl, -⟩ := h
  rfl

theorem Matches.exists_suffix {token : Token α} {tokens : List (Token α)} {s : List α}
    (h : Matches sep (token :: tokens) s) : ∃ v, v <:+ s ∧ Matches sep tokens v := by
  cases token with
  | any =>
    obtain ⟨w, v, rfl, hv⟩ := h
    exact ⟨v, List.suffix_append w v, hv⟩
  | star =>
    obtain ⟨w, v, rfl, -, hv⟩ := h
    exact ⟨v, List.suffix_append w v, hv⟩
  | one =>
    obtain ⟨c, v, rfl, -, hv⟩ := h
    exact ⟨v, List.suffix_cons c v, hv⟩
  | lit a =>
    obtain ⟨v, rfl, hv⟩ := h
    exact ⟨v, List.suffix_cons a v, hv⟩

/-- A text holds the literals of its pattern. -/
theorem Matches.mem {tokens : List (Token α)} {s : List α} {a : α} (h : Matches sep tokens s)
    (ha : .lit a ∈ tokens) : a ∈ s := by
  induction tokens generalizing s with
  | nil => cases ha
  | cons token tokens ih =>
    rcases List.mem_cons.mp ha with rfl | ha
    · exact List.mem_of_mem_head? h.head
    · obtain ⟨v, hsuffix, hv⟩ := h.exists_suffix
      exact hsuffix.subset (ih hv ha)

end Glob
