import Pan.Control
import Pan.Library.Selection

namespace Pan

open Selection

def bodyBytes (fragments : List Fragment) : ℕ :=
  (fragments.map fun f => f.body.utf8ByteSize).sum

@[simp] theorem bodyBytes_append (fragments fragments' : List Fragment) :
    bodyBytes (fragments ++ fragments') = bodyBytes fragments + bodyBytes fragments' := by
  simp [bodyBytes]

@[simp] theorem bodyBytes_singleton (f : Fragment) : bodyBytes [f] = f.body.utf8ByteSize := by
  simp [bodyBytes]

theorem estimateTokens_eq (fragments : List Fragment) :
    ContextBudget.estimateTokens ⟨fragments⟩ = bodyBytes fragments / 4 := rfl

namespace TruncationCompactor

/-- The fragments that stay in any case. -/
def isPinned (f : Fragment) : Bool :=
  f.channel == "system" || f.channel == "objective" || f.channel == "persona"

def fits (budget : ContextBudget) (compacted : List Fragment) (f : Fragment) : Bool :=
  ContextBudget.estimateTokens ⟨compacted⟩ + f.body.utf8ByteSize / 4 ≤ budget.maxTokens

def compact (ctx : Context) (budget : ContextBudget) : Context :=
  if ContextBudget.estimateTokens ctx ≤ budget.maxTokens then ctx
  else
    let compacted := ctx.fragments.filter isPinned
    let tail := (ctx.fragments.filter fun f => !isPinned f).reverse
    ⟨tail.foldl (take (fits budget)) compacted⟩

def compactor (W : Type) : ContextCompactor W :=
  ⟨fun ctx budget w => some (compact ctx budget, w)⟩

/-- A context may be compacted whether or not it is over the budget. -/
theorem compactIfOver_eq {W : Type} {L : Loop W} {budget : ContextBudget}
    (hL : L.compactor = some (compactor W)) (hbudget : L.contextBudget = some budget)
    (ctx : Context) (w : W) :
    L.compactIfOver ctx w = ([], some (compact ctx budget, w)) := by
  unfold Loop.compactIfOver
  rw [hL, hbudget]
  by_cases hover : budget.maxTokens < ContextBudget.estimateTokens ctx
  · simp only [if_pos hover]
    rfl
  · simp only [if_neg hover]
    rw [compact, if_pos (not_lt.mp hover)]
    rfl

theorem compact_of_le {ctx : Context} {budget : ContextBudget}
    (h : ContextBudget.estimateTokens ctx ≤ budget.maxTokens) : compact ctx budget = ctx :=
  if_pos h

/-- What is pinned, with as much of the rest as the pass takes. -/
theorem compact_of_lt {ctx : Context} {budget : ContextBudget}
    (h : budget.maxTokens < ContextBudget.estimateTokens ctx) :
    (compact ctx budget).fragments = ctx.fragments.filter isPinned ++
      taken (fits budget) (ctx.fragments.filter isPinned)
        (ctx.fragments.filter fun f => !isPinned f).reverse := by
  rw [compact, if_neg (not_le.mpr h)]
  exact foldl_take (fits budget) _ _

theorem fits_of_fits_append {budget : ContextBudget} (compacted : List Fragment)
    (f g : Fragment) (h : fits budget (compacted ++ [g]) f = true) :
    fits budget compacted f = true := by
  unfold fits at h ⊢
  rw [decide_eq_true_eq, estimateTokens_eq] at h ⊢
  rw [bodyBytes_append] at h
  omega

/-! ## Order -/

/-- The fragments from a place on are those that are taken, and they read the same from either
end: none of them is pinned, each fits beside the pinned ones and those newer than it, and
nothing older fits beside them all. -/
def ReadsBackwards (budget : ContextBudget) (fragments : List Fragment) : Prop :=
  ∃ old new, fragments = old ++ new ∧ (∀ f ∈ new, isPinned f = false) ∧ new.reverse = new ∧
    FitsInTurn (fits budget) (old.filter isPinned) new.reverse ∧
    ∀ f ∈ old, isPinned f = false → fits budget (old.filter isPinned ++ new) f = false

/-- A cut can be made right before a fragment that is not pinned, or at the end. -/
theorem exists_cut {α : Type*} (pinned : α → Bool) (old new : List α) :
    ∃ old' new', old ++ new = old' ++ new' ∧
      old.filter pinned ++ new = old'.filter pinned ++ new' ∧
      ∀ a l, new' = a :: l → pinned a = false := by
  refine ⟨old ++ new.takeWhile pinned, new.dropWhile pinned, ?_, ?_, ?_⟩
  · rw [List.append_assoc, List.takeWhile_append_dropWhile]
  · have htake : (new.takeWhile pinned).filter pinned = new.takeWhile pinned :=
      List.filter_eq_self.mpr fun a ha => List.mem_takeWhile_imp ha
    rw [List.filter_append, htake, List.append_assoc, List.takeWhile_append_dropWhile]
  · intro a l ha
    have hhead := List.head?_dropWhile_not pinned new
    rw [ha] at hhead
    simpa using hhead

theorem filter_eq_nil_of_append {α : Type*} {pinned : α → Bool} {l k : List α}
    (hhead : ∀ a l', l = a :: l' → pinned a = false) (h : l.filter pinned ++ k = l) :
    l.filter pinned = [] := by
  cases hl : l.filter pinned with
  | nil => rfl
  | cons a rest =>
    have ha : pinned a = true := (List.mem_filter.mp (hl ▸ List.mem_cons_self ..)).2
    rw [hl, List.cons_append] at h
    rw [hhead a _ h.symm] at ha
    cases ha

/-- Where a cut has nothing pinned behind it. -/
theorem filter_append_unpinned {α : Type*} {pinned : α → Bool} (old : List α) {new : List α}
    (hnew : ∀ a ∈ new, pinned a = false) :
    (old ++ new).filter pinned = old.filter pinned ∧
      ((old ++ new).filter fun a => !pinned a).reverse =
        new.reverse ++ (old.filter fun a => !pinned a).reverse := by
  have hnone : new.filter pinned = [] :=
    List.filter_eq_nil_iff.mpr fun a ha => by simp [hnew a ha]
  have hall : (new.filter fun a => !pinned a) = new :=
    List.filter_eq_self.mpr fun a ha => by simp [hnew a ha]
  constructor
  · rw [List.filter_append, hnone, List.append_nil]
  · rw [List.filter_append, hall, List.reverse_append]

/-- The fragments returned are some of those given, in their order, with all that are pinned, and
no other is dropped while an older one is kept, exactly if nothing had to be dropped or what is
taken reads the same backwards and has nothing pinned in it. -/
theorem compact_ordered_iff (ctx : Context) (budget : ContextBudget) :
    (∃ chosen, (compact ctx budget).fragments = select chosen ctx.fragments ∧
        KeepsRecent isPinned ctx.fragments chosen) ↔
      ContextBudget.estimateTokens ctx ≤ budget.maxTokens ∨
        ReadsBackwards budget ctx.fragments := by
  rw [exists_keepsRecent_iff]
  rcases le_or_gt (ContextBudget.estimateTokens ctx) budget.maxTokens with hle | hlt
  · rw [compact_of_le hle]
    exact iff_of_true ⟨[], ctx.fragments, rfl, rfl⟩ (Or.inl hle)
  rw [compact_of_lt hlt, or_iff_right (not_le.mpr hlt)]
  constructor
  · rintro ⟨old, new, hfragments, hresult⟩
    obtain ⟨old', new', hcut, hpinned, hhead⟩ := exists_cut isPinned old new
    rw [hcut] at hfragments
    rw [hpinned, hfragments, List.filter_append, List.append_assoc,
      List.append_cancel_left_eq] at hresult
    have hnil := filter_eq_nil_of_append hhead hresult
    have hnew : ∀ f ∈ new', isPinned f = false := by
      intro f hf
      have := List.filter_eq_nil_iff.mp hnil f hf
      simpa using this
    obtain ⟨-, hrest⟩ := filter_append_unpinned old' hnew
    rw [hnil, List.append_nil, List.nil_append, hrest] at hresult
    -- what is taken from the newest on is, up to the order, what was cut off
    have hperm : (taken (fits budget) (old'.filter isPinned)
        (new'.reverse ++ (old'.filter fun f => !isPinned f).reverse)).Perm new'.reverse := by
      rw [hresult]
      exact (List.reverse_perm new').symm
    obtain ⟨hturn, hold⟩ := (taken_perm_iff fits_of_fits_append).mp hperm
    have hreverse : new'.reverse = new' := by
      rw [taken_append, (taken_eq_self_iff (fits budget)).mpr hturn,
        (taken_eq_nil_iff (fits budget)).mpr hold, List.append_nil] at hresult
      exact hresult
    refine ⟨old', new', hfragments, hnew, hreverse, hturn, ?_⟩
    intro f hf hother
    rw [← hreverse]
    exact hold f (by simp [hf, hother])
  · rintro ⟨old, new, hfragments, hnew, hreverse, hturn, hold⟩
    obtain ⟨hpinned, hrest⟩ := filter_append_unpinned old hnew
    refine ⟨old, new, hfragments, ?_⟩
    rw [hfragments, hpinned, hrest, taken_append, (taken_eq_self_iff (fits budget)).mpr hturn,
      hreverse, (taken_eq_nil_iff (fits budget)).mpr, List.append_nil]
    intro f hf
    obtain ⟨hf, hother⟩ := List.mem_filter.mp (List.mem_reverse.mp hf)
    exact hold f hf (by simpa using hother)

/-- Over a budget of two tokens, the last two fragments stay, the newer one first. -/
def twoResults : Context := ⟨[⟨"history", "aaaaaaaa"⟩, ⟨"system", ""⟩, ⟨"history", "bbbb"⟩,
  ⟨"tool_result", "cccc"⟩]⟩

theorem compact_twoResults :
    ¬∃ chosen, (compact twoResults ⟨2⟩).fragments = select chosen twoResults.fragments ∧
      KeepsRecent isPinned twoResults.fragments chosen := by
  rintro ⟨chosen, hselect, -⟩
  have hsub := select_sublist chosen twoResults.fragments
  rw [← hselect] at hsub
  revert hsub
  decide

/-! ## The budget -/

/-- A walk over the sizes from the newest on, from so many bytes: where a size passes the test, it
carries no further token over from the remainders, or there is still one to spare. -/
def SparesCarry (maxTokens : ℕ) : ℕ → List Fragment → Prop
  | _, [] => True
  | bytes, f :: tail =>
    let n := f.body.utf8ByteSize
    if bytes / 4 + n / 4 ≤ maxTokens then
      (bytes % 4 + n % 4 < 4 ∨ bytes / 4 + n / 4 < maxTokens) ∧
        SparesCarry maxTokens (bytes + n) tail
    else SparesCarry maxTokens bytes tail

theorem le_bodyBytes_taken (budget : ContextBudget) (tail compacted : List Fragment) :
    bodyBytes compacted ≤ bodyBytes (compacted ++ taken (fits budget) compacted tail) := by
  rw [bodyBytes_append]
  exact Nat.le_add_right _ _

theorem fits_iff {budget : ContextBudget} {compacted : List Fragment} {f : Fragment} :
    fits budget compacted f = true ↔
      bodyBytes compacted / 4 + f.body.utf8ByteSize / 4 ≤ budget.maxTokens := by
  rw [fits, decide_eq_true_eq, estimateTokens_eq]

theorem taken_within_iff {budget : ContextBudget} {tail compacted : List Fragment}
    (h : bodyBytes compacted / 4 ≤ budget.maxTokens) :
    bodyBytes (compacted ++ taken (fits budget) compacted tail) / 4 ≤ budget.maxTokens ↔
      SparesCarry budget.maxTokens (bodyBytes compacted) tail := by
  induction tail generalizing compacted with
  | nil => simpa [taken, SparesCarry] using h
  | cons f tail ih =>
    rw [taken, SparesCarry]
    by_cases hf : fits budget compacted f = true
    · have htest := fits_iff.mp hf
      have hbytes : bodyBytes (compacted ++ [f]) = bodyBytes compacted + f.body.utf8ByteSize := by
        rw [bodyBytes_append, bodyBytes_singleton]
      rw [if_pos hf, if_pos htest, List.append_cons, ← hbytes]
      by_cases hcarry : bodyBytes (compacted ++ [f]) / 4 ≤ budget.maxTokens
      · rw [ih hcarry]
        refine (and_iff_right ?_).symm
        omega
      · -- once over the budget, always over it
        have hmono := le_bodyBytes_taken budget tail (compacted ++ [f])
        refine iff_of_false ?_ (fun hspare => hcarry ?_)
        · omega
        · have := hspare.1
          omega
    · rw [if_neg hf, if_neg (mt fits_iff.mpr hf)]
      exact ih h

/-- A context whose pinned fragments are within the budget is compacted to one within the budget
exactly if it was within it before or no fragment is added again that carries over it. -/
theorem compact_within_iff (ctx : Context) (budget : ContextBudget)
    (hpinned : ContextBudget.estimateTokens ⟨ctx.fragments.filter isPinned⟩ ≤ budget.maxTokens) :
    ContextBudget.estimateTokens (compact ctx budget) ≤ budget.maxTokens ↔
      ContextBudget.estimateTokens ctx ≤ budget.maxTokens ∨
        SparesCarry budget.maxTokens (bodyBytes (ctx.fragments.filter isPinned))
          (ctx.fragments.filter fun f => !isPinned f).reverse := by
  rcases le_or_gt (ContextBudget.estimateTokens ctx) budget.maxTokens with hle | hlt
  · rw [compact_of_le hle]
    exact iff_of_true hle (Or.inl hle)
  · rw [or_iff_right (not_le.mpr hlt), ← taken_within_iff hpinned, ← compact_of_lt hlt]
    rfl

def threeAndOne : Context := ⟨[⟨"system", "abc"⟩, ⟨"history", "d"⟩]⟩

theorem compact_within_iff_threeAndOne :
    ContextBudget.estimateTokens ⟨threeAndOne.fragments.filter isPinned⟩ ≤ 0 ∧
      (ContextBudget.estimateTokens (compact threeAndOne ⟨0⟩) ≤ 0 ↔
        ContextBudget.estimateTokens threeAndOne ≤ 0 ∨
          SparesCarry 0 (bodyBytes (threeAndOne.fragments.filter isPinned))
            (threeAndOne.fragments.filter fun f => !isPinned f).reverse) :=
  have hpinned : ContextBudget.estimateTokens ⟨threeAndOne.fragments.filter isPinned⟩ ≤ 0 := by
    decide
  ⟨hpinned, compact_within_iff threeAndOne ⟨0⟩ hpinned⟩

theorem compact_threeAndOne :
    ContextBudget.estimateTokens ⟨threeAndOne.fragments.filter isPinned⟩ ≤ 0 ∧
      ¬ContextBudget.estimateTokens (compact threeAndOne ⟨0⟩) ≤ 0 := by
  decide

/-- The rounding costs one token at most. -/
theorem compact_le_succ {ctx : Context} {budget : ContextBudget}
    (hpinned : ContextBudget.estimateTokens ⟨ctx.fragments.filter isPinned⟩ ≤ budget.maxTokens) :
    ContextBudget.estimateTokens (compact ctx budget) ≤ budget.maxTokens + 1 := by
  have htaken : ∀ tail compacted, bodyBytes compacted / 4 ≤ budget.maxTokens + 1 →
      bodyBytes (compacted ++ taken (fits budget) compacted tail) / 4 ≤ budget.maxTokens + 1 := by
    intro tail
    induction tail with
    | nil => simp [taken]
    | cons f tail ih =>
      intro compacted h
      rw [taken]
      split_ifs with hf
      · rw [List.append_cons]
        apply ih
        have := fits_iff.mp hf
        rw [bodyBytes_append, bodyBytes_singleton]
        omega
      · exact ih compacted h
  rcases le_or_gt (ContextBudget.estimateTokens ctx) budget.maxTokens with hle | hlt
  · rw [compact_of_le hle]
    exact hle.trans (Nat.le_succ _)
  · have := htaken (ctx.fragments.filter fun f => !isPinned f).reverse _
      (hpinned.trans (Nat.le_succ _))
    rwa [← compact_of_lt hlt] at this

end TruncationCompactor

end Pan
