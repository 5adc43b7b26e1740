import Pan.Delegation
import Pan.Routing

namespace Pan

open Eff

/-! ## What a delegation starts -/

namespace AgentCaps

variable {W : Type} {A : AgentCaps W}

/-- The child that a request of the origin starts, with the origin and the goal it is run for. -/
def spawn (A : AgentCaps W) (origin : String) (args : Value) :
    Eff Action W (Except ExecError (AssembledAgent W × String × Goal)) :=
  match delegateArgs args with
  | .error e => return .error e
  | .ok (agent, objective) =>
    if maxDelegationDepth < delegationDepth origin then
      return .error
        ⟨s!"delegation depth {delegationDepth origin} exceeds max {maxDelegationDepth}"⟩
    else do
      match ← A.loadChild agent with
      | .error e => return .error ⟨e⟩
      | .ok child =>
        let nanos ← ask A.nanos
        return .ok (child, childOrigin origin agent, delegatedGoal nanos objective)

/-- A delegation is the span of the child that it starts. -/
theorem executeWithInvoker_eq_spawn (fuel : ℕ) (origin : String) (args : Value) :
    A.executeWithInvoker fuel origin args = (A.spawn origin args).andThen fun s => do
      let report ← s.1.run A.formats s.2.1 s.2.2 fuel
      return .ok (delegateResult A.formats report) := by
  funext w
  unfold executeWithInvoker spawn andThen
  cases delegateArgs args with
  | error e => rfl
  | ok p =>
    dsimp only
    split_ifs
    · rfl
    · simp only [bind_eq]
      rcases (A.loadChild p.1 w) with ⟨t, _ | ⟨_ | child, w'⟩⟩
      · rfl
      · simp
      · simp [bind_eq]

theorem spawn_eq_ok {origin origin' : String} {args : Value} {w w' : W} {child : AssembledAgent W}
    {goal : Goal} :
    (A.spawn origin args w).2 = some (.ok (child, origin', goal), w') ↔
      ∃ agent objective w₁, delegateArgs args = .ok (agent, objective) ∧
        delegationDepth origin ≤ maxDelegationDepth ∧
        (A.loadChild agent w).2 = some (.ok child, w₁) ∧ childOrigin origin agent = origin' ∧
        delegatedGoal (A.nanos w₁).1 objective = goal ∧ (A.nanos w₁).2 = w' := by
  unfold spawn
  cases hargs : delegateArgs args with
  | error e => simp
  | ok p =>
    obtain ⟨agent, objective⟩ := p
    dsimp only
    split_ifs with hdepth
    · have hdeep : ¬delegationDepth origin ≤ maxDelegationDepth := not_le.mpr hdepth
      simp [hdeep]
    · rw [bind_eq]
      rcases hload : (A.loadChild agent w).2 with _ | ⟨_ | child', w₁⟩
      · simp [hload]
      · simp [hload]
      · simp [hload, bind_eq, not_lt.mp hdepth]
        exact and_assoc.trans (and_congr_right fun _ => and_assoc)

end AgentCaps

/-! ## Nested spans -/

/-- A span of an agent: for which origin and over which goal it is run, and from where. -/
structure Span (W : Type) where
  agent : AssembledAgent W
  formats : Formats
  origin : String
  goal : Goal
  fuel : ℕ
  world : W

namespace Span

variable {W : Type}

def history (s : Span W) : List Action :=
  (s.agent.run s.formats s.origin s.goal s.fuel s.world).1

/-- In the span `s` a capability is called that a component for delegation provides, and the call
runs the span `s'`. -/
inductive Delegates (s s' : Span W) : Prop
  | intro (A : AgentCaps W) (capability : String) (args : Value) (w : W)
      (called : .executeWithInvoker capability args ∈ s.history)
      (owner : s.agent.toolbox.ownerOf capability = some (A.capabilityProvider s'.fuel))
      (formats : s'.formats = A.formats)
      (spawned : (A.spawn s.origin args w).2 =
        some (.ok (s'.agent, s'.origin, s'.goal), s'.world))

/-- A chain of `n` delegations leads from the root to a span. -/
inductive Nested (root : Span W) : ℕ → Span W → Prop
  | root : Nested root 0 root
  | delegates {n s s'} : Nested root n s → Delegates s s' → Nested root (n + 1) s'

/-- The executor of a span hands the origin of the span to a delegation, and what it returns is
what the child reports. -/
theorem executor_eq_run {s s' : Span W} {A : AgentCaps W} {capability : String} {args : Value}
    {w : W} (howner : s.agent.toolbox.ownerOf capability = some (A.capabilityProvider s'.fuel))
    (hformats : s'.formats = A.formats)
    (hspawn : (A.spawn s.origin args w).2 =
      some (.ok (s'.agent, s'.origin, s'.goal), s'.world)) :
    (s.agent.loop s.formats s.origin).pipeline.executor.executeWithInvoker capability args w =
      match (s'.agent.run s'.formats s'.origin s'.goal s'.fuel s'.world).2 with
      | some (report, w') => .returns (.ok (delegateResult s'.formats report)) w'
      | none => .hangs := by
  have hexecutor := congrFun (congrFun (Toolbox.execute_of_ownerOf howner s.origin).2 args) w
  refine hexecutor.trans ?_
  dsimp only [AgentCaps.capabilityProvider]
  rw [AgentCaps.executeWithInvoker_eq_spawn, andThen, bind_of_some hspawn, hformats]
  dsimp only
  rw [bind_eq]
  generalize s'.agent.run A.formats s'.origin s'.goal s'.fuel s'.world = r
  rcases r with ⟨t, _ | ⟨report, w'⟩⟩ <;> rfl

/-! ## The count in the text -/

/-- Whatever the name of the agent, one more delegation is counted for it. -/
theorem delegationDepth_lt_childOrigin (origin agent : String) :
    delegationDepth origin < delegationDepth (childOrigin origin agent) := by
  have htext : (childOrigin origin agent).toList =
      origin.toList ++ (".delegated.".toList ++ agent.toList) := by
    simp [childOrigin, ToString.toString]
  unfold delegationDepth
  rw [htext]
  exact Nat.succ_lt_succ (Text.countMatches_lt_append (by decide) _ _)

theorem Delegates.depth {s s' : Span W} (h : s.Delegates s') :
    delegationDepth s.origin ≤ maxDelegationDepth ∧
      delegationDepth s.origin < delegationDepth s'.origin := by
  obtain ⟨A, capability, args, w, -, -, -, hspawn⟩ := h
  obtain ⟨agent, -, -, -, hdepth, -, horigin, -⟩ := AgentCaps.spawn_eq_ok.mp hspawn
  rw [← horigin]
  exact ⟨hdepth, delegationDepth_lt_childOrigin s.origin agent⟩

/-- The count is never behind the number of delegations. -/
theorem Nested.lt_delegationDepth {root s : Span W} {n : ℕ} (h : Nested root n s) :
    n < delegationDepth s.origin := by
  induction h with
  | root => exact Nat.succ_pos _
  | delegates _ hstep ih => exact lt_of_le_of_lt ih hstep.depth.2

end Span

open Pan.Span

/-- No chain of delegations from any span, under any origin and with any names and manifests, is
longer than the maximum, and so none goes on forever. -/
theorem delegation_depth_bounded {W : Type} (root : Span W) :
    (∀ n s, Nested root n s → n ≤ maxDelegationDepth) ∧
      ¬∃ chain : ℕ → Span W, chain 0 = root ∧ ∀ n, (chain n).Delegates (chain (n + 1)) := by
  have hbound : ∀ n s, Nested root n s → n ≤ maxDelegationDepth := by
    intro n s h
    cases h with
    | root => exact Nat.zero_le _
    | delegates hnested hstep => exact le_trans hnested.lt_delegationDepth hstep.depth.1
  refine ⟨hbound, ?_⟩
  rintro ⟨chain, rfl, hchain⟩
  have hnested : ∀ n, Nested (chain 0) n (chain n) := by
    intro n
    induction n with
    | zero => exact .root
    | succ n ih => exact .delegates ih (hchain n)
  exact absurd (hbound _ _ (hnested (maxDelegationDepth + 1))) (by simp)

end Pan
