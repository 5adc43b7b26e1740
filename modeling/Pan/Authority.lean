import Pan.Agents

namespace Pan

/-! ## Ids and their descendants -/

/-- The capability is the granted one or a dotted descendant of it. -/
def Covers (pre capability : String) : Prop :=
  capability = pre ∨ ∃ rest, capability = pre ++ "." ++ rest

theorem Covers.refl (capability : String) : Covers capability capability := Or.inl rfl

theorem Covers.trans {a b c : String} (hab : Covers a b) (hbc : Covers b c) : Covers a c := by
  rcases hab with rfl | ⟨r, rfl⟩
  · exact hbc
  · rcases hbc with rfl | ⟨r', rfl⟩
    · exact Or.inr ⟨r, rfl⟩
    · exact Or.inr ⟨r ++ "." ++ r', by simp only [String.append_assoc]⟩

theorem prefixMatches_iff {pre capability : String} :
    prefixMatches pre capability = true ↔ Covers pre capability := by
  unfold prefixMatches Covers
  rw [Bool.or_eq_true, decide_eq_true_eq, Option.any_eq_true]
  refine or_congr Iff.rfl ⟨?_, ?_⟩
  · rintro ⟨r, hr, hdot⟩
    obtain ⟨rest, hrest⟩ := List.head?_eq_some_iff.mp (of_decide_eq_true hdot)
    refine ⟨String.ofList rest, ?_⟩
    rw [Text.stripPrefix_eq_some.mp hr, ← String.toList_inj]
    simp [hrest]
  · rintro ⟨rest, rfl⟩
    refine ⟨"." ++ rest, ?_, by simp⟩
    rw [String.append_assoc, Text.stripPrefix_append]

theorem ScopedGovernor.allows_iff_verdict {W : Type} {grants : Grants} {scope : Scope}
    {capability : String} {args : Value} {w : W} :
    (ScopedGovernor W grants).Allows scope capability args w ↔
      ScopedGovernor.verdict grants scope.origin capability = .allow := by
  constructor
  · rintro ⟨w', h⟩
    exact congrArg Prod.fst (Option.some.inj h)
  · intro h
    exact ⟨w, congrArg (fun v => some (v, w)) h⟩

theorem ScopedGovernor.allows_iff {W : Type} {grants : Grants} {scope : Scope}
    {capability : String} {args : Value} {w : W} :
    (ScopedGovernor W grants).Allows scope capability args w ↔
      ∃ prefixes, SortedMap.get scope.origin grants = some prefixes ∧
        ∃ pre ∈ prefixes, Covers pre capability := by
  rw [allows_iff_verdict, verdict_eq_allow]
  simp only [prefixMatches_iff]

/-! ## One grant after another -/

def Grants.ofCalls (calls : List (String × List String)) : Grants :=
  calls.foldl (fun grants call => grants.grant call.1 call.2) []

/-- Some call for the origin lists a prefix that covers the capability. -/
def Listed (calls : List (String × List String)) (origin capability : String) : Prop :=
  ∃ call ∈ calls, call.1 = origin ∧ ∃ pre ∈ call.2, Covers pre capability

structure GrantsAccumulate (calls : List (String × List String)) : Prop where
  allows_iff : ∀ (W : Type) scope capability args (w : W),
    (ScopedGovernor W (Grants.ofCalls calls)).Allows scope capability args w ↔
      Listed calls scope.origin capability
  /-- What some of the calls have granted is not taken away by those after them. -/
  monotone : ∀ earlier later, calls = earlier ++ later →
    ∀ (W : Type) scope capability args (w : W),
      (ScopedGovernor W (Grants.ofCalls earlier)).Allows scope capability args w →
        (ScopedGovernor W (Grants.ofCalls calls)).Allows scope capability args w
  unordered : ∀ calls' : List (String × List String), calls'.Perm calls →
    ∀ (W : Type) scope capability args (w : W),
      (ScopedGovernor W (Grants.ofCalls calls')).govern scope capability args w =
        (ScopedGovernor W (Grants.ofCalls calls)).govern scope capability args w

/-- Any two calls for one origin grant the same. -/
def Agreeing (calls : List (String × List String)) : Prop :=
  ∀ call ∈ calls, ∀ call' ∈ calls, call.1 = call'.1 →
    ∀ pre ∈ call.2, ∃ pre' ∈ call'.2, Covers pre' pre

section Calls

variable {calls : List (String × List String)}

theorem get_ofCalls (origin : String) :
    SortedMap.get origin (Grants.ofCalls calls) = SortedMap.last origin calls :=
  SortedMap.get_ofList origin calls

/-- The last call for an origin decides. -/
theorem allows_ofCalls {W : Type} {scope : Scope} {capability : String} {args : Value} {w : W} :
    (ScopedGovernor W (Grants.ofCalls calls)).Allows scope capability args w ↔
      ∃ prefixes, SortedMap.last scope.origin calls = some prefixes ∧
        ∃ pre ∈ prefixes, Covers pre capability := by
  rw [ScopedGovernor.allows_iff, get_ofCalls]

theorem listed_of_last {origin capability : String} {prefixes : List String}
    (hlast : SortedMap.last origin calls = some prefixes)
    (h : ∃ pre ∈ prefixes, Covers pre capability) : Listed calls origin capability :=
  ⟨(origin, prefixes), SortedMap.mem_of_last hlast, rfl, h⟩

theorem Agreeing.allows_iff (h : Agreeing calls) {W : Type} {scope : Scope} {capability : String}
    {args : Value} {w : W} :
    (ScopedGovernor W (Grants.ofCalls calls)).Allows scope capability args w ↔
      Listed calls scope.origin capability := by
  rw [allows_ofCalls]
  constructor
  · rintro ⟨prefixes, hlast, hcovers⟩
    exact listed_of_last hlast hcovers
  · rintro ⟨call, hcall, horigin, pre, hpre, hcovers⟩
    have hsome : (SortedMap.last scope.origin calls).isSome :=
      SortedMap.isSome_last.mpr (horigin ▸ List.mem_map_of_mem hcall)
    obtain ⟨prefixes, hlast⟩ := Option.isSome_iff_exists.mp hsome
    obtain ⟨pre', hpre', hcovers'⟩ :=
      h call hcall (scope.origin, prefixes) (SortedMap.mem_of_last hlast) horigin pre hpre
    exact ⟨prefixes, hlast, pre', hpre', hcovers'.trans hcovers⟩

theorem Agreeing.mono {calls' : List (String × List String)} (h : Agreeing calls)
    (hsub : calls' ⊆ calls) : Agreeing calls' :=
  fun call hcall call' hcall' => h call (hsub hcall) call' (hsub hcall')

theorem Listed.mono {calls' : List (String × List String)} {origin capability : String}
    (h : Listed calls origin capability) (hsub : calls ⊆ calls') :
    Listed calls' origin capability :=
  h.imp fun _ hcall => ⟨hsub hcall.1, hcall.2⟩

/-- The verdict is known from what is allowed and from which origins have grants at all. -/
theorem verdict_congr {grants grants' : Grants} {origin capability : String}
    (hallow : ScopedGovernor.verdict grants origin capability = .allow ↔
      ScopedGovernor.verdict grants' origin capability = .allow)
    (hsome : (SortedMap.get origin grants).isSome = (SortedMap.get origin grants').isSome) :
    ScopedGovernor.verdict grants origin capability =
      ScopedGovernor.verdict grants' origin capability := by
  unfold ScopedGovernor.verdict at hallow ⊢
  cases hget : SortedMap.get origin grants with
  | none =>
    cases hget' : SortedMap.get origin grants' with
    | none => rfl
    | some prefixes' => simp [hget, hget'] at hsome
  | some prefixes =>
    cases hget' : SortedMap.get origin grants' with
    | none => simp [hget, hget'] at hsome
    | some prefixes' =>
      rw [hget, hget'] at hallow
      dsimp only at hallow ⊢
      split_ifs at hallow ⊢ <;> simp_all

theorem Agreeing.accumulate (h : Agreeing calls) : GrantsAccumulate calls where
  allows_iff _ _ _ _ _ := h.allows_iff
  monotone earlier later hcalls W scope capability args w hearlier := by
    have hsub : earlier ⊆ calls := hcalls ▸ List.subset_append_left earlier later
    exact h.allows_iff.mpr (((h.mono hsub).allows_iff.mp hearlier).mono hsub)
  unordered calls' hperm W scope capability args w := by
    have hcalls' := h.mono hperm.subset
    have hverdict : ∀ grants, ScopedGovernor.verdict grants scope.origin capability = .allow ↔
        (ScopedGovernor W grants).Allows scope capability args w :=
      fun _ => ScopedGovernor.allows_iff_verdict.symm
    refine congrArg (fun v => some (v, w)) (verdict_congr ?_ ?_)
    · rw [hverdict, hverdict, hcalls'.allows_iff, h.allows_iff]
      exact ⟨fun hl => hl.mono hperm.subset, fun hl => hl.mono hperm.symm.subset⟩
    · rw [Bool.eq_iff_iff, get_ofCalls, get_ofCalls, SortedMap.isSome_last, SortedMap.isSome_last]
      exact (hperm.map Prod.fst).mem_iff

end Calls

/-- The grants of a sequence of calls add up exactly if any two calls for one origin grant the
same. -/
theorem grants_accumulate_iff (calls : List (String × List String)) :
    GrantsAccumulate calls ↔ Agreeing calls := by
  refine ⟨fun h => ?_, Agreeing.accumulate⟩
  intro call hcall call' hcall' horigin pre hpre
  -- with `call'` at the end, what `call` lists is allowed by `call'` alone
  have hperm : (calls.erase call' ++ [call']).Perm calls :=
    (List.perm_append_singleton _ _).trans (List.perm_cons_erase hcall').symm
  have hallow : (ScopedGovernor Unit (Grants.ofCalls calls)).Allows ⟨call'.1⟩ pre .null () :=
    (h.allows_iff Unit ⟨call'.1⟩ pre .null ()).mpr ⟨call, hcall, horigin, pre, hpre, .refl pre⟩
  unfold Governor.Allows at hallow
  rw [← h.unordered _ hperm] at hallow
  obtain ⟨prefixes, hlast, hcovers⟩ := allows_ofCalls.mp hallow
  have hsame : SortedMap.last call'.1 (calls.erase call' ++ [call']) = some call'.2 := by
    simp [SortedMap.last]
  obtain rfl : prefixes = call'.2 := Option.some.inj (hlast.symm.trans hsame)
  exact hcovers

theorem second_grant_replaces_first :
    Listed [("persona.clerk", ["cap.fs"]), ("persona.clerk", ["cap.http"])] "persona.clerk"
      "cap.fs.read" ∧
    ((ScopedGovernor Unit (Grants.ofCalls [("persona.clerk", ["cap.fs"])])).govern
      ⟨"persona.clerk"⟩ "cap.fs.read" .null ()).map Prod.fst = some .allow ∧
    ((ScopedGovernor Unit (Grants.ofCalls
      [("persona.clerk", ["cap.fs"]), ("persona.clerk", ["cap.http"])])).govern
      ⟨"persona.clerk"⟩ "cap.fs.read" .null ()).map Prod.fst =
        some (.deny "origin `persona.clerk` is not granted capability `cap.fs.read`") ∧
    ¬GrantsAccumulate [("persona.clerk", ["cap.fs"]), ("persona.clerk", ["cap.http"])] := by
  have hlisted : Listed [("persona.clerk", ["cap.fs"]), ("persona.clerk", ["cap.http"])]
      "persona.clerk" "cap.fs.read" :=
    ⟨("persona.clerk", ["cap.fs"]), by simp, rfl, "cap.fs", by simp, Or.inr ⟨"read", rfl⟩⟩
  have hdeny : ((ScopedGovernor Unit (Grants.ofCalls
      [("persona.clerk", ["cap.fs"]), ("persona.clerk", ["cap.http"])])).govern
      ⟨"persona.clerk"⟩ "cap.fs.read" .null ()).map Prod.fst =
        some (.deny "origin `persona.clerk` is not granted capability `cap.fs.read`") := by decide
  refine ⟨hlisted, by decide, hdeny, fun h => ?_⟩
  obtain ⟨w', hallow⟩ := (h.allows_iff Unit ⟨"persona.clerk"⟩ "cap.fs.read" .null ()).mpr hlisted
  rw [hallow] at hdeny
  cases hdeny

/-! ## Manifests -/

theorem AgentManifest.mem_grantedPrefixes {m : AgentManifest} {pre : String} :
    pre ∈ m.grantedPrefixes ↔ ∃ family, (family, true) ∈ m.caps.grant ∧ pre = s!"cap.{family}" := by
  simp only [grantedPrefixes, List.mem_map, List.mem_filter]
  constructor
  · rintro ⟨⟨family, on⟩, ⟨hmem, hon⟩, rfl⟩
    obtain rfl : on = true := hon
    exact ⟨family, hmem, rfl⟩
  · rintro ⟨family, hmem, rfl⟩
    exact ⟨(family, true), ⟨hmem, rfl⟩, rfl⟩

/-- Under its own scope an agent is allowed what its manifest switches on, and nothing else is
allowed to anybody. -/
theorem manifest_authority_exact {W : Type} {m : AgentManifest} {r : ComponentRegistry W}
    {global : Option Config} {agent : AssembledAgent W}
    (h : assemble m r = .ok agent ∨ assembleWithConfig m r global = .ok agent)
    (capability : String) (args : Value) (w : W) :
    ((ScopedGovernor W agent.grants).Allows agent.scope capability args w ↔
      ∃ family, (family, true) ∈ m.caps.grant ∧ Covers s!"cap.{family}" capability) ∧
    ∀ origin ≠ agent.scope.origin, ∃ reason,
      (ScopedGovernor W agent.grants).govern ⟨origin⟩ capability args w =
        some (.deny reason, w) := by
  obtain ⟨hscope, hgrants⟩ := h.elim (fun h => (assemble_eq_ok h).2) assembleWithConfig_eq_ok
  rw [hscope, hgrants]
  constructor
  · rw [ScopedGovernor.allows_iff, AgentManifest.get_grants, if_pos rfl]
    constructor
    · rintro ⟨prefixes, hprefixes, pre, hpre, hcovers⟩
      obtain rfl := Option.some.inj hprefixes
      obtain ⟨family, hfamily, rfl⟩ := AgentManifest.mem_grantedPrefixes.mp hpre
      exact ⟨family, hfamily, hcovers⟩
    · rintro ⟨family, hfamily, hcovers⟩
      exact ⟨_, rfl, _, AgentManifest.mem_grantedPrefixes.mpr ⟨family, hfamily, rfl⟩, hcovers⟩
  · intro origin horigin
    have hnone : SortedMap.get origin m.grants = none := by
      rw [AgentManifest.get_grants, if_neg horigin]
    have hdeny : ScopedGovernor.verdict m.grants origin capability =
        .deny s!"origin `{origin}` has no capability grants" := by
      unfold ScopedGovernor.verdict
      rw [hnone]
    exact ⟨_, congrArg (fun v => some (v, w)) hdeny⟩

def clerkManifest : AgentManifest where
  metaInfo := ⟨"clerk", none⟩
  persona := ⟨"", "provider.scripted", none, []⟩
  caps := ⟨[("fs", true), ("http", false)], [], []⟩

def scriptedRegistry : ComponentRegistry Unit where
  providers := [("provider.scripted", fun _ => .ok (ScriptedProvider Unit ⟨[]⟩))]
  capabilityProviders := []
  contextAssemblers := []

theorem manifest_authority_exact_clerk :
    ∃ agent, assemble clerkManifest scriptedRegistry = .ok agent ∧
      (ScopedGovernor Unit agent.grants).Allows agent.scope "cap.fs.read" .null () ∧
      ∃ reason, (ScopedGovernor Unit agent.grants).govern ⟨"persona.root"⟩ "cap.fs.read" .null () =
        some (.deny reason, ()) := by
  obtain ⟨agent, hagent⟩ : ∃ agent, assemble clerkManifest scriptedRegistry = .ok agent :=
    ⟨_, rfl⟩
  have hassembled : assemble clerkManifest scriptedRegistry = .ok agent ∨
      assembleWithConfig clerkManifest scriptedRegistry none = .ok agent := .inl hagent
  obtain ⟨hown, hothers⟩ := manifest_authority_exact hassembled "cap.fs.read" .null ()
  have hroot : "persona.root" ≠ agent.scope.origin := by
    rw [(assemble_eq_ok hagent).2.1]
    decide
  exact ⟨agent, hagent, hown.mpr ⟨"fs", by simp [clerkManifest], Or.inr ⟨"read", rfl⟩⟩,
    hothers "persona.root" hroot⟩

/-! ## Governors around governors -/

section Composition

variable {W : Type}

/-- `h` is built around `g` by path rules, host allowlists and chains. -/
inductive Around (g : Governor W) : Governor W → Prop
  | self : Around g g
  | path {h : Governor W} (rules : List PathRule) : Around g h → Around g (PathGovernor h rules)
  | hosts {h : Governor W} (allowHosts : HostGrants) : Around g h →
      Around g (HostAllowlistGovernor h allowHosts)
  | chain {h : Governor W} {governors : List (Governor W)} : h ∈ governors → Around g h →
      Around g (PolicyChain governors)

variable (scope : Scope) (capability : String) (args : Value)

/-- Asked one after the other, all of the governors allow. -/
inductive AllowInTurn : List (Governor W) → W → W → Prop
  | nil (w : W) : AllowInTurn [] w w
  | cons {g : Governor W} {governors : List (Governor W)} {w w₁ w₂ : W} :
      g.govern scope capability args w = some (.allow, w₁) → AllowInTurn governors w₁ w₂ →
      AllowInTurn (g :: governors) w w₂

/-- Asked in `w`, the governor `h` asks `g` in `w'`, if it gets as far as that. -/
inductive Asks (g : Governor W) (w' : W) : Governor W → W → Prop
  | self : Asks g w' g w'
  | path {h : Governor W} {w : W} (rules : List PathRule) : Asks g w' h w →
      Asks g w' (PathGovernor h rules) w
  | hosts {h : Governor W} {w : W} (allowHosts : HostGrants) : Asks g w' h w →
      Asks g w' (HostAllowlistGovernor h allowHosts) w
  | chain {h : Governor W} {before after : List (Governor W)} {w w₁ : W} :
      AllowInTurn scope capability args before w w₁ → Asks g w' h w₁ →
      Asks g w' (PolicyChain (before ++ h :: after)) w

variable {scope capability args}

theorem PathGovernor.allows_inner {h : Governor W} {rules : List PathRule} {w : W}
    (hallow : (PathGovernor h rules).Allows scope capability args w) :
    h.Allows scope capability args w := by
  obtain ⟨w', hallow⟩ := hallow
  unfold PathGovernor at hallow
  dsimp only at hallow
  split at hallow
  · cases hallow
  · exact ⟨w', hallow⟩

theorem HostAllowlistGovernor.allows_inner {h : Governor W} {allowHosts : HostGrants} {w : W}
    (hallow : (HostAllowlistGovernor h allowHosts).Allows scope capability args w) :
    h.Allows scope capability args w := by
  obtain ⟨w', hallow⟩ := hallow
  unfold HostAllowlistGovernor at hallow
  dsimp only at hallow
  split at hallow
  · rename_i w₁ hinner
    exact ⟨w₁, hinner⟩
  · exact ⟨w', hallow⟩

/-- What a chain answers: the first of its governors that does not allow, or else it allows. -/
def PolicyChain.FirstRefusal (scope : Scope) (capability : String) (args : Value)
    (governors : List (Governor W)) (w : W) : Prop :=
  (∃ w', AllowInTurn scope capability args governors w w' ∧
    (PolicyChain governors).govern scope capability args w = some (.allow, w')) ∨
  ∃ before g after w₁, governors = before ++ g :: after ∧
    AllowInTurn scope capability args before w w₁ ∧ ¬g.Allows scope capability args w₁ ∧
    (PolicyChain governors).govern scope capability args w = g.govern scope capability args w₁

theorem PolicyChain.govern_cons {g : Governor W} (governors : List (Governor W)) {w w₁ : W}
    (hg : g.govern scope capability args w = some (.allow, w₁)) :
    (PolicyChain (g :: governors)).govern scope capability args w =
      (PolicyChain governors).govern scope capability args w₁ := by
  change PolicyChain.govern scope capability args (g :: governors) w = _
  rw [PolicyChain.govern, hg]
  rfl

variable (scope capability args) in
theorem PolicyChain.firstRefusal (governors : List (Governor W)) (w : W) :
    FirstRefusal scope capability args governors w := by
  induction governors generalizing w with
  | nil => exact Or.inl ⟨w, .nil w, rfl⟩
  | cons g governors ih =>
    by_cases hallow : g.Allows scope capability args w
    · obtain ⟨w₁, hg⟩ := hallow
      have hrest := PolicyChain.govern_cons governors hg
      rcases ih w₁ with ⟨w', hturn, hchain⟩ | ⟨before, g', after, w₂, rfl, hturn, hnot, hchain⟩
      · exact Or.inl ⟨w', .cons hg hturn, hrest.trans hchain⟩
      · exact Or.inr ⟨g :: before, g', after, w₂, rfl, .cons hg hturn, hnot, hrest.trans hchain⟩
    · refine Or.inr ⟨[], g, governors, w, rfl, .nil w, hallow, ?_⟩
      change PolicyChain.govern scope capability args (g :: governors) w = _
      rw [PolicyChain.govern]
      split
      · rename_i w₁ hg
        exact absurd ⟨w₁, hg⟩ hallow
      · rfl

theorem AllowInTurn.exists_of_append {before after : List (Governor W)} {g : Governor W}
    {w w' : W} (h : AllowInTurn scope capability args (before ++ g :: after) w w') :
    ∃ w₁, AllowInTurn scope capability args before w w₁ ∧ g.Allows scope capability args w₁ := by
  induction before generalizing w with
  | nil =>
    cases h with
    | cons hg _ => exact ⟨w, .nil w, _, hg⟩
  | cons g' before ih =>
    cases h with
    | cons hg' hrest =>
      obtain ⟨w₁, hturn, hallow⟩ := ih hrest
      exact ⟨w₁, .cons hg' hturn, hallow⟩

/-- A chain that allows has asked every governor in it, and each has allowed. -/
theorem PolicyChain.allows_members {governors : List (Governor W)} {w : W}
    (hallow : (PolicyChain governors).Allows scope capability args w) :
    ∃ w', AllowInTurn scope capability args governors w w' := by
  rcases PolicyChain.firstRefusal scope capability args governors w with
    ⟨w', hturn, -⟩ | ⟨before, g, after, w₁, rfl, hturn, hnot, hchain⟩
  · exact ⟨w', hturn⟩
  · obtain ⟨w', hw'⟩ := hallow
    exact absurd ⟨w', hchain.symm.trans hw'⟩ hnot

theorem Around.allows {g h : Governor W} (haround : Around g h) {w : W}
    (hallow : h.Allows scope capability args w) :
    ∃ w', Asks scope capability args g w' h w ∧ g.Allows scope capability args w' := by
  induction haround generalizing w with
  | self => exact ⟨w, .self, hallow⟩
  | path rules _ ih =>
    obtain ⟨w', hasks, hg⟩ := ih (PathGovernor.allows_inner hallow)
    exact ⟨w', .path rules hasks, hg⟩
  | hosts allowHosts _ ih =>
    obtain ⟨w', hasks, hg⟩ := ih (HostAllowlistGovernor.allows_inner hallow)
    exact ⟨w', .hosts allowHosts hasks, hg⟩
  | chain hmem _ ih =>
    obtain ⟨before, after, rfl⟩ := List.append_of_mem hmem
    obtain ⟨w₂, hturn⟩ := PolicyChain.allows_members hallow
    obtain ⟨w₁, hbefore, hmember⟩ := hturn.exists_of_append
    obtain ⟨w', hasks, hg⟩ := ih hmember
    exact ⟨w', .chain hbefore hasks, hg⟩

end Composition

/-- A chain answers as the first of its governors that does not allow, and what a governor allows
has been allowed by every governor that it is built around, in the world in which it was asked. -/
theorem policy_composition_monotone {W : Type} (scope : Scope) (capability : String)
    (args : Value) :
    (∀ (governors : List (Governor W)) w,
      PolicyChain.FirstRefusal scope capability args governors w) ∧
    ∀ (g h : Governor W), Around g h → ∀ w, h.Allows scope capability args w →
      ∃ w', Asks scope capability args g w' h w ∧ g.Allows scope capability args w' :=
  ⟨PolicyChain.firstRefusal scope capability args,
    fun _ _ haround _ hallow => haround.allows hallow⟩

theorem policy_composition_monotone_allow_rule :
    ¬(PolicyChain [AllowAll Unit, PathGovernor (ScopedGovernor Unit [])
      [⟨"cap.fs", "**", true⟩]]).Allows ⟨"persona.clerk"⟩ "cap.fs.read" .null () := by
  intro hallow
  have haround : Around (ScopedGovernor Unit []) (PolicyChain [AllowAll Unit,
      PathGovernor (ScopedGovernor Unit []) [⟨"cap.fs", "**", true⟩]]) :=
    .chain (List.mem_cons_of_mem _ (List.mem_singleton_self _)) (.path _ .self)
  obtain ⟨w', -, w'', hscoped⟩ := (policy_composition_monotone ⟨"persona.clerk"⟩ "cap.fs.read"
    .null).2 _ _ haround () hallow
  cases hscoped

end Pan
