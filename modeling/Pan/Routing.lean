import Pan.Library.Machine
import Pan.Toolbox

namespace Pan

def CapabilityProvider.ids {W : Type} (provider : CapabilityProvider W) : List String :=
  provider.capabilities.map Capability.id

namespace Toolbox

variable {W : Type}

/-! ## In place -/

/-- The fields of a toolbox while `add` is at work. -/
structure Tables (W : Type) where
  providers : List (CapabilityProvider W)
  owner : List (String × ℕ)

def tables (t : Toolbox W) : Tables W := ⟨t.providers, t.owner⟩

/-- `add` as it is written, on the toolbox in place. -/
def Tables.add (provider : CapabilityProvider W) :
    ExceptT ConflictError (StateM (Tables W)) Unit := do
  let caps := provider.capabilities
  for cap in caps do
    if (SortedMap.get cap.id (← get).owner).isSome then
      throw ⟨cap.id⟩
  let idx := (← get).providers.length
  for cap in caps do
    modify fun t => { t with owner := SortedMap.insert cap.id idx t.owner }
  modify fun t => { t with providers := t.providers ++ [provider] }

theorem lookup_loop (caps : List Capability) (t : Tables W) :
    (forIn caps PUnit.unit fun cap _ => do
      if (SortedMap.get cap.id (← get).owner).isSome then
        throw ⟨cap.id⟩
      pure (.yield PUnit.unit) : ExceptT ConflictError (StateM (Tables W)) PUnit).run.run t =
    match caps.find? fun cap => (SortedMap.get cap.id t.owner).isSome with
    | some cap => (.error ⟨cap.id⟩, t)
    | none => (.ok PUnit.unit, t) := by
  induction caps with
  | nil => rfl
  | cons cap caps ih =>
    rw [List.forIn_cons, List.find?_cons]
    have hget : ∀ f : Tables W → ExceptT ConflictError (StateM (Tables W)) PUnit,
        (get >>= f).run.run t = (f t).run.run t := fun _ => rfl
    rw [bind_assoc, hget]
    cases h : (SortedMap.get cap.id t.owner).isSome with
    | true => rfl
    | false => exact ih

theorem claim_loop (caps : List Capability) (idx : ℕ) (t : Tables W) :
    (forIn caps PUnit.unit fun cap _ => do
      modify fun t => { t with owner := SortedMap.insert cap.id idx t.owner }
      pure (.yield PUnit.unit) : ExceptT ConflictError (StateM (Tables W)) PUnit).run.run t =
    (.ok PUnit.unit, { t with
      owner := (caps.map fun cap => (cap.id, idx)).foldl
        (fun m p => SortedMap.insert p.1 p.2 m) t.owner }) := by
  induction caps generalizing t with
  | nil => rfl
  | cons cap caps ih =>
    rw [List.forIn_cons]
    exact ih _

theorem run_bind {α β : Type} (x : ExceptT ConflictError (StateM (Tables W)) α)
    (f : α → ExceptT ConflictError (StateM (Tables W)) β) (t : Tables W) :
    (x >>= f).run.run t = match x.run.run t with
      | (.ok a, t') => (f a).run.run t'
      | (.error e, t') => (.error e, t') := by
  rw [ExceptT.run_bind, StateT.run_bind]
  rcases x.run.run t with ⟨e | a, t'⟩ <;> rfl

/-- Run in place, `add` leaves the toolbox with the component in it, or the toolbox as it was. -/
theorem add_run (t : Toolbox W) (provider : CapabilityProvider W) :
    (Tables.add provider).run.run t.tables = match t.add provider with
      | .ok t' => (.ok (), t'.tables)
      | .error e => (.error e, t.tables) := by
  have hlookup := lookup_loop provider.capabilities t.tables
  unfold Tables.add
  dsimp only
  rw [run_bind, hlookup]
  cases hfind : provider.capabilities.find? fun cap => (SortedMap.get cap.id t.owner).isSome with
  | some cap =>
    have hadd : t.add provider = .error ⟨cap.id⟩ := by
      unfold add
      rw [hfind]
    rw [hadd, show provider.capabilities.find? (fun cap =>
      (SortedMap.get cap.id t.tables.owner).isSome) = some cap from hfind]
  | none =>
    obtain ⟨t', hadd, ht'⟩ : ∃ t', t.add provider = .ok t' ∧
        t'.tables = ⟨t.providers ++ [provider], (claims provider t.providers.length).foldl
          (fun m p => SortedMap.insert p.1 p.2 m) t.owner⟩ := by
      unfold add
      rw [hfind]
      exact ⟨_, rfl, rfl⟩
    rw [hadd, show provider.capabilities.find? (fun cap =>
      (SortedMap.get cap.id t.tables.owner).isSome) = none from hfind]
    have hget : ∀ f : Tables W → ExceptT ConflictError (StateM (Tables W)) PUnit,
        (get >>= f).run.run t.tables = (f t.tables).run.run t.tables := fun _ => rfl
    dsimp only
    rw [hget, run_bind, claim_loop, ht']
    rfl

/-- A call of `add` on a toolbox, with what it returns and leaves behind. -/
def added (t : Toolbox W) (provider : CapabilityProvider W) :
    Except ConflictError Unit × Toolbox W :=
  let r := (Tables.add provider).run.run t.tables
  (r.1, {
    providers := r.2.providers
    owner := r.2.owner
    inRange := by
      dsimp only [r]
      rw [add_run]
      cases t.add provider with
      | ok t' => exact t'.inRange
      | error e => exact t.inRange })

theorem added_of_ok {t t' : Toolbox W} {provider : CapabilityProvider W}
    (h : t.add provider = .ok t') : t.added provider = (.ok (), t') := by
  have hrun := add_run t provider
  rw [h] at hrun
  unfold added
  simp only [hrun]
  rfl

theorem added_of_error {t : Toolbox W} {provider : CapabilityProvider W} {e : ConflictError}
    (h : t.add provider = .error e) : t.added provider = (.error e, t) := by
  have hrun := add_run t provider
  rw [h] at hrun
  unfold added
  simp only [hrun]
  rfl

/-! ## What an add does -/

theorem last_claims (provider : CapabilityProvider W) (i : ℕ) (id : String) :
    SortedMap.last id (claims provider i) = if id ∈ provider.ids then some i else none := by
  have hkeys : (claims provider i).map Prod.fst = provider.ids := by
    simp [claims, CapabilityProvider.ids, Function.comp_def]
  split_ifs with hid
  · rw [← hkeys] at hid
    obtain ⟨j, hj⟩ := Option.isSome_iff_exists.mp (SortedMap.isSome_last.mpr hid)
    obtain ⟨cap, -, hcap⟩ := List.mem_map.mp (SortedMap.mem_of_last hj)
    obtain rfl := (Prod.mk.inj hcap).2
    exact hj
  · exact SortedMap.last_of_notMem (hkeys ▸ hid)

/-- An add that succeeds adds a component none of whose ids is owned, and makes it the owner of
these. -/
theorem add_eq_ok {t t' : Toolbox W} {provider : CapabilityProvider W}
    (h : t.add provider = .ok t') :
    (∀ id ∈ provider.ids, SortedMap.get id t.owner = none) ∧
    t'.providers = t.providers ++ [provider] ∧
    ∀ id, SortedMap.get id t'.owner =
      if id ∈ provider.ids then some t.providers.length else SortedMap.get id t.owner := by
  unfold add at h
  split at h
  · cases h
  · rename_i hfind
    obtain rfl := Except.ok.inj h
    refine ⟨?_, rfl, fun id => ?_⟩
    · intro id hid
      obtain ⟨cap, hcap, rfl⟩ := List.mem_map.mp hid
      simpa using List.find?_eq_none.mp hfind cap hcap
    · rw [SortedMap.get_foldl_insert, last_claims]
      split_ifs <;> rfl

theorem ownerOf_eq_some {t : Toolbox W} {id : String} {provider : CapabilityProvider W} :
    t.ownerOf id = some provider ↔
      ∃ i, SortedMap.get id t.owner = some i ∧ t.providers[i]? = some provider := by
  unfold ownerOf
  split
  · rename_i i h
    have hi := t.inRange id i h
    simp [h, hi]
  · rename_i h
    simp [h]

theorem ownerOf_add {t t' : Toolbox W} {provider : CapabilityProvider W}
    (h : t.add provider = .ok t') (id : String) :
    t'.ownerOf id = if id ∈ provider.ids then some provider else t.ownerOf id := by
  obtain ⟨-, hproviders, howner⟩ := add_eq_ok h
  ext p
  rw [ownerOf_eq_some, howner id, hproviders]
  split_ifs with hid
  · simp
  · rw [ownerOf_eq_some]
    constructor
    · rintro ⟨i, hi, hp⟩
      rw [List.getElem?_append_left (t.inRange id i hi)] at hp
      exact ⟨i, hi, hp⟩
    · rintro ⟨i, hi, hp⟩
      refine ⟨i, hi, ?_⟩
      rwa [List.getElem?_append_left (t.inRange id i hi)]

/-! ## Over a sequence of adds -/

variable (W) in
def adding : Machine (Toolbox W) (CapabilityProvider W) where
  init := empty
  step t provider := (t.added provider).2

/-- Of the adds, the one of `provider` after `pre` succeeds and declares the id. -/
def Declares (adds : List (CapabilityProvider W)) (id : String)
    (pre : List (CapabilityProvider W)) (provider : CapabilityProvider W) : Prop :=
  (∃ post, adds = pre ++ provider :: post) ∧
    (((adding W).reached pre).added provider).1 = .ok () ∧ id ∈ provider.ids

theorem declares_concat {adds : List (CapabilityProvider W)} {id : String}
    {pre : List (CapabilityProvider W)} {provider p : CapabilityProvider W} :
    Declares (adds ++ [provider]) id pre p ↔ Declares adds id pre p ∨ pre = adds ∧ p = provider ∧
      (((adding W).reached adds).added provider).1 = .ok () ∧ id ∈ provider.ids := by
  constructor
  · rintro ⟨⟨post, hadds⟩, hok, hid⟩
    rcases List.eq_nil_or_concat post with rfl | ⟨post, q, rfl⟩
    · obtain ⟨rfl, hp⟩ := List.append_inj' hadds rfl
      obtain rfl : provider = p := by simpa using hp
      exact .inr ⟨rfl, rfl, hok, hid⟩
    · have hadds' : adds ++ [provider] = (pre ++ p :: post) ++ [q] := by simpa using hadds
      exact .inl ⟨⟨post, (List.append_inj' hadds' rfl).1⟩, hok, hid⟩
  · rintro (⟨⟨post, rfl⟩, hok, hid⟩ | ⟨rfl, rfl, hok, hid⟩)
    · exact ⟨⟨post ++ [provider], by simp⟩, hok, hid⟩
    · exact ⟨⟨[], rfl⟩, hok, hid⟩

/-- An id is routed to the component of the one add that declared it. -/
def Routed (adds : List (CapabilityProvider W)) (t : Toolbox W) (id : String) : Prop :=
  (t.ownerOf id = none ∧ ∀ pre provider, ¬Declares adds id pre provider) ∨
  ∃ pre provider, t.ownerOf id = some provider ∧ Declares adds id pre provider ∧
    ∀ pre' provider', Declares adds id pre' provider' → pre' = pre ∧ provider' = provider

theorem Routed.congr {adds adds' : List (CapabilityProvider W)} {t t' : Toolbox W} {id : String}
    (h : Routed adds t id) (howner : t'.ownerOf id = t.ownerOf id)
    (hdeclares : ∀ pre p, Declares adds' id pre p ↔ Declares adds id pre p) :
    Routed adds' t' id := by
  unfold Routed at h ⊢
  simpa only [howner, hdeclares] using h

theorem Routed.ownerOf_eq_some {adds : List (CapabilityProvider W)} {t : Toolbox W} {id : String}
    {provider : CapabilityProvider W} (h : Routed adds t id) :
    t.ownerOf id = some provider ↔ ∃ pre, Declares adds id pre provider := by
  rcases h with ⟨hnone, hno⟩ | ⟨pre, p, howner, hp, hunique⟩
  · rw [hnone]
    exact iff_of_false (by simp) fun ⟨pre, hpre⟩ => hno pre provider hpre
  · rw [howner]
    constructor
    · intro heq
      exact ⟨pre, Option.some.inj heq ▸ hp⟩
    · rintro ⟨pre', hpre'⟩
      rw [(hunique pre' provider hpre').2]

theorem routed_adding (adds : List (CapabilityProvider W)) (id : String) :
    Routed adds ((adding W).reached adds) id := by
  induction adds using List.reverseRecOn with
  | nil =>
    refine .inl ⟨rfl, ?_⟩
    rintro pre provider ⟨⟨post, hadds⟩, -⟩
    simp at hadds
  | append_singleton adds provider ih =>
    rw [Machine.reached_concat]
    cases h : ((adding W).reached adds).add provider with
    | error e =>
      have hnext : (adding W).step ((adding W).reached adds) provider = (adding W).reached adds :=
        congrArg Prod.snd (added_of_error h)
      rw [hnext]
      refine ih.congr rfl fun pre p => ?_
      rw [declares_concat, added_of_error h]
      simp
    | ok t' =>
      have hnext : (adding W).step ((adding W).reached adds) provider = t' :=
        congrArg Prod.snd (added_of_ok h)
      rw [hnext]
      by_cases hid : id ∈ provider.ids
      · have hnone : ((adding W).reached adds).ownerOf id = none := by
          have := (add_eq_ok h).1 id hid
          cases howner : ((adding W).reached adds).ownerOf id with
          | none => rfl
          | some p =>
            obtain ⟨i, hi, -⟩ := ownerOf_eq_some.mp howner
            simp [this] at hi
        -- the provider is taken only if none of its ids is, so it is the first to declare this one
        have hundeclared : ∀ pre p, ¬Declares adds id pre p := by
          rcases ih with ⟨-, hno⟩ | ⟨_, _, howner, -⟩
          · exact hno
          · simp [hnone] at howner
        refine .inr ⟨adds, provider, by rw [ownerOf_add h, if_pos hid],
          declares_concat.mpr (.inr ⟨rfl, rfl, by rw [added_of_ok h], hid⟩), ?_⟩
        intro pre p hp
        rcases declares_concat.mp hp with hp | ⟨hpre, hp, -⟩
        · exact absurd hp (hundeclared pre p)
        · exact ⟨hpre, hp⟩
      · refine ih.congr (by rw [ownerOf_add h, if_neg hid]) fun pre p => ?_
        rw [declares_concat]
        simp [hid]

/-- A component is in the list exactly if its ids are in the index. -/
def Indexed (t : Toolbox W) : Prop :=
  ∀ id, (t.ownerOf id).isSome ↔ ∃ provider ∈ t.providers, id ∈ provider.ids

theorem Indexed.add {t t' : Toolbox W} {provider : CapabilityProvider W} (ht : t.Indexed)
    (h : t.add provider = .ok t') : t'.Indexed := by
  intro id
  rw [ownerOf_add h, (add_eq_ok h).2.1]
  split_ifs with hid
  · simp [hid]
  · rw [ht id]
    simp [hid]

theorem indexed_adding (adds : List (CapabilityProvider W)) :
    ((adding W).reached adds).Indexed := by
  refine Machine.invariant (I := fun _ => Indexed) ?_ ?_ adds
  · intro id
    simp [adding, empty, ownerOf]
  · intro _ t provider ht
    change (t.added provider).2.Indexed
    cases h : t.add provider with
    | error e => rwa [added_of_error h]
    | ok t' =>
      rw [added_of_ok h]
      exact ht.add h

/-! ## The registry -/

theorem isSome_lookup_register (reg : CapabilityRegistry) (cap : Capability) (id : String) :
    (((reg.register cap).toOption.getD reg).lookup id).isSome ↔
      (reg.lookup id).isSome ∨ id = cap.id := by
  unfold CapabilityRegistry.register
  cases h : reg.lookup cap.id with
  | some cap' =>
    refine ⟨.inl, ?_⟩
    rintro (hid | rfl)
    · exact hid
    · change (reg.lookup cap.id).isSome
      rw [h]
      rfl
  | none =>
    change ((reg.insert cap).lookup id).isSome ↔ _
    rw [CapabilityRegistry.lookup_insert]
    split_ifs with hid <;> simp [hid]

theorem isSome_lookup_foldl (caps : List Capability) (reg : CapabilityRegistry) (id : String) :
    ((caps.foldl (fun reg cap => (reg.register cap).toOption.getD reg) reg).lookup id).isSome ↔
      (reg.lookup id).isSome ∨ id ∈ caps.map Capability.id := by
  induction caps generalizing reg with
  | nil => simp
  | cons cap caps ih =>
    rw [List.foldl_cons, ih, isSome_lookup_register, List.map_cons, List.mem_cons, or_assoc]

theorem isSome_lookup_registry (t : Toolbox W) (id : String) :
    (t.registry.lookup id).isSome ↔ ∃ provider ∈ t.providers, id ∈ provider.ids := by
  unfold registry CapabilityProvider.ids
  rw [isSome_lookup_foldl]
  simp only [CapabilityRegistry.lookup_empty, List.mem_map, List.mem_flatMap]
  grind

/-! ## Routing and registry agree -/

theorem execute_of_ownerOf {t : Toolbox W} {id : String} {provider : CapabilityProvider W}
    (h : t.ownerOf id = some provider) (origin : String) :
    (t.executor origin).execute id = provider.execute id ∧
    (t.executor origin).executeWithInvoker id = provider.executeWithInvoker origin id := by
  unfold executor
  dsimp only
  rw [h]
  exact ⟨rfl, rfl⟩

end Toolbox

/-- After any sequence of adds the registry finds an id exactly if calls of it are routed to a
component, which is that of the one successful add that declared it; an add that fails leaves the
toolbox as it was; and what the pipeline has resolved is executed by a component. -/
theorem toolbox_routes_its_registry {W : Type} (adds : List (CapabilityProvider W)) :
    let t := (Toolbox.adding W).reached adds
    (∀ id, (t.registry.lookup id).isSome ↔ (t.ownerOf id).isSome) ∧
    (∀ id provider, t.ownerOf id = some provider ↔
      ∃ pre, Toolbox.Declares adds id pre provider) ∧
    (∀ id pre provider pre' provider', Toolbox.Declares adds id pre provider →
      Toolbox.Declares adds id pre' provider' → pre' = pre ∧ provider' = provider) ∧
    (∀ provider e, (t.added provider).1 = .error e → (t.added provider).2 = t) ∧
    (∀ (origin : String) (resolved : Resolved t.registry), ∃ provider,
      t.ownerOf resolved.request.capability = some provider ∧
      (t.executor origin).execute resolved.request.capability =
        provider.execute resolved.request.capability ∧
      (t.executor origin).executeWithInvoker resolved.request.capability =
        provider.executeWithInvoker origin resolved.request.capability) := by
  intro t
  have hfound : ∀ id, (t.registry.lookup id).isSome ↔ (t.ownerOf id).isSome := fun id => by
    rw [Toolbox.isSome_lookup_registry, Toolbox.indexed_adding adds id]
  refine ⟨hfound, fun id provider => (Toolbox.routed_adding adds id).ownerOf_eq_some, ?_, ?_, ?_⟩
  · intro id pre provider pre' provider' h h'
    rcases Toolbox.routed_adding adds id with ⟨-, hno⟩ | ⟨_, _, -, -, hunique⟩
    · exact absurd h (hno pre provider)
    · obtain ⟨rfl, rfl⟩ := hunique pre provider h
      exact hunique pre' provider' h'
  · intro provider e he
    cases h : t.add provider with
    | error e' => rw [Toolbox.added_of_error h]
    | ok t' => simp [Toolbox.added_of_ok h] at he
  · intro origin resolved
    obtain ⟨cap, hcap, -⟩ := resolved.found
    obtain ⟨provider, hprovider⟩ := Option.isSome_iff_exists.mp
      ((hfound resolved.request.capability).mp (by rw [hcap]; rfl))
    exact ⟨provider, hprovider, Toolbox.execute_of_ownerOf hprovider origin⟩

end Pan
