import Pan.Agents

namespace Pan

inductive Handed where
  | provider (cfg : ComponentConfig)
  | capability (cfg : ComponentConfig)
  | contextAssembler (cfg : ComponentConfig)

/-- A result, with what was handed to factories on the way. -/
structure Handing (α : Type) where
  handed : List Handed
  result : Except AssembleError α

namespace Handing

variable {α β : Type}

/-- `?`: an error ends the assembly. -/
def bind (x : Handing α) (f : α → Handing β) : Handing β :=
  match x.result with
  | .error e => ⟨x.handed, .error e⟩
  | .ok a => ⟨x.handed ++ (f a).handed, (f a).result⟩

def quiet (result : Except AssembleError α) : Handing α := ⟨[], result⟩

theorem result_bind (x : Handing α) (f : α → Handing β) :
    (x.bind f).result = x.result >>= fun a => (f a).result := by
  unfold bind
  cases x.result <;> rfl

theorem bind_of_error {x : Handing α} {e : AssembleError} (h : x.result = .error e)
    (f : α → Handing β) : x.bind f = ⟨x.handed, .error e⟩ := by
  unfold bind
  rw [h]

theorem bind_of_ok {x : Handing α} {a : α} (h : x.result = .ok a) (f : α → Handing β) :
    x.bind f = ⟨x.handed ++ (f a).handed, (f a).result⟩ := by
  unfold bind
  rw [h]

theorem bind_congr {x : Handing α} {f g : α → Handing β} (h : ∀ a, x.result = .ok a → f a = g a) :
    x.bind f = x.bind g := by
  cases hx : x.result with
  | error e => rw [bind_of_error hx, bind_of_error hx]
  | ok a => rw [bind_of_ok hx, bind_of_ok hx, h a hx]

/-- What was handed to anyone stays so. -/
theorem handed_bind (x : Handing α) (f : α → Handing β) :
    ∃ rest, (x.bind f).handed = x.handed ++ rest := by
  cases h : x.result with
  | error e => exact ⟨[], by rw [bind_of_error h, List.append_nil]⟩
  | ok a => exact ⟨(f a).handed, by rw [bind_of_ok h]⟩

end Handing

section

variable {W : Type} (m : AgentManifest) (r : ComponentRegistry W)

/-- A component is built; its factory is handed the config if there is one. -/
def hand {α : Type} (kind : ComponentConfig → Handed) (family : String)
    (wrap : ComponentError → AssembleError) (table : List (String × Factory α))
    (cfg : ComponentConfig) : Handing α where
  handed := if (SortedMap.get cfg.id table).isSome then [kind cfg] else []
  result := (ComponentRegistry.build family table cfg).mapError wrap

def handProvider (cfg : ComponentConfig) : Handing (Provider W) :=
  hand .provider "provider" .provider r.providers cfg

def handCapability (t : Toolbox W) (cfg : ComponentConfig) : Handing (Toolbox W) :=
  (hand .capability "capability" .capability r.capabilityProviders cfg).bind fun component =>
    .quiet ((t.add component).mapError .capabilityConflict)

def handCapabilities (capCfg : String → ComponentConfig) :
    Toolbox W → List String → Handing (Toolbox W)
  | t, [] => .quiet (.ok t)
  | t, id :: ids => (handCapability r t (capCfg id)).bind fun t' =>
    handCapabilities capCfg t' ids

def handContext : Handing (Option (ContextAssembler W)) :=
  match m.contextId with
  | some id => (hand .contextAssembler "context_assembler" .contextAssembler r.contextAssemblers
      ⟨id, .null⟩).bind fun contextAssembler => .quiet (.ok (some contextAssembler))
  | none => .quiet (.ok none)

/-- An assembly with these configs for the provider and for the capabilities. -/
def assemblingBy (providerCfg : ComponentConfig) (capCfg : String → ComponentConfig) :
    Handing (AssembledAgent W) :=
  (handProvider r providerCfg).bind fun provider =>
    (handCapabilities r capCfg .empty m.caps.enable).bind fun toolbox =>
      (handContext m r).bind fun contextAssembler => .quiet <| .ok {
        name := m.metaInfo.name
        instruction := m.persona.instruction
        scope := ⟨m.origin⟩
        grants := m.grants
        provider
        toolbox
        contextAssembler }

def assembling : Handing (AssembledAgent W) := assemblingBy m r m.providerConfig m.capConfig

def mergedCapConfig (global : Option Config) (id : String) : ComponentConfig :=
  ⟨id, mergeCapSettings global m id⟩

def assemblingWithConfig (global : Option Config) : Handing (AssembledAgent W) :=
  assemblingBy m r ⟨m.persona.provider, mergeProviderSettings global m⟩ (mergedCapConfig m global)

/-! ## They do what `assemble` does -/

theorem result_handCapabilities (capCfg : String → ComponentConfig)
    (add : Toolbox W → String → Except AssembleError (Toolbox W))
    (hadd : ∀ t id, (handCapability r t (capCfg id)).result = add t id) (t : Toolbox W)
    (ids : List String) : (handCapabilities r capCfg t ids).result = ids.foldlM add t := by
  induction ids generalizing t with
  | nil => rfl
  | cons id ids ih =>
    rw [handCapabilities, Handing.result_bind, hadd, List.foldlM_cons]
    exact congrArg (add t id >>= ·) (funext ih)

theorem result_handContext : (handContext m r).result = assembleContext m r := by
  unfold handContext assembleContext
  cases m.contextId with
  | none => rfl
  | some id =>
    dsimp only
    rw [Handing.result_bind]
    change ((r.buildContextAssembler ⟨id, .null⟩).mapError AssembleError.contextAssembler >>=
      fun a => Except.ok (some a)) = _
    cases (r.buildContextAssembler ⟨id, .null⟩).mapError AssembleError.contextAssembler <;> rfl

theorem result_assembling : (assembling m r).result = assemble m r := by
  have htoolbox : ∀ t, (handCapabilities r m.capConfig t m.caps.enable).result =
      m.caps.enable.foldlM (addComponent m r) t := fun t =>
    result_handCapabilities r m.capConfig (addComponent m r)
      (fun t id => Handing.result_bind _ _) t m.caps.enable
  simp only [assembling, assemblingBy, Handing.result_bind, htoolbox, result_handContext]
  rfl

theorem result_assemblingWithConfig (global : Option Config) :
    (assemblingWithConfig m r global).result = assembleWithConfig m r global := by
  have htoolbox : ∀ t, (handCapabilities r (mergedCapConfig m global) t m.caps.enable).result =
      m.caps.enable.foldlM (addMergedComponent m r global) t := fun t =>
    result_handCapabilities r (mergedCapConfig m global) (addMergedComponent m r global)
      (fun t id => Handing.result_bind _ _) t m.caps.enable
  simp only [assemblingWithConfig, assemblingBy, Handing.result_bind, htoolbox, result_handContext]
  rfl

/-! ## Without a global config -/

theorem map_foldl_insert (table settings : TomlTable) :
    (settings.foldl (fun s p => SortedMap.insert p.1 p.2 s) table).map
        (fun p => (p.1, p.2.toJson)) =
      insertSettings (table.map fun p => (p.1, p.2.toJson)) settings := by
  unfold insertSettings
  induction settings generalizing table with
  | nil => rfl
  | cons p settings ih => rw [List.foldl_cons, List.foldl_cons, ih, SortedMap.map_insert]

/-- The settings of the provider are merged with nothing. -/
theorem mergeProviderSettings_none :
    (⟨m.persona.provider, mergeProviderSettings none m⟩ : ComponentConfig) = m.providerConfig := by
  have hsettings : ∀ table : TomlTable, SortedMap.Ascending (table.map fun p => (p.1, p.2.toJson)) →
      insertSettings [] (m.persona.settings.foldl (fun s p => SortedMap.insert p.1 p.2 s) table) =
        insertSettings (table.map fun p => (p.1, p.2.toJson)) m.persona.settings := by
    intro table htable
    rw [insertSettings_nil, map_foldl_insert,
      SortedMap.ofList_of_ascending (ascending_insertSettings htable _)]
  unfold mergeProviderSettings mergeSettings AgentManifest.providerConfig
  dsimp only
  cases hmodel : m.persona.model with
  | none =>
    dsimp only
    rw [hsettings]
    · rfl
    · exact List.pairwise_singleton _ _
  | some model =>
    dsimp only
    rw [hsettings]
    · rw [SortedMap.map_insert]
      rfl
    · rw [SortedMap.map_insert]
      exact SortedMap.ascending_insert _ _ (List.pairwise_singleton _ _)

/-- A capability is handed the same config exactly if its settings are a table. -/
theorem capConfig_eq_iff (id : String) : m.capConfig id = mergedCapConfig m none id ↔
    ∃ fields, SortedMap.get id m.caps.settings = some (.table fields) := by
  have hnontable : ∀ v : Toml, v.asTable = none → v.toJson ≠ .object [] := by
    intro v hv
    cases v <;> simp [Toml.toJson, Toml.asTable] at hv ⊢
    split <;> simp
  unfold AgentManifest.capConfig mergedCapConfig mergeCapSettings mergeSettings
  rw [ComponentConfig.mk.injEq, eq_self, true_and]
  cases hget : SortedMap.get id m.caps.settings with
  | none => simp
  | some v =>
    cases htable : v.asTable with
    | none =>
      have hne := hnontable v htable
      have hfields : ∀ fields, v ≠ .table fields := by
        rintro fields rfl
        cases htable
      simpa [htable, insertSettings, hfields] using hne
    | some fields =>
      obtain ⟨rfl⟩ : v = .table fields := by
        cases v <;> simp_all [Toml.asTable]
      simp [Toml.asTable, Toml.toJson_table, insertSettings_nil]

/-- Both hand out the same configs in the same order, and come to the same scope and grants or to
the same error. -/
structure SameAssembly : Prop where
  handed : (assembling m r).handed = (assemblingWithConfig m r none).handed
  result : (assemble m r).map (fun agent => (agent.scope, agent.grants)) =
    (assembleWithConfig m r none).map fun agent => (agent.scope, agent.grants)

/-- Every registered capability that an assembly comes to has a table of settings. -/
def TablesFor : Toolbox W → List String → Prop
  | _, [] => True
  | t, id :: ids =>
    ((SortedMap.get id r.capabilityProviders).isSome →
      ∃ fields, SortedMap.get id m.caps.settings = some (.table fields)) ∧
    ∀ t', addComponent m r t id = .ok t' → TablesFor t' ids

/-- The assembly comes to the capabilities if the provider is built. -/
def SettingsAreTables : Prop :=
  ∀ provider, r.buildProvider m.providerConfig = .ok provider → TablesFor m r .empty m.caps.enable

variable {m r}

theorem handCapability_of_unregistered (t : Toolbox W) (cfg : ComponentConfig)
    (h : SortedMap.get cfg.id r.capabilityProviders = none) : handCapability r t cfg =
      ⟨[], .error (.capability (.unknown "capability" cfg.id))⟩ := by
  have hand : hand .capability "capability" .capability r.capabilityProviders cfg =
      ⟨[], .error (.capability (.unknown "capability" cfg.id))⟩ := by
    unfold hand ComponentRegistry.build
    rw [h]
    rfl
  unfold handCapability
  rw [hand, Handing.bind]

theorem handed_handCapability {factory : Factory (CapabilityProvider W)} (t : Toolbox W)
    (cfg : ComponentConfig) (h : SortedMap.get cfg.id r.capabilityProviders = some factory) :
    (handCapability r t cfg).handed = [.capability cfg] := by
  unfold handCapability Handing.bind
  split
  · simp [hand, h]
  · simp [hand, h, Handing.quiet]

theorem result_handCapability (t : Toolbox W) (id : String) :
    (handCapability r t (m.capConfig id)).result = addComponent m r t id :=
  Handing.result_bind _ _

theorem handCapabilities_eq {t : Toolbox W} {ids : List String} (h : TablesFor m r t ids) :
    handCapabilities r m.capConfig t ids = handCapabilities r (mergedCapConfig m none) t ids := by
  induction ids generalizing t with
  | nil => rfl
  | cons id ids ih =>
    obtain ⟨htable, hnext⟩ := h
    have hcapability : handCapability r t (m.capConfig id) =
        handCapability r t (mergedCapConfig m none id) := by
      cases hregistered : SortedMap.get id r.capabilityProviders with
      | none =>
        rw [handCapability_of_unregistered t (m.capConfig id) hregistered,
          handCapability_of_unregistered t (mergedCapConfig m none id) hregistered]
        rfl
      | some factory => rw [(capConfig_eq_iff m id).mpr (htable (by simp [hregistered]))]
    rw [handCapabilities, handCapabilities, ← hcapability]
    apply Handing.bind_congr
    intro t' ht'
    rw [result_handCapability] at ht'
    exact ih (hnext t' ht')

theorem tablesFor_of_handed {t : Toolbox W} {ids : List String} {rest rest' : List Handed}
    (h : (handCapabilities r m.capConfig t ids).handed ++ rest =
      (handCapabilities r (mergedCapConfig m none) t ids).handed ++ rest') :
    TablesFor m r t ids := by
  induction ids generalizing t with
  | nil => trivial
  | cons id ids ih =>
    rw [handCapabilities, handCapabilities] at h
    cases hregistered : SortedMap.get id r.capabilityProviders with
    | none =>
      refine ⟨by simp [hregistered], fun t' ht' => ?_⟩
      rw [← result_handCapability,
        handCapability_of_unregistered t (m.capConfig id) hregistered] at ht'
      cases ht'
    | some factory =>
      have hleft := handed_handCapability t (m.capConfig id) hregistered
      have hright := handed_handCapability t (mergedCapConfig m none id) hregistered
      have hcfg : m.capConfig id = mergedCapConfig m none id := by
        obtain ⟨more, hmore⟩ := Handing.handed_bind (handCapability r t (m.capConfig id))
          fun t' => handCapabilities r m.capConfig t' ids
        obtain ⟨more', hmore'⟩ := Handing.handed_bind
          (handCapability r t (mergedCapConfig m none id))
          fun t' => handCapabilities r (mergedCapConfig m none) t' ids
        rw [hmore, hmore', hleft, hright] at h
        exact Handed.capability.inj (List.cons.inj h).1
      refine ⟨fun _ => (capConfig_eq_iff m id).mp hcfg, fun t' ht' => ?_⟩
      rw [← result_handCapability] at ht'
      rw [← hcfg, Handing.bind_of_ok ht', Handing.bind_of_ok ht', List.append_assoc,
        List.append_assoc, List.append_cancel_left_eq] at h
      exact ih h

theorem sameAssembly_of_eq (h : assembling m r = assemblingWithConfig m r none) :
    SameAssembly m r where
  handed := by rw [h]
  result := by rw [← result_assembling, ← result_assemblingWithConfig, h]

theorem settingsAreTables_of_sameAssembly (h : SameAssembly m r) : SettingsAreTables m r := by
  intro provider hprovider
  have hhanded := h.handed
  have hresult : (handProvider r m.providerConfig).result = .ok provider := by
    change (r.buildProvider m.providerConfig).mapError AssembleError.provider = _
    rw [hprovider]
    rfl
  unfold assembling assemblingWithConfig assemblingBy at hhanded
  rw [mergeProviderSettings_none, Handing.bind_of_ok hresult, Handing.bind_of_ok hresult,
    List.append_cancel_left_eq] at hhanded
  obtain ⟨rest, hrest⟩ := Handing.handed_bind
    (handCapabilities r m.capConfig .empty m.caps.enable) _
  obtain ⟨rest', hrest'⟩ := Handing.handed_bind
    (handCapabilities r (mergedCapConfig m none) .empty m.caps.enable) _
  rw [hrest, hrest'] at hhanded
  exact tablesFor_of_handed hhanded

/-- The two assemblies do the same exactly if each registered capability that they come to has a
table of settings. -/
theorem sameAssembly_iff : SameAssembly m r ↔ SettingsAreTables m r := by
  refine ⟨settingsAreTables_of_sameAssembly, fun h => sameAssembly_of_eq ?_⟩
  unfold assembling assemblingWithConfig assemblingBy
  rw [mergeProviderSettings_none]
  apply Handing.bind_congr
  intro provider hresult
  have hprovider : r.buildProvider m.providerConfig = .ok provider := by
    change (r.buildProvider m.providerConfig).mapError AssembleError.provider = _ at hresult
    cases hbuild : r.buildProvider m.providerConfig with
    | error e =>
      rw [hbuild] at hresult
      cases hresult
    | ok p =>
      rw [hbuild] at hresult
      cases hresult
      rfl
  rw [handCapabilities_eq (h provider hprovider)]

end

/-- An agent that enables a capability and has no settings for it. -/
def bareFs : AgentManifest where
  metaInfo := ⟨"a", none⟩
  persona := ⟨"", "provider.none", none, []⟩
  caps := ⟨[], ["cap.fs"], []⟩

/-- A provider that never decides, and a capability that refuses every config. -/
def refusingFs : ComponentRegistry Unit where
  providers := [("provider.none", fun _ => .ok ⟨"provider.none", fun _ _ _ _ w => (none, w)⟩)]
  capabilityProviders := [("cap.fs", fun cfg => .error (.construction cfg.id "refused"))]
  contextAssemblers := []

/-- The capability is handed null by one and an empty object by the other. -/
theorem bareFs_not_sameAssembly : ¬SameAssembly bareFs refusingFs := by
  intro h
  obtain ⟨htable, -⟩ := settingsAreTables_of_sameAssembly h _ rfl
  obtain ⟨fields, hfields⟩ := htable rfl
  cases hfields

end Pan
