import Pan.Agents

namespace Pan

/-! ## Out of a text -/

def decodeOr {α : Type} (default : α) (decode : Toml → Option α) : Option Toml → Option α
  | some v => decode v
  | none => some default

def decodeMap {α : Type} (decode : Toml → Option α) (v : Toml) : Option (List (String × α)) := do
  let entries ← v.entries
  return SortedMap.ofList (← entries.mapM fun p => (decode p.2).map fun a => (p.1, a))

def decodeStrings : Toml → Option (List String)
  | .array xs => xs.mapM Toml.asStr
  | _ => none

def Meta.decode (v : Toml) : Option Meta := do
  return {
    name := ← (v.structField 0 "name").bind Toml.asStr
    persona := ← decodeOr none (fun v => v.asStr.map some) (v.structField 1 "persona") }

/-- The keys of a persona that are no settings of their own. -/
def Persona.fields : List String := ["instruction", "provider", "model"]

/-- No array stands for a persona, since it collects the other keys. -/
def Persona.decode (v : Toml) : Option Persona := do
  let entries ← v.entries
  return {
    instruction := ← decodeOr "" Toml.asStr (SortedMap.last "instruction" entries)
    provider := ← (SortedMap.last "provider" entries).bind Toml.asStr
    model := ← decodeOr none (fun v => v.asStr.map some) (SortedMap.last "model" entries)
    settings := SortedMap.ofList (entries.filter fun p => p.1 ∉ Persona.fields) }

def Caps.decode (v : Toml) : Option Caps := do
  if !v.isStruct then none
  return {
    grant := ← decodeOr [] (decodeMap Toml.asBool) (v.structField 0 "grant")
    enable := ← decodeOr [] decodeStrings (v.structField 1 "enable")
    settings := ← decodeOr [] (decodeMap some) (v.structField 2 "settings") }

structure TomlText where
  /-- The table of a text, or what is wrong with it. -/
  read : String → Except String TomlTable
  /-- What is wrong with a text whose table is no manifest. -/
  mismatch : String → String

namespace AgentManifest

def decode (root : TomlTable) : Option AgentManifest := do
  return {
    metaInfo := ← (SortedMap.last "meta" root).bind Meta.decode
    persona := ← (SortedMap.last "persona" root).bind Persona.decode
    caps := ← decodeOr ⟨[], [], []⟩ Caps.decode (SortedMap.last "caps" root) }

/-- `toml::from_str`. -/
def fromStr (T : TomlText) (text : String) : Except String AgentManifest :=
  match T.read text with
  | .error e => .error e
  | .ok root =>
    match decode root with
    | some manifest => .ok manifest
    | none => .error (T.mismatch text)

def fromToml (T : TomlText) (text : String) : Except ManifestError AgentManifest := do
  let manifest ← (fromStr T text).mapError .parse
  manifest.validate
  return manifest

end AgentManifest

/-! ## Precedence -/

/-- The value that a manifest declares for a setting of its provider. The component itself is no
setting. -/
def declaredSetting (root : TomlTable) (key : String) : Option Toml :=
  if key = "provider" then none
  else ((SortedMap.last "persona" root).bind Toml.entries).bind (SortedMap.last key)

def declaredTable (root : TomlTable) (id : String) : Option TomlTable :=
  ((((SortedMap.last "caps" root).bind (Toml.structField 2 "settings")).bind Toml.entries).bind
    (SortedMap.last id)).bind Toml.asTable

def declaredCapSetting (root : TomlTable) (id key : String) : Option Toml :=
  (declaredTable root id).bind (SortedMap.last key)

/-- The value that the global config has for a setting of a component. -/
def globalSetting (global : Option Config) (id key : String) : Option Toml :=
  global.bind fun cfg => (SortedMap.get id cfg.plugin).bind (SortedMap.last key)

/-- A setting is the declared one, or else the global one; without both there is none, but for an
empty instruction. -/
structure SettingsPrecedence (global : Option Config) (root : TomlTable) (m : AgentManifest) :
    Prop where
  provider : ∀ key, (mergeProviderSettings global m).get key =
    (((declaredSetting root key).or (globalSetting global m.persona.provider key)).map
      Toml.toJson).or (if key = "instruction" then some (.string "") else none)
  capability : ∀ id key, (mergeCapSettings global m id).get key =
    ((declaredCapSetting root id key).or (globalSetting global id key)).map Toml.toJson

/-- The manifest has an instruction, or the global config has none for its provider but an empty
one. -/
def InstructionSettled (global : Option Config) (root : TomlTable) (m : AgentManifest) : Prop :=
  (declaredSetting root "instruction").isSome ∨
    ∀ v, globalSetting global m.persona.provider "instruction" = some v → v = .string ""

/-! ## What decoding leaves -/

variable {global : Option Config} {root : TomlTable} {m : AgentManifest}

theorem decode_eq_some (h : AgentManifest.decode root = some m) :
    (∃ v, SortedMap.last "persona" root = some v ∧ Persona.decode v = some m.persona) ∧
      decodeOr ⟨[], [], []⟩ Caps.decode (SortedMap.last "caps" root) = some m.caps := by
  unfold AgentManifest.decode at h
  obtain ⟨metaInfo, -, h⟩ := Option.bind_eq_some_iff.mp h
  obtain ⟨persona, hpersona, h⟩ := Option.bind_eq_some_iff.mp h
  obtain ⟨caps, hcaps, h⟩ := Option.bind_eq_some_iff.mp h
  obtain rfl := Option.some.inj h
  exact ⟨Option.bind_eq_some_iff.mp hpersona, hcaps⟩

theorem decode_of_fromToml {T : TomlText} {text : String} (hread : T.read text = .ok root)
    (h : AgentManifest.fromToml T text = .ok m) : AgentManifest.decode root = some m := by
  obtain ⟨manifest, hmanifest, h⟩ := Fallible.exists_of_bind_eq_ok h
  obtain ⟨-, -, h⟩ := Fallible.exists_of_bind_eq_ok h
  obtain rfl := Except.ok.inj h
  unfold AgentManifest.fromStr at hmanifest
  rw [hread] at hmanifest
  dsimp only at hmanifest
  cases hdecode : AgentManifest.decode root with
  | none =>
    rw [hdecode] at hmanifest
    cases hmanifest
  | some manifest' =>
    rw [hdecode] at hmanifest
    exact congrArg some (Except.ok.inj hmanifest)

theorem eq_string_of_asStr {v : Toml} {s : String} (h : v.asStr = some s) : v = .string s := by
  cases v <;> simp_all [Toml.asStr]

/-- A text that is missing is decoded as an empty one. -/
theorem some_string_of_decodeOr {field : Option Toml} {s : String}
    (h : decodeOr "" Toml.asStr field = some s) :
    some (Toml.string s) = field.or (some (.string "")) := by
  cases field with
  | none => rw [← Option.some.inj h, Option.none_or]
  | some v => rw [eq_string_of_asStr h, Option.some_or]

/-- An optional text is decoded as what it is. -/
theorem map_string_of_decodeOr {field : Option Toml} {s : Option String}
    (h : decodeOr none (fun v => v.asStr.map some) field = some s) :
    s.map Toml.string = field := by
  cases field with
  | none => rw [← Option.some.inj h, Option.map_none]
  | some v =>
    obtain ⟨t, ht, hs⟩ := Option.map_eq_some_iff.mp h
    rw [← hs, eq_string_of_asStr ht, Option.map_some]

/-- The fields of a persona, by what it declares. -/
theorem last_of_decode {v : Toml} {persona : Persona} (h : Persona.decode v = some persona) :
    ∃ entries, v.entries = some entries ∧
      some (Toml.string persona.instruction) =
        (SortedMap.last "instruction" entries).or (some (.string "")) ∧
      persona.model.map Toml.string = SortedMap.last "model" entries ∧
      persona.settings = SortedMap.ofList (entries.filter fun p => p.1 ∉ Persona.fields) := by
  unfold Persona.decode at h
  obtain ⟨entries, hentries, h⟩ := Option.bind_eq_some_iff.mp h
  obtain ⟨instruction, hinstruction, h⟩ := Option.bind_eq_some_iff.mp h
  obtain ⟨provider, -, h⟩ := Option.bind_eq_some_iff.mp h
  obtain ⟨model, hmodel, h⟩ := Option.bind_eq_some_iff.mp h
  obtain rfl := Option.some.inj h
  exact ⟨entries, hentries, some_string_of_decodeOr hinstruction, map_string_of_decodeOr hmodel,
    rfl⟩

/-! ## What merging leaves -/

theorem get_mergeSettings (id key : String) (table : TomlTable) :
    (mergeSettings global id table).get key =
      ((SortedMap.last key table).or (globalSetting global id key)).map Toml.toJson := by
  rw [Option.map_or]
  cases global with
  | none =>
    change SortedMap.get key (insertSettings [] table) = _
    rw [get_insertSettings]
    rfl
  | some cfg =>
    change SortedMap.get key (insertSettings (insertSettings []
      ((SortedMap.get id cfg.plugin).getD [])) table) = _
    rw [get_insertSettings, get_insertSettings, SortedMap.get_nil, Option.or_none, globalSetting,
      Option.bind_some]
    cases SortedMap.get id cfg.plugin <;> simp

theorem get_mergeProviderSettings (key : String) : (mergeProviderSettings global m).get key =
    ((((SortedMap.last key m.persona.settings).or
        (if key = "model" then m.persona.model.map .string else none)).or
      (if key = "instruction" then some (.string m.persona.instruction) else none)).or
        (globalSetting global m.persona.provider key)).map Toml.toJson := by
  have hlast : ∀ base : TomlTable, SortedMap.Ascending base → SortedMap.last key
      (m.persona.settings.foldl (fun s p => SortedMap.insert p.1 p.2 s) base) =
        (SortedMap.last key m.persona.settings).or (SortedMap.get key base) := by
    intro base hbase
    rw [SortedMap.last_of_ascending (SortedMap.ascending_foldl_insert _ hbase),
      SortedMap.get_foldl_insert]
  have hinstruction : SortedMap.Ascending
      (SortedMap.insert "instruction" (Toml.string m.persona.instruction) []) :=
    SortedMap.ascending_insert _ _ List.Pairwise.nil
  unfold mergeProviderSettings
  dsimp only
  rw [get_mergeSettings]
  cases m.persona.model with
  | none =>
    dsimp only
    rw [hlast _ hinstruction, SortedMap.get_insert, SortedMap.get_nil]
    simp
  | some model =>
    dsimp only
    rw [hlast _ (SortedMap.ascending_insert _ _ hinstruction), SortedMap.get_insert,
      SortedMap.get_insert, SortedMap.get_nil, Option.or_assoc]
    split_ifs <;> simp

/-- With the manifest decoded, only an instruction may be there that the text does not declare. -/
theorem get_mergeProviderSettings_of_decode (h : AgentManifest.decode root = some m)
    (key : String) : (mergeProviderSettings global m).get key =
      (((declaredSetting root key).or
        (if key = "instruction" then some (.string "") else none)).or
          (globalSetting global m.persona.provider key)).map Toml.toJson := by
  obtain ⟨⟨v, hv, hpersona⟩, -⟩ := decode_eq_some h
  obtain ⟨entries, hentries, hinstruction, hmodel, hsettings⟩ := last_of_decode hpersona
  have hdeclared : declaredSetting root key =
      if key = "provider" then none else SortedMap.last key entries := by
    unfold declaredSetting
    rw [hv, Option.bind_some, hentries, Option.bind_some]
  have hlast : SortedMap.last key m.persona.settings =
      if key ∉ Persona.fields then SortedMap.last key entries else none := by
    rw [hsettings, SortedMap.last_of_ascending (SortedMap.ascending_ofList _),
      SortedMap.get_ofList, SortedMap.last_filter (fun key => key ∉ Persona.fields)]
    simp
  rw [get_mergeProviderSettings, hdeclared, hlast]
  congr 2
  by_cases hi : key = "instruction"
  · subst hi
    simp [Persona.fields, hinstruction]
  · by_cases hm : key = "model"
    · subst hm
      simp [Persona.fields, hmodel]
    · by_cases hp : key = "provider" <;> simp [Persona.fields, hi, hm, hp]

theorem decodeMap_some (v : Toml) : decodeMap some v = v.entries.map SortedMap.ofList := by
  have hentries : ∀ entries : TomlTable,
      entries.mapM (fun p => (some p.2).map fun a => (p.1, a)) = some entries := by
    intro entries
    induction entries with
    | nil => rfl
    | cons p entries ih =>
      rw [List.mapM_cons, ih]
      rfl
  unfold decodeMap
  cases v.entries with
  | none => rfl
  | some entries =>
    change (entries.mapM (fun p => (some p.2).map fun a => (p.1, a))).bind _ = _
    rw [hentries]
    rfl

theorem settings_of_decode {v : Toml} {caps : Caps} (h : Caps.decode v = some caps) :
    decodeOr [] (decodeMap some) (v.structField 2 "settings") = some caps.settings := by
  unfold Caps.decode at h
  cases hstruct : v.isStruct with
  | false =>
    rw [hstruct] at h
    cases h
  | true =>
    rw [hstruct] at h
    obtain ⟨grant, -, h⟩ := Option.bind_eq_some_iff.mp h
    obtain ⟨enable, -, h⟩ := Option.bind_eq_some_iff.mp h
    obtain ⟨settings, hsettings, h⟩ := Option.bind_eq_some_iff.mp h
    obtain rfl := Option.some.inj h
    exact hsettings

theorem declaredTable_eq (h : AgentManifest.decode root = some m) (id : String) :
    declaredTable root id = (SortedMap.get id m.caps.settings).bind Toml.asTable := by
  obtain ⟨-, hcaps⟩ := decode_eq_some h
  unfold declaredTable
  cases hfield : SortedMap.last "caps" root with
  | none =>
    rw [hfield] at hcaps
    rw [← Option.some.inj hcaps]
    rfl
  | some v =>
    rw [hfield] at hcaps
    have hsettings := settings_of_decode hcaps
    rw [Option.bind_some]
    cases hv : v.structField 2 "settings" with
    | none =>
      rw [hv] at hsettings
      rw [← Option.some.inj hsettings]
      rfl
    | some w =>
      rw [hv] at hsettings
      change decodeMap some w = _ at hsettings
      rw [decodeMap_some] at hsettings
      obtain ⟨entries, hentries, hofList⟩ := Option.map_eq_some_iff.mp hsettings
      rw [Option.bind_some, hentries, Option.bind_some, ← hofList, SortedMap.get_ofList]

/-- Capabilities have no fields of their own. -/
theorem get_mergeCapSettings_of_decode (h : AgentManifest.decode root = some m)
    (id key : String) : (mergeCapSettings global m id).get key =
      ((declaredCapSetting root id key).or (globalSetting global id key)).map Toml.toJson := by
  unfold mergeCapSettings declaredCapSetting
  rw [get_mergeSettings, declaredTable_eq h]
  cases (SortedMap.get id m.caps.settings).bind Toml.asTable <;> simp

/-! ## The instruction -/

theorem toJson_eq_string_iff {v : Toml} {s : String} : v.toJson = .string s ↔ v = .string s := by
  cases v <;> simp [Toml.toJson]
  split <;> simp

/-- An empty instruction comes before the global one. -/
theorem or_empty_iff {declared global : Option Toml} :
    (((declared.or (some (.string ""))).or global).map Toml.toJson =
        ((declared.or global).map Toml.toJson).or (some (.string ""))) ↔
      declared.isSome ∨ ∀ v, global = some v → v = .string "" := by
  cases declared with
  | some w => simp
  | none =>
    cases global with
    | none => simp [Toml.toJson]
    | some v => simp [Toml.toJson, eq_comm, toJson_eq_string_iff]

/-- The settings are merged as they should be exactly if the missing instruction makes no
difference. -/
theorem settingsPrecedence_iff {T : TomlText} {text : String} (hread : T.read text = .ok root)
    (h : AgentManifest.fromToml T text = .ok m) :
    SettingsPrecedence global root m ↔ InstructionSettled global root m := by
  have hdecode := decode_of_fromToml hread h
  have hinstruction : (mergeProviderSettings global m).get "instruction" = _ :=
    get_mergeProviderSettings_of_decode hdecode "instruction"
  rw [if_pos rfl] at hinstruction
  constructor
  · intro hprecedence
    have hkey := hprecedence.provider "instruction"
    rw [if_pos rfl, hinstruction] at hkey
    exact or_empty_iff.mp hkey
  · intro hsettled
    refine ⟨fun key => ?_, get_mergeCapSettings_of_decode hdecode⟩
    by_cases hkey : key = "instruction"
    · subst hkey
      rw [if_pos rfl, hinstruction]
      exact or_empty_iff.mpr hsettled
    · rw [get_mergeProviderSettings_of_decode hdecode, if_neg hkey, if_neg hkey, Option.or_none,
        Option.or_none]

def terseText : String := "[meta]\nname = \"test\"\n\n[persona]\nprovider = \"provider.llm\"\n"

def terseRoot : TomlTable :=
  [("meta", .table [("name", .string "test")]),
    ("persona", .table [("provider", .string "provider.llm")])]

def terse : AgentManifest where
  metaInfo := ⟨"test", none⟩
  persona := ⟨"", "provider.llm", none, []⟩
  caps := ⟨[], [], []⟩

def readsTerse : TomlText where
  read text := if text = terseText then .ok terseRoot else .error "expected another text"
  mismatch _ := "missing field"

def voiced : Config where
  plugin := [("provider.llm", [("instruction", .string "Be brief.")])]

theorem read_terse : readsTerse.read terseText = .ok terseRoot := by
  simp [readsTerse]

theorem fromToml_terse : AgentManifest.fromToml readsTerse terseText = .ok terse := by
  unfold AgentManifest.fromToml AgentManifest.fromStr
  rw [read_terse]
  rfl

/-- The provider is given an empty instruction. -/
theorem terse_loses_instruction : readsTerse.read terseText = .ok terseRoot ∧
    AgentManifest.fromToml readsTerse terseText = .ok terse ∧
      ¬SettingsPrecedence (some voiced) terseRoot terse := by
  refine ⟨read_terse, fromToml_terse, fun h => ?_⟩
  have hkey := h.provider "instruction"
  rw [get_mergeProviderSettings] at hkey
  simp [terse, declaredSetting, globalSetting, voiced, terseRoot, Toml.entries, SortedMap.last,
    SortedMap.get, Toml.toJson] at hkey

def styledText : String :=
  terseText ++ "instruction = \"Be kind.\"\nstyle = \"verse\"\n"

def styledRoot : TomlTable :=
  [("meta", .table [("name", .string "test")]),
    ("persona", .table [("provider", .string "provider.llm"), ("instruction", .string "Be kind."),
      ("style", .string "verse")])]

def styled : AgentManifest where
  metaInfo := ⟨"test", none⟩
  persona := ⟨"Be kind.", "provider.llm", none, [("style", .string "verse")]⟩
  caps := ⟨[], [], []⟩

def readsStyled : TomlText where
  read text := if text = styledText then .ok styledRoot else .error "expected another text"
  mismatch _ := "missing field"

def settled : Config where
  plugin := [("provider.llm", [("instruction", .string "Be brief."), ("style", .string "prose"),
    ("temperature", .string "low")])]

/-- What the manifest declares counts, and of the global config the rest. -/
theorem settingsPrecedence_iff_styled : SettingsPrecedence (some settled) styledRoot styled ∧
    (mergeProviderSettings (some settled) styled).get "style" = some (.string "verse") ∧
    (mergeProviderSettings (some settled) styled).get "instruction" = some (.string "Be kind.") ∧
    (mergeProviderSettings (some settled) styled).get "temperature" = some (.string "low") := by
  have hread : readsStyled.read styledText = .ok styledRoot := by
    simp [readsStyled]
  have hmanifest : AgentManifest.fromToml readsStyled styledText = .ok styled := by
    unfold AgentManifest.fromToml AgentManifest.fromStr
    rw [hread]
    rfl
  have hprecedence : SettingsPrecedence (some settled) styledRoot styled :=
    (settingsPrecedence_iff hread hmanifest).mpr (.inl rfl)
  exact ⟨hprecedence, hprecedence.provider "style", hprecedence.provider "instruction",
    hprecedence.provider "temperature"⟩

end Pan
