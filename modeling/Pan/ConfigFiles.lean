import Pan.Evaluation
import Pan.Expansion
import Pan.HostRules
import Pan.PathRules
import Pan.Precedence

namespace Pan

/-! ## The variables of a process -/

/-- The variables as `std::env::vars` lists them. -/
structure Variables where
  vars : List (String × String)
  nodup : (vars.map Prod.fst).Nodup
  named : "" ∉ vars.map Prod.fst

namespace Variables

variable {V V' : Variables}

/-- `std::env::var` -/
def get (V : Variables) (name : String) : Option String := V.vars.lookup name

theorem get_eq_some_iff {name value : String} :
    V.get name = some value ↔ (name, value) ∈ V.vars := by
  have hlookup : ∀ l : List (String × String), (l.map Prod.fst).Nodup →
      (l.lookup name = some value ↔ (name, value) ∈ l) := by
    intro l
    induction l with
    | nil => simp
    | cons p l ih =>
      intro hnodup
      obtain ⟨key, val⟩ := p
      obtain ⟨hkey, hl⟩ := List.nodup_cons.mp hnodup
      by_cases hname : name = key
      · subst hname
        have hnot : (name, value) ∉ l := fun h =>
          hkey (List.mem_map.mpr ⟨(name, value), h, rfl⟩)
        rw [List.lookup_cons_self, List.mem_cons, Option.some.injEq, Prod.mk.injEq]
        simp [hnot, eq_comm]
      · have hne : (name == key) = false := by simp [hname]
        rw [List.lookup_cons, hne, List.mem_cons, Prod.mk.injEq]
        simp [hname, ih hl]
  exact hlookup V.vars V.nodup

def environment (V : Variables) : Environment where
  get := V.get
  unnamed := by
    apply Option.eq_none_iff_forall_ne_some.mpr
    intro value h
    exact V.named (List.mem_map_of_mem (get_eq_some_iff.mp h))

theorem get_perm (h : V'.vars.Perm V.vars) : V'.get = V.get := by
  funext name
  ext value
  rw [get_eq_some_iff, get_eq_some_iff, h.mem_iff]

theorem environment_perm (h : V'.vars.Perm V.vars) : V'.environment = V.environment := by
  unfold environment
  simp only [get_perm h]

def reordered (V : Variables) (vars : List (String × String)) (h : vars.Perm V.vars) :
    Variables where
  vars := vars
  nodup := (h.map Prod.fst).nodup_iff.mpr V.nodup
  named := fun hmem => V.named ((h.map Prod.fst).mem_iff.mp hmem)

end Variables

/-! ## The config -/

inductive ConfigError where
  | io (path detail : String)
  | parse (path detail : String)

@[ext] structure PanConfig where
  pluginDirs : List String
  adminPort : ℕ
  logLevel : String

def defaultPluginDirs (V : Variables) : List String :=
  [joinPath (joinPath ((V.get "HOME").getD "/tmp") ".pan") "plugins"]

def defaultAdminPort : ℕ := 9090

def defaultLogLevel : String := "info"

def PanConfig.default (V : Variables) : PanConfig :=
  ⟨defaultPluginDirs V, defaultAdminPort, defaultLogLevel⟩

structure ConfigFile extends Config where
  pan : PanConfig
  imports : List String

def decodeU16 : Toml → Option ℕ
  | .integer i => if 0 ≤ i ∧ i ≤ 65535 then some i.toNat else none
  | _ => none

def PanConfig.decode (V : Variables) (v : Toml) : Option PanConfig := do
  if !v.isStruct then none
  return {
    pluginDirs := ← decodeOr (defaultPluginDirs V) decodeStrings (v.structField 0 "plugin_dirs")
    adminPort := ← decodeOr defaultAdminPort decodeU16 (v.structField 1 "admin_port")
    logLevel := ← decodeOr defaultLogLevel Toml.asStr (v.structField 2 "log_level") }

namespace ConfigFile

def decode (V : Variables) (root : TomlTable) : Option ConfigFile := do
  return {
    pan := ← decodeOr (PanConfig.default V) (PanConfig.decode V) (SortedMap.last "pan" root)
    plugin := ← decodeOr [] (decodeMap (decodeMap some)) (SortedMap.last "plugin" root)
    imports := ← decodeOr [] decodeStrings (SortedMap.last "import" root) }

/-- `toml::from_str`. -/
def fromStr (T : TomlText) (V : Variables) (text : String) : Except String ConfigFile :=
  match T.read text with
  | .error e => .error e
  | .ok root =>
    match decode V root with
    | some config => .ok config
    | none => .error (T.mismatch text)

end ConfigFile

/-! ## Overrides -/

section Override

variable (special : List Char → Char → List Char → List Char)

def PanConfig.override (c : PanConfig) (var : String × String) : PanConfig :=
  match Text.stripPrefix "PAN_" var.1 with
  | none => c
  | some rest =>
    let lower := toLowercase special rest
    let c := if lower = "plugin_dirs" ∨ lower = "plugindirs" then
        { c with pluginDirs := (var.2.toList.splitOn ':').map String.ofList }
      else c
    let c := if lower = "admin_port" ∨ lower = "adminport" then
        match parseU16 var.2.toList with
        | some port => { c with adminPort := port }
        -- a port that does not parse is left out
        | none => c
      else c
    if lower = "log_level" ∨ lower = "loglevel" then { c with logLevel := var.2 } else c

end Override

/-- `beyond` and `special` are the tables of what is not ASCII, `read` reads a file. -/
structure ConfigLoader where
  beyond : Char → Bool
  special : List Char → Char → List Char → List Char
  toml : TomlText
  read : String → Except String String

namespace ConfigLoader

variable (C : ConfigLoader)

def loadFile (V : Variables) (path : String) : Except ConfigError ConfigFile := do
  let raw ← (C.read path).mapError (.io path)
  (ConfigFile.fromStr C.toml V (expandEnvVars C.beyond V.environment raw)).mapError (.parse path)

def load (V : Variables) (path : String) : Except ConfigError ConfigFile := do
  let config ← C.loadFile V path
  return { config with pan := V.vars.foldl (PanConfig.override C.special) config.pan }

end ConfigLoader

/-! ## One setting -/

/-- A setting of the core: where it is found in a text, what it is by default, and by which
variables it is overridden, and how. -/
structure PanSetting (α : Type) where
  get : PanConfig → α
  place : ℕ
  key : String
  decode : Toml → Option α
  default : Variables → α
  names : List String
  parse : String → Option α

namespace PanSetting

def pluginDirs : PanSetting (List String) where
  get := PanConfig.pluginDirs
  place := 0
  key := "plugin_dirs"
  decode := decodeStrings
  default := defaultPluginDirs
  names := ["plugin_dirs", "plugindirs"]
  parse val := some ((val.toList.splitOn ':').map String.ofList)

def adminPort : PanSetting ℕ where
  get := PanConfig.adminPort
  place := 1
  key := "admin_port"
  decode := decodeU16
  default _ := defaultAdminPort
  names := ["admin_port", "adminport"]
  parse val := parseU16 val.toList

def logLevel : PanSetting String where
  get := PanConfig.logLevel
  place := 2
  key := "log_level"
  decode := Toml.asStr
  default _ := defaultLogLevel
  names := ["log_level", "loglevel"]
  parse val := some val

variable {α : Type} (s : PanSetting α) (special : List Char → Char → List Char → List Char)

def overriding (var : String × String) : Option α := do
  let rest ← Text.stripPrefix "PAN_" var.1
  if toLowercase special rest ∈ s.names then s.parse var.2 else none

def declared (root : TomlTable) : Option α := do
  s.decode (← (← SortedMap.last "pan" root).structField s.place s.key)

/-- The last variable that overrides the setting counts, or else `a`. -/
def overridden (V : Variables) (a : α) : α :=
  (V.vars.filterMap (s.overriding special)).getLast?.getD a

/-- Without such a variable the text counts, or else the default. -/
def settled (V : Variables) (root : TomlTable) : α :=
  s.overridden special V ((s.declared root).getD (s.default V))

/-- All variables that override the setting set it to the same. -/
def Agreed (V : Variables) : Prop :=
  ∀ a ∈ V.vars.filterMap (s.overriding special), ∀ b ∈ V.vars.filterMap (s.overriding special),
    a = b

/-- The setting is decoded and overridden as it is declared here. -/
structure Lawful : Prop where
  override : ∀ special c var,
    s.get (PanConfig.override special c var) = (s.overriding special var).getD (s.get c)
  decode : ∀ {V v c}, PanConfig.decode V v = some c →
    s.get c = ((v.structField s.place s.key).bind s.decode).getD (s.default V)
  default : ∀ V, s.get (PanConfig.default V) = s.default V

section Lawful

variable {s}

/-- The variables one after another. -/
theorem Lawful.get_foldl (hs : s.Lawful) (V : Variables) (c : PanConfig) :
    s.get (V.vars.foldl (PanConfig.override special) c) = s.overridden special V (s.get c) := by
  unfold overridden
  induction V.vars using List.reverseRecOn with
  | nil => rfl
  | append_singleton vars var ih =>
    rw [List.foldl_append, List.foldl_cons, List.foldl_nil, hs.override, ih,
      List.filterMap_append, List.getLast?_append]
    cases h : s.overriding special var <;> simp [h]

theorem getD_of_decodeOr {default : α} {decode : Toml → Option α} {field : Option Toml} {a : α}
    (h : decodeOr default decode field = some a) : a = (field.bind decode).getD default := by
  cases field with
  | none => exact (Option.some.inj h).symm
  | some v =>
    have hdecode : decode v = some a := h
    rw [Option.bind_some, hdecode]
    rfl

end Lawful

theorem override_eq (c : PanConfig) (var : String × String) :
    PanConfig.override special c var = ⟨(pluginDirs.overriding special var).getD c.pluginDirs,
      (adminPort.overriding special var).getD c.adminPort,
      (logLevel.overriding special var).getD c.logLevel⟩ := by
  unfold PanConfig.override overriding
  cases Text.stripPrefix "PAN_" var.1 with
  | none => rfl
  | some rest =>
    generalize hlower : toLowercase special rest = lower
    by_cases hdirs : lower = "plugin_dirs" ∨ lower = "plugindirs"
    · obtain rfl | rfl := hdirs <;> simp [pluginDirs, adminPort, logLevel, hlower]
    · by_cases hport : lower = "admin_port" ∨ lower = "adminport"
      · cases hparse : parseU16 var.2.toList <;> obtain rfl | rfl := hport <;>
          simp [pluginDirs, adminPort, logLevel, hlower, hparse]
      · simp [pluginDirs, adminPort, logLevel, hlower, hdirs, hport]
        split_ifs <;> rfl

theorem decode_eq_some {V : Variables} {v : Toml} {c : PanConfig}
    (h : PanConfig.decode V v = some c) :
    decodeOr (defaultPluginDirs V) decodeStrings (v.structField 0 "plugin_dirs") =
        some c.pluginDirs ∧
      decodeOr defaultAdminPort decodeU16 (v.structField 1 "admin_port") = some c.adminPort ∧
      decodeOr defaultLogLevel Toml.asStr (v.structField 2 "log_level") = some c.logLevel := by
  unfold PanConfig.decode at h
  have hstruct : (!v.isStruct) = false := by
    cases hv : v.isStruct
    · simp [hv] at h
    · rfl
  rw [hstruct] at h
  obtain ⟨dirs, hdirs, h⟩ := Option.bind_eq_some_iff.mp h
  obtain ⟨port, hport, h⟩ := Option.bind_eq_some_iff.mp h
  obtain ⟨level, hlevel, h⟩ := Option.bind_eq_some_iff.mp h
  cases h
  exact ⟨hdirs, hport, hlevel⟩

theorem pluginDirs_lawful : pluginDirs.Lawful where
  override special c var := by rw [override_eq]; rfl
  decode h := getD_of_decodeOr (decode_eq_some h).1
  default _ := rfl

theorem adminPort_lawful : adminPort.Lawful where
  override special c var := by rw [override_eq]; rfl
  decode h := getD_of_decodeOr (decode_eq_some h).2.1
  default _ := rfl

theorem logLevel_lawful : logLevel.Lawful where
  override special c var := by rw [override_eq]; rfl
  decode h := getD_of_decodeOr (decode_eq_some h).2.2
  default _ := rfl

end PanSetting

/-- In any order the last of the values is the same, if they are all the same. -/
theorem getLast_perm_iff {α β : Type} (g : β → Option α) (d : α) (l : List β) :
    (∀ l' : List β, l'.Perm l →
      (l'.filterMap g).getLast?.getD d = (l.filterMap g).getLast?.getD d) ↔
        ∀ a ∈ l.filterMap g, ∀ b ∈ l.filterMap g, a = b := by
  constructor
  · intro h
    -- each of the values can be brought to the end
    have hlast : ∀ a ∈ l.filterMap g, (l.filterMap g).getLast?.getD d = a := by
      intro a ha
      obtain ⟨x, hx, hxa⟩ := List.mem_filterMap.mp ha
      obtain ⟨l₁, l₂, rfl⟩ := List.append_of_mem hx
      have hperm : (l₁ ++ l₂ ++ [x]).Perm (l₁ ++ x :: l₂) := by
        rw [List.append_assoc]
        exact (List.perm_append_singleton x l₂).append_left l₁
      rw [← h _ hperm, List.filterMap_append]
      simp [hxa]
    intro a ha b hb
    rw [← hlast a ha, ← hlast b hb]
  · intro h l' hperm
    have hmem : ∀ a, a ∈ l'.filterMap g ↔ a ∈ l.filterMap g := fun a =>
      (hperm.filterMap g).mem_iff
    rcases hl : (l.filterMap g).getLast? with _ | a
    · rw [List.getLast?_eq_none_iff] at hl
      rw [(hl ▸ hperm.filterMap g : (l'.filterMap g).Perm []).eq_nil]
      rfl
    · have ha : a ∈ l.filterMap g := List.mem_of_getLast? hl
      rcases hl' : (l'.filterMap g).getLast? with _ | b
      · rw [List.getLast?_eq_none_iff] at hl'
        rw [← hmem, hl'] at ha
        cases ha
      · exact h b ((hmem b).mp (List.mem_of_getLast? hl')) a ha

/-! ## The whole config -/

/-- A map holds what is decoded out of its entries. -/
theorem get_of_decodeMap {α : Type} {decode : Toml → Option α} {v : Toml}
    {m : List (String × α)} (h : decodeMap decode v = some m) (key : String) :
    SortedMap.get key m = (v.entries.bind (SortedMap.last key)).bind decode := by
  have hentries : ∀ (entries : TomlTable) (l : List (String × α)),
      entries.mapM (fun p => (decode p.2).map fun a => (p.1, a)) = some l →
        l.map (fun q => (q.1, some q.2)) = entries.map fun p => (p.1, decode p.2) := by
    intro entries
    induction entries with
    | nil =>
      intro l hl
      cases hl
      rfl
    | cons p entries ih =>
      intro l hl
      rw [List.mapM_cons] at hl
      obtain ⟨q, hq, hl⟩ := Option.bind_eq_some_iff.mp hl
      obtain ⟨l, htail, hl⟩ := Option.bind_eq_some_iff.mp hl
      obtain ⟨a, ha, rfl⟩ := Option.map_eq_some_iff.mp hq
      cases hl
      rw [List.map_cons, List.map_cons, ih l htail, ha]
  obtain ⟨entries, hv, h⟩ := Option.bind_eq_some_iff.mp h
  obtain ⟨l, hl, h⟩ := Option.bind_eq_some_iff.mp h
  cases h
  have hlast := congrArg (SortedMap.last key) (hentries entries l hl)
  rw [SortedMap.last_map, SortedMap.last_map] at hlast
  rw [SortedMap.get_ofList, hv, Option.bind_some]
  cases hkey : SortedMap.last key entries with
  | none =>
    rw [hkey] at hlast
    exact Option.map_eq_none_iff.mp hlast
  | some v =>
    rw [hkey] at hlast
    obtain ⟨a, ha, hdecode⟩ := Option.map_eq_some_iff.mp hlast
    rw [ha, Option.bind_some, hdecode]

namespace ConfigLoader

variable {C : ConfigLoader} {V : Variables} {path : String} {root : TomlTable}

variable (C V path root) in
/-- The file can be read, and this is the table of its text. -/
def Reads : Prop :=
  ∃ raw, C.read path = .ok raw ∧
    C.toml.read (expandEnvVars C.beyond V.environment raw) = .ok root

theorem loadFile_eq_ok {file : ConfigFile} : C.loadFile V path = .ok file ↔
    ∃ root, C.Reads V path root ∧ ConfigFile.decode V root = some file := by
  unfold loadFile Reads
  cases hread : C.read path with
  | error e => simp [Except.mapError, bind, Except.bind]
  | ok raw =>
    simp only [Except.mapError, bind, Except.bind, ConfigFile.fromStr]
    cases htoml : C.toml.read (expandEnvVars C.beyond V.environment raw) with
    | error e => simp [htoml]
    | ok root =>
      cases hdecode : ConfigFile.decode V root <;> simp [htoml, hdecode]

def overridden (C : ConfigLoader) (V : Variables) (file : ConfigFile) : ConfigFile :=
  { file with pan := V.vars.foldl (PanConfig.override C.special) file.pan }

theorem load_eq : C.load V path = (C.loadFile V path).map (C.overridden V) := by
  unfold load
  cases C.loadFile V path <;> rfl

/-- A setting is what is settled for it. -/
theorem get_overridden {α : Type} {s : PanSetting α} (hs : s.Lawful) {file : ConfigFile}
    (h : ConfigFile.decode V root = some file) :
    s.get (C.overridden V file).pan = s.settled C.special V root := by
  obtain ⟨pan, hpan, h⟩ := Option.bind_eq_some_iff.mp h
  obtain ⟨plugin, hplugin, h⟩ := Option.bind_eq_some_iff.mp h
  obtain ⟨imports, himports, h⟩ := Option.bind_eq_some_iff.mp h
  cases h
  have hfile : s.get pan = (s.declared root).getD (s.default V) := by
    unfold PanSetting.declared
    cases hroot : SortedMap.last "pan" root with
    | none =>
      rw [hroot] at hpan
      obtain rfl : PanConfig.default V = pan := Option.some.inj hpan
      rw [hs.default]
      rfl
    | some v =>
      rw [hroot] at hpan
      exact hs.decode hpan
  change s.get (V.vars.foldl (PanConfig.override C.special) pan) = _
  rw [hs.get_foldl, hfile]
  rfl

/-- What the assembly sees of a plugin is what the text declares for it. -/
theorem globalSetting_overridden {file : ConfigFile} (h : ConfigFile.decode V root = some file)
    (id key : String) : globalSetting (some (C.overridden V file).toConfig) id key =
      ((((SortedMap.last "plugin" root).bind Toml.entries).bind (SortedMap.last id)).bind
        Toml.entries).bind (SortedMap.last key) := by
  obtain ⟨pan, hpan, h⟩ := Option.bind_eq_some_iff.mp h
  obtain ⟨plugin, hplugin, h⟩ := Option.bind_eq_some_iff.mp h
  obtain ⟨imports, himports, h⟩ := Option.bind_eq_some_iff.mp h
  cases h
  have hget : SortedMap.get id plugin = (((SortedMap.last "plugin" root).bind Toml.entries).bind
      (SortedMap.last id)).bind (decodeMap some) := by
    cases hroot : SortedMap.last "plugin" root with
    | none =>
      rw [hroot] at hplugin
      obtain rfl : [] = plugin := Option.some.inj hplugin
      rfl
    | some v =>
      rw [hroot] at hplugin
      exact get_of_decodeMap hplugin id
  change (SortedMap.get id plugin).bind (SortedMap.last key) = _
  rw [hget]
  cases (((SortedMap.last "plugin" root).bind Toml.entries).bind (SortedMap.last id)) with
  | none => rfl
  | some v =>
    rw [Option.bind_some, Option.bind_some, decodeMap_some]
    cases v.entries with
    | none => rfl
    | some entries =>
      change SortedMap.last key (SortedMap.ofList entries) = SortedMap.last key entries
      rw [SortedMap.last_of_ascending (SortedMap.ascending_ofList _), SortedMap.get_ofList]

/-! ## The order of the variables -/

section Order

variable {V' : Variables} (h : V'.vars.Perm V.vars)

include h

theorem loadFile_perm : C.loadFile V' path = C.loadFile V path := by
  have hdirs : defaultPluginDirs V' = defaultPluginDirs V := by
    unfold defaultPluginDirs
    rw [Variables.get_perm h]
  have hpan : PanConfig.decode V' = PanConfig.decode V := by
    funext v
    unfold PanConfig.decode
    rw [hdirs]
  have hdecode : ConfigFile.decode V' = ConfigFile.decode V := by
    funext root
    unfold ConfigFile.decode PanConfig.default
    rw [hpan, hdirs]
  unfold loadFile ConfigFile.fromStr
  rw [Variables.environment_perm h, hdecode]

end Order

/-- All that the variables can change. -/
theorem overridden_eq (V : Variables) (file : ConfigFile) : C.overridden V file =
    { file with pan := ⟨PanSetting.pluginDirs.overridden C.special V file.pan.pluginDirs,
      PanSetting.adminPort.overridden C.special V file.pan.adminPort,
      PanSetting.logLevel.overridden C.special V file.pan.logLevel⟩ } := by
  have hdirs := PanSetting.pluginDirs_lawful.get_foldl C.special V file.pan
  have hport := PanSetting.adminPort_lawful.get_foldl C.special V file.pan
  have hlevel := PanSetting.logLevel_lawful.get_foldl C.special V file.pan
  have hpan : V.vars.foldl (PanConfig.override C.special) file.pan =
      ⟨PanSetting.pluginDirs.overridden C.special V file.pan.pluginDirs,
        PanSetting.adminPort.overridden C.special V file.pan.adminPort,
        PanSetting.logLevel.overridden C.special V file.pan.logLevel⟩ :=
    PanConfig.ext hdirs hport hlevel
  unfold overridden
  rw [hpan]

theorem load_eq_ok {c : ConfigFile} : C.load V path = .ok c ↔
    ∃ file, C.loadFile V path = .ok file ∧ C.overridden V file = c := by
  rw [load_eq]
  cases C.loadFile V path <;> simp [Except.map]

end ConfigLoader

theorem PanSetting.overridden_perm_iff {α : Type} (s : PanSetting α)
    (special : List Char → Char → List Char → List Char) (V : Variables) (a : α) :
    (∀ V' : Variables, V'.vars.Perm V.vars → s.overridden special V' a =
      s.overridden special V a) ↔ s.Agreed special V := by
  unfold Agreed
  rw [← getLast_perm_iff _ a]
  constructor
  · intro h l' hperm
    exact h (V.reordered l' hperm) hperm
  · intro h V' hperm
    exact h V'.vars hperm

open PanSetting in
/-- In a config that has been loaded, each setting of the core is what the last variable that
overrides it says, or else the file, or else the default, and the settings of the plugins are those
of the file alone. It makes no difference in which order the process lists its variables if and only
if those that override one setting agree on it, or there is nothing to load. -/
theorem config_settles (C : ConfigLoader) (V : Variables) (path : String) :
    (∀ c, C.load V path = .ok c → ∃ root, C.Reads V path root ∧
      c.pan.pluginDirs = pluginDirs.settled C.special V root ∧
      c.pan.adminPort = adminPort.settled C.special V root ∧
      c.pan.logLevel = logLevel.settled C.special V root ∧
      ∀ id key, globalSetting (some c.toConfig) id key =
        ((((SortedMap.last "plugin" root).bind Toml.entries).bind (SortedMap.last id)).bind
          Toml.entries).bind (SortedMap.last key)) ∧
    ((∀ V' : Variables, V'.vars.Perm V.vars → C.load V' path = C.load V path) ↔
      ∀ c, C.load V path = .ok c → pluginDirs.Agreed C.special V ∧
        adminPort.Agreed C.special V ∧ logLevel.Agreed C.special V) := by
  constructor
  · intro c hc
    obtain ⟨file, hfile, rfl⟩ := ConfigLoader.load_eq_ok.mp hc
    obtain ⟨root, hreads, hdecode⟩ := ConfigLoader.loadFile_eq_ok.mp hfile
    exact ⟨root, hreads, ConfigLoader.get_overridden pluginDirs_lawful hdecode,
      ConfigLoader.get_overridden adminPort_lawful hdecode,
      ConfigLoader.get_overridden logLevel_lawful hdecode,
      ConfigLoader.globalSetting_overridden hdecode⟩
  · cases hfile : C.loadFile V path with
    | error e =>
      have herror : ∀ V' : Variables, V'.vars.Perm V.vars → C.load V' path = .error e := by
        intro V' h
        rw [ConfigLoader.load_eq, ConfigLoader.loadFile_perm h, hfile]
        rfl
      have hload : C.load V path = .error e := herror V (.refl _)
      refine iff_of_true (fun V' h => ?_) fun c hc => ?_
      · rw [herror V' h, hload]
      · rw [hload] at hc
        cases hc
    | ok file =>
      -- the file is the same in every order, so the order shows in the overridden settings alone
      have hload : ∀ V' : Variables, V'.vars.Perm V.vars →
          C.load V' path = .ok (C.overridden V' file) := by
        intro V' h
        rw [ConfigLoader.load_eq, ConfigLoader.loadFile_perm h, hfile]
        rfl
      have hagreed := (pluginDirs.overridden_perm_iff C.special V file.pan.pluginDirs).and
        ((adminPort.overridden_perm_iff C.special V file.pan.adminPort).and
          (logLevel.overridden_perm_iff C.special V file.pan.logLevel))
      have hsame : ∀ V' : Variables, V'.vars.Perm V.vars →
          (C.load V' path = C.load V path ↔
            pluginDirs.overridden C.special V' file.pan.pluginDirs =
              pluginDirs.overridden C.special V file.pan.pluginDirs ∧
            adminPort.overridden C.special V' file.pan.adminPort =
              adminPort.overridden C.special V file.pan.adminPort ∧
            logLevel.overridden C.special V' file.pan.logLevel =
              logLevel.overridden C.special V file.pan.logLevel) := by
        intro V' h
        rw [hload V' h, hload V (.refl _), ConfigLoader.overridden_eq, ConfigLoader.overridden_eq]
        simp
      constructor
      · intro h c hc
        have heqs := fun V' h' => (hsame V' h').mp (h V' h')
        exact hagreed.mp ⟨fun V' h' => (heqs V' h').1, fun V' h' => (heqs V' h').2.1,
          fun V' h' => (heqs V' h').2.2⟩
      · intro h V' h'
        obtain ⟨hdirs, hport, hlevel⟩ := hagreed.mpr (h _ (hload V (.refl _)))
        exact (hsame V' h').mpr ⟨hdirs V' h', hport V' h', hlevel V' h'⟩

def twoPorts : Variables where
  vars := [("HOME", "/root"), ("PAN_ADMIN_PORT", "8080"), ("PAN_ADMINPORT", "9000")]
  nodup := by decide
  named := by decide

def debugText : String := "[pan]\nlog_level = \"debug\"\n"

def debugConfig : ConfigLoader where
  beyond _ := false
  special _ c _ := [c]
  toml := {
    read := fun text =>
      if text = debugText then .ok [("pan", .table [("log_level", .string "debug")])]
      else .error "expected an equals"
    mismatch := fun _ => "invalid type" }
  read _ := .ok debugText

theorem reads_debugText {root : TomlTable} (h : debugConfig.Reads twoPorts "pan.toml" root) :
    root = [("pan", .table [("log_level", .string "debug")])] := by
  obtain ⟨raw, hraw, hread⟩ := h
  obtain rfl : debugText = raw := Except.ok.inj hraw
  have hexpand : expandEnvVars debugConfig.beyond twoPorts.environment debugText = debugText := by
    rfl
  rw [hexpand] at hread
  exact (Except.ok.inj hread).symm

/-- The last variable counts, and listed in the other order they give another config. -/
theorem config_settles_ports :
    (∃ c, debugConfig.load twoPorts "pan.toml" = .ok c ∧
      c.pan.pluginDirs = ["/root/.pan/plugins"] ∧ c.pan.adminPort = 9000 ∧
      c.pan.logLevel = "debug") ∧
    ∃ V' : Variables, V'.vars.Perm twoPorts.vars ∧
      debugConfig.load V' "pan.toml" ≠ debugConfig.load twoPorts "pan.toml" := by
  have hsettles := config_settles debugConfig twoPorts "pan.toml"
  obtain ⟨c, hload⟩ : ∃ c, debugConfig.load twoPorts "pan.toml" = .ok c := ⟨_, rfl⟩
  constructor
  · obtain ⟨root, hreads, hdirs, hport, hlevel, -⟩ := hsettles.1 c hload
    obtain rfl := reads_debugText hreads
    exact ⟨c, hload, hdirs, hport, hlevel⟩
  · by_contra! h
    have hagreed := (hsettles.2.mp h c hload).2.1
    have heq : 8080 = 9000 := hagreed 8080 (by decide) 9000 (by decide)
    omega

end Pan
