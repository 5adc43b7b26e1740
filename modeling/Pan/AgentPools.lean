import Pan.DelegatedGrants
import Pan.Discovery
import Pan.Library.Collect
import Pan.Precedence

namespace Pan

/-- The directory of the agents, as the loading of a pool sees it. -/
structure AgentsDir where
  path : String
  dirExists : Bool
  readDir : Except String (List (Except String DirEntry))
  readToString : String → Except String String

def AgentManifest.load (T : TomlText) (D : AgentsDir) (path : String) :
    Except ManifestError AgentManifest := do
  let text ← (D.readToString path).mapError .io
  AgentManifest.fromToml T text

namespace AgentPool

variable {W : Type} (T : TomlText) (registry : ComponentRegistry W) (global : Option Config)
  (D : AgentsDir)

/-- What one entry of the directory does to the agents that are loaded. -/
def loadEntry (agents : List (String × AssembledAgent W)) (entry : Except String DirEntry) :
    Except String (List (String × AssembledAgent W)) := do
  let entry ← entry.mapError fun e => s!"entry: {e}"
  if entry.extension = some "toml" then
    let path := joinPath D.path entry.name
    let manifest ← (AgentManifest.load T D path).mapError fun e => s!"{path}: {e.text}"
    if isBlank manifest.metaInfo.name then
      -- a blank name is passed over too, though no manifest that validates has one
      return agents
    else
      let name := manifest.metaInfo.name
      match assembleWithConfig manifest registry global with
      -- a manifest that cannot be assembled is logged and passed over
      | .error _ => return agents
      | .ok agent =>
        if (SortedMap.get name agents).isSome then throw s!"duplicate agent name `{name}` in pool"
        else return SortedMap.insert name agent agents
  else
    return agents

def loadWithConfig : Except String (AgentPool W) :=
  if D.dirExists then do
    let entries ← D.readDir.mapError fun e => s!"read_dir: {e}"
    let agents ← entries.foldlM (loadEntry T registry global D) []
    if agents.isEmpty then throw "no agents loaded (no valid Agent.toml files found)"
    else return ⟨agents, some D.path⟩
  else
    .error s!"agents directory not found: {D.path}"

/-! ## What an entry brings -/

/-- The entry can be read, and if it is a `.toml` file, it is a manifest. -/
def Readable (entry : Except String DirEntry) : Prop :=
  ∃ e, entry = .ok e ∧ (e.extension = some "toml" →
    ∃ manifest, AgentManifest.load T D (joinPath D.path e.name) = .ok manifest)

/-- The entry is a manifest of this name, from which this agent is assembled. -/
def Serves (entry : Except String DirEntry) (name : String) (agent : AssembledAgent W) : Prop :=
  ∃ e manifest, entry = .ok e ∧ e.extension = some "toml" ∧
    AgentManifest.load T D (joinPath D.path e.name) = .ok manifest ∧
    manifest.metaInfo.name = name ∧ assembleWithConfig manifest registry global = .ok agent

def served (entry : Except String DirEntry) : Option (String × AssembledAgent W) := do
  let e ← entry.toOption
  guard (e.extension = some "toml")
  let manifest ← (AgentManifest.load T D (joinPath D.path e.name)).toOption
  let agent ← (assembleWithConfig manifest registry global).toOption
  return (manifest.metaInfo.name, agent)

variable {T registry global D}

/-- A manifest that is loaded has a name. -/
theorem isBlank_of_load {path : String} {manifest : AgentManifest}
    (h : AgentManifest.load T D path = .ok manifest) : isBlank manifest.metaInfo.name = false := by
  obtain ⟨text, -, h⟩ := Fallible.exists_of_bind_eq_ok h
  obtain ⟨manifest', -, h⟩ := Fallible.exists_of_bind_eq_ok h
  obtain ⟨u, hvalid, h⟩ := Fallible.exists_of_bind_eq_ok h
  obtain rfl : manifest' = manifest := Except.ok.inj h
  by_contra hblank
  unfold AgentManifest.validate at hvalid
  rw [if_pos (Bool.eq_true_of_not_eq_false hblank)] at hvalid
  cases hvalid

theorem served_eq_some_iff {entry : Except String DirEntry} {name : String}
    {agent : AssembledAgent W} : served T registry global D entry = some (name, agent) ↔
      Serves T registry global D entry name agent := by
  unfold served Serves
  cases entry with
  | error e => simp [Except.toOption]
  | ok e =>
    by_cases hext : e.extension = some "toml"
    · cases hload : AgentManifest.load T D (joinPath D.path e.name) with
      | error err => simp [Except.toOption, hext, hload]
      | ok manifest =>
        cases hagent : assembleWithConfig manifest registry global with
        | error err => simp [Except.toOption, hext, hload, hagent]
        | ok agent' => simp [Except.toOption, hext, hload, hagent]
    · simp [Except.toOption, hext]

/-- All that an entry can do: it is read, and the agent that it serves, if it serves one, is added
under a name that is new. -/
theorem loadEntry_eq_ok_iff {agents agents' : List (String × AssembledAgent W)}
    {entry : Except String DirEntry} :
    loadEntry T registry global D agents entry = .ok agents' ↔ Readable T D entry ∧
      (∀ p ∈ served T registry global D entry, SortedMap.get p.1 agents = none) ∧
      agents' = (served T registry global D entry).toList.foldl
        (fun m p => SortedMap.insert p.1 p.2 m) agents := by
  cases entry with
  | error e =>
    have hread : ¬Readable T D (.error e) := by
      rintro ⟨e', h, -⟩
      cases h
    exact iff_of_false (fun h => by cases h) fun h => hread h.1
  | ok e =>
    by_cases hext : e.extension = some "toml"
    · -- a manifest that cannot be read ends the loading, one that is not assembled is passed over
      cases hload : AgentManifest.load T D (joinPath D.path e.name) with
      | error err =>
        have hread : ¬Readable T D (.ok e) := by
          rintro ⟨e', h, hmanifest⟩
          obtain rfl := Except.ok.inj h
          obtain ⟨manifest, hmanifest⟩ := hmanifest hext
          rw [hload] at hmanifest
          cases hmanifest
        have hentry : loadEntry T registry global D agents (.ok e) =
            .error s!"{joinPath D.path e.name}: {err.text}" := by
          simp [loadEntry, Except.mapError, bind, Except.bind, hext, hload]
        rw [hentry]
        exact iff_of_false (fun h => by cases h) fun h => hread h.1
      | ok manifest =>
        have hread : Readable T D (.ok e) := ⟨e, rfl, fun _ => ⟨manifest, hload⟩⟩
        have hname : isBlank manifest.metaInfo.name = false := isBlank_of_load hload
        cases hagent : assembleWithConfig manifest registry global with
        | error err =>
          have hserved : served T registry global D (.ok e) = none := by
            simp [served, Except.toOption, hext, hload, hagent]
          have hentry : loadEntry T registry global D agents (.ok e) = .ok agents := by
            simp [loadEntry, Except.mapError, bind, Except.bind, hext, hload, hname, hagent, pure,
              Except.pure]
          rw [hentry, hserved]
          simp [hread, eq_comm]
        | ok agent =>
          have hserved : served T registry global D (.ok e) =
              some (manifest.metaInfo.name, agent) := by
            simp [served, Except.toOption, hext, hload, hagent]
          have hentry : loadEntry T registry global D agents (.ok e) =
              if (SortedMap.get manifest.metaInfo.name agents).isSome then
                .error s!"duplicate agent name `{manifest.metaInfo.name}` in pool"
              else .ok (SortedMap.insert manifest.metaInfo.name agent agents) := by
            simp [loadEntry, Except.mapError, bind, Except.bind, hext, hload, hname, hagent, pure,
              Except.pure, throw, throwThe, MonadExceptOf.throw]
          rw [hentry, hserved]
          by_cases htaken : (SortedMap.get manifest.metaInfo.name agents).isSome
          · rw [if_pos htaken]
            obtain ⟨agent', htaken⟩ := Option.isSome_iff_exists.mp htaken
            simp [htaken]
          · rw [if_neg htaken]
            simp [hread, Option.not_isSome_iff_eq_none.mp htaken, eq_comm]
    · have hread : Readable T D (.ok e) := ⟨e, rfl, fun h => absurd h hext⟩
      have hserved : served T registry global D (.ok e) = none := by
        simp [served, Except.toOption, hext]
      have hentry : loadEntry T registry global D agents (.ok e) = .ok agents := by
        simp [loadEntry, Except.mapError, bind, Except.bind, hext, pure, Except.pure]
      rw [hentry, hserved]
      simp [hread, eq_comm]

/-! ## What a directory brings -/

/-- A directory is loaded exactly if all its entries are read and the names that are served are new
and distinct. -/
theorem foldlM_loadEntry_eq_ok_iff {entries : List (Except String DirEntry)}
    {agents agents' : List (String × AssembledAgent W)} :
    entries.foldlM (loadEntry T registry global D) agents = .ok agents' ↔
      (∀ entry ∈ entries, Readable T D entry) ∧
      ((entries.filterMap (served T registry global D)).map Prod.fst).Nodup ∧
      (∀ p ∈ entries.filterMap (served T registry global D), SortedMap.get p.1 agents = none) ∧
      agents' = (entries.filterMap (served T registry global D)).foldl
        (fun m p => SortedMap.insert p.1 p.2 m) agents := by
  induction entries generalizing agents with
  | nil => simp [pure, Except.pure, eq_comm]
  | cons entry entries ih =>
    have hfirst : (entry :: entries).foldlM (loadEntry T registry global D) agents = .ok agents' ↔
        ∃ first, loadEntry T registry global D agents entry = .ok first ∧
          entries.foldlM (loadEntry T registry global D) first = .ok agents' := by
      rw [List.foldlM_cons]
      constructor
      · exact Fallible.exists_of_bind_eq_ok
      · rintro ⟨first, hentry, hrest⟩
        rw [hentry]
        exact hrest
    rw [hfirst]
    simp only [loadEntry_eq_ok_iff, ih]
    cases hserved : served T registry global D entry with
    | none => simp [hserved, and_assoc]
    | some p =>
      -- the name that has just been added is taken for those that come after it
      have hget : ∀ q : String × AssembledAgent W,
          SortedMap.get q.1 (SortedMap.insert p.1 p.2 agents) = none ↔
            q.1 ≠ p.1 ∧ SortedMap.get q.1 agents = none := by
        intro q
        rw [SortedMap.get_insert]
        by_cases hq : q.1 = p.1 <;> simp [hq]
      simp only [List.filterMap_cons, hserved, Option.toList_some, List.foldl_cons, List.foldl_nil,
        Option.mem_some_iff, forall_eq', List.map_cons, List.nodup_cons, List.forall_mem_cons]
      constructor
      · rintro ⟨first, ⟨hread, hnew, rfl⟩, hreads, hnodup, hnews, rfl⟩
        refine ⟨⟨hread, hreads⟩, ⟨fun hmem => ?_, hnodup⟩, ⟨hnew, fun q hq => ?_⟩, rfl⟩
        · obtain ⟨q, hq, hkey⟩ := List.mem_map.mp hmem
          exact ((hget q).mp (hnews q hq)).1 hkey
        · exact ((hget q).mp (hnews q hq)).2
      · rintro ⟨⟨hread, hreads⟩, ⟨hnotMem, hnodup⟩, ⟨hnew, hnews⟩, rfl⟩
        refine ⟨_, ⟨hread, hnew, rfl⟩, hreads, hnodup, fun q hq => ?_, rfl⟩
        refine (hget q).mpr ⟨fun hkey => hnotMem ?_, hnews q hq⟩
        exact hkey ▸ List.mem_map_of_mem hq

variable (T registry global D) in
/-- No two entries serve one name. -/
def Distinct (entries : List (Except String DirEntry)) : Prop :=
  entries.Pairwise fun entry entry' => ∀ name (agent agent' : AssembledAgent W),
    Serves T registry global D entry name agent → ¬Serves T registry global D entry' name agent'

theorem nodup_served_iff {entries : List (Except String DirEntry)} :
    ((entries.filterMap (served T registry global D)).map Prod.fst).Nodup ↔
      Distinct T registry global D entries := by
  rw [List.Nodup, List.pairwise_map, List.pairwise_filterMap]
  refine iff_of_eq (congrArg (List.Pairwise · entries) ?_)
  funext entry entry'
  apply propext
  constructor
  · intro h name agent agent' hserves hserves'
    exact h _ (served_eq_some_iff.mpr hserves) _ (served_eq_some_iff.mpr hserves') rfl
  · rintro h ⟨name, agent⟩ hserved ⟨name', agent'⟩ hserved' rfl
    exact h _ _ _ (served_eq_some_iff.mp hserved) (served_eq_some_iff.mp hserved')

theorem mem_served_iff {entries : List (Except String DirEntry)} {name : String}
    {agent : AssembledAgent W} :
    (name, agent) ∈ entries.filterMap (served T registry global D) ↔
      ∃ entry ∈ entries, Serves T registry global D entry name agent := by
  rw [List.mem_filterMap]
  exact exists_congr fun entry => and_congr_right fun _ => served_eq_some_iff

/-- All that the loading of a pool can bring. -/
theorem loadWithConfig_eq_ok_iff {pool : AgentPool W} :
    loadWithConfig T registry global D = .ok pool ↔ D.dirExists = true ∧ ∃ entries,
      D.readDir = .ok entries ∧ (∀ entry ∈ entries, Readable T D entry) ∧
      ((entries.filterMap (served T registry global D)).map Prod.fst).Nodup ∧
      entries.filterMap (served T registry global D) ≠ [] ∧
      pool = ⟨SortedMap.ofList (entries.filterMap (served T registry global D)),
        some D.path⟩ := by
  unfold loadWithConfig
  by_cases hdir : D.dirExists = true
  · rw [if_pos hdir]
    cases hentries : D.readDir with
    | error e => simp [Except.mapError, bind, Except.bind]
    | ok entries =>
      -- what is left of the body once the directory has been listed
      have hload : (do
          let entries ← (Except.ok entries : Except String _).mapError fun e => s!"read_dir: {e}"
          let agents ← entries.foldlM (loadEntry T registry global D) []
          if agents.isEmpty then throw "no agents loaded (no valid Agent.toml files found)"
          else return (⟨agents, some D.path⟩ : AgentPool W)) = .ok pool ↔
          ∃ agents, entries.foldlM (loadEntry T registry global D) [] = .ok agents ∧
            agents ≠ [] ∧ pool = ⟨agents, some D.path⟩ := by
        constructor
        · intro h
          obtain ⟨agents, hagents, h⟩ := Fallible.exists_of_bind_eq_ok (x := entries.foldlM
            (loadEntry T registry global D) []) h
          change (if agents.isEmpty then _ else _) = _ at h
          by_cases hempty : agents.isEmpty = true
          · rw [if_pos hempty] at h
            cases h
          · rw [if_neg hempty] at h
            exact ⟨agents, hagents, mt List.isEmpty_iff.mpr hempty, (Except.ok.inj h).symm⟩
        · rintro ⟨agents, hagents, hne, rfl⟩
          have hempty : ¬agents.isEmpty = true := mt List.isEmpty_iff.mp hne
          change (entries.foldlM (loadEntry T registry global D) [] >>= fun agents =>
            if agents.isEmpty then _ else _) = _
          rw [hagents]
          exact if_neg hempty
      rw [hload]
      constructor
      · rintro ⟨agents, hagents, hne, rfl⟩
        obtain ⟨hread, hnodup, -, rfl⟩ := foldlM_loadEntry_eq_ok_iff.mp hagents
        exact ⟨hdir, entries, rfl, hread, hnodup, mt SortedMap.ofList_eq_nil_iff.mpr hne, rfl⟩
      · rintro ⟨-, entries', hentries', hread, hnodup, hne, rfl⟩
        obtain rfl := Except.ok.inj hentries'
        exact ⟨_, foldlM_loadEntry_eq_ok_iff.mpr ⟨hread, hnodup, by simp, rfl⟩,
          mt SortedMap.ofList_eq_nil_iff.mp hne, rfl⟩
  · rw [if_neg hdir]
    exact iff_of_false (fun h => by cases h) fun h => hdir h.1

/-- A pool is loaded exactly if the directory is there and can be listed, all its entries can be
read, all its `.toml` files are manifests, no two of the agents that are assembled share a name, and
there is at least one; then the pool holds these agents and no others. A manifest that cannot be
assembled is passed over. The directory in another order brings the same pool, or none again. -/
theorem loadWithConfig_exact :
    (∀ pool : AgentPool W, loadWithConfig T registry global D = .ok pool ↔ D.dirExists = true ∧
      ∃ entries, D.readDir = .ok entries ∧ (∀ entry ∈ entries, Readable T D entry) ∧
        Distinct T registry global D entries ∧
        (∃ entry ∈ entries, ∃ name agent, Serves T registry global D entry name agent) ∧
        pool.sourceDir = some D.path ∧ SortedMap.Ascending pool.agents ∧
        ∀ name agent, SortedMap.get name pool.agents = some agent ↔
          ∃ entry ∈ entries, Serves T registry global D entry name agent) ∧
    ∀ entries entries', D.readDir = .ok entries → entries.Perm entries' →
      (loadWithConfig T registry global { D with readDir := .ok entries' }).toOption =
        (loadWithConfig T registry global D).toOption := by
  constructor
  · intro pool
    rw [loadWithConfig_eq_ok_iff]
    refine and_congr_right fun hdir => exists_congr fun entries => and_congr_right fun hentries =>
      and_congr_right fun hread => ?_
    have hsome : entries.filterMap (served T registry global D) ≠ [] ↔
        ∃ entry ∈ entries, ∃ name agent, Serves T registry global D entry name agent := by
      constructor
      · intro hne
        obtain ⟨⟨name, agent⟩, hmem⟩ := List.exists_mem_of_ne_nil _ hne
        obtain ⟨entry, hentry, hserves⟩ := mem_served_iff.mp hmem
        exact ⟨entry, hentry, name, agent, hserves⟩
      · rintro ⟨entry, hentry, name, agent, hserves⟩
        exact List.ne_nil_of_mem (mem_served_iff.mpr ⟨entry, hentry, hserves⟩)
    rw [nodup_served_iff, hsome]
    refine and_congr_right fun hdistinct => and_congr_right fun _ => ?_
    have hnodup := nodup_served_iff.mpr hdistinct
    constructor
    · rintro rfl
      refine ⟨rfl, SortedMap.ascending_ofList _, fun name agent => ?_⟩
      rw [SortedMap.get_ofList_eq_some_iff hnodup, mem_served_iff]
    · rintro ⟨hsource, hascending, hget⟩
      obtain ⟨agents, source⟩ := pool
      obtain rfl : source = some D.path := hsource
      refine congrArg (AgentPool.mk · _) (SortedMap.ext_of_get hascending
        (SortedMap.ascending_ofList _) fun name => ?_)
      ext agent
      rw [hget, SortedMap.get_ofList_eq_some_iff hnodup, mem_served_iff]
  · intro entries entries' hentries hperm
    -- what is served in another order are the same agents, and their names are distinct
    have hserved := hperm.filterMap (served T registry global D)
    apply Collect.toOption_congr
    intro pool
    rw [loadWithConfig_eq_ok_iff, loadWithConfig_eq_ok_iff]
    refine and_congr_right fun hdir => ?_
    constructor
    · rintro ⟨es, hes, hread, hnodup, hne, rfl⟩
      obtain rfl := Except.ok.inj hes
      refine ⟨entries, hentries, fun entry hentry => hread entry (hperm.subset hentry),
        (hserved.map Prod.fst).nodup_iff.mpr hnodup, fun hnil => hne ?_, ?_⟩
      · exact List.perm_nil.mp (hnil ▸ hserved.symm)
      · exact congrArg (AgentPool.mk · _) (SortedMap.ofList_perm hserved.symm hnodup)
    · rintro ⟨es, hes, hread, hnodup, hne, rfl⟩
      obtain rfl := Except.ok.inj (hentries.symm.trans hes)
      refine ⟨entries', rfl, fun entry hentry => hread entry (hperm.symm.subset hentry),
        (hserved.map Prod.fst).nodup_iff.mp hnodup, fun hnil => hne ?_, ?_⟩
      · exact List.perm_nil.mp (hnil ▸ hserved)
      · exact congrArg (AgentPool.mk · _) (SortedMap.ofList_perm hserved hnodup)

end AgentPool

end Pan
