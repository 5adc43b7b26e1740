import Pan.Library.Collect
import Pan.PluginManager

namespace Pan

open Eff

/-! ## The plugins of the directories -/

def entryPlugins (host : Host) (dir : String) (entry : Except String DirEntry) :
    Except PlugindError (List WasmPlugin) := do
  let entry ← entry.mapError (.discoveryIo dir)
  if entry.extension = some "wasm" then
    let manifest ← manifestFor host dir entry
    let plugin ← WasmPlugin.load host (joinPath dir entry.name) manifest
    return [plugin]
  else
    return []

def dirPlugins (host : Host) (dir : String) : Except PlugindError (List WasmPlugin) :=
  match host.readDir dir with
  | .error .notFound => .ok []
  | .error (.other detail) => .error (.discoveryIo dir detail)
  | .ok entries => entries.flatMapM (entryPlugins host dir)

def Host.plugins (host : Host) (dirs : List String) : Except PlugindError (List WasmPlugin) :=
  dirs.flatMapM (dirPlugins host)

/-- The capabilities that plugins declare, each with the name of its plugin. -/
def declarations (ps : List WasmPlugin) : List (String × String) :=
  ps.flatMap fun p => p.manifest.capabilities.provides.map fun cap => (cap, p.id)

def Discovered.with (d : Discovered) (ps : List WasmPlugin) : Discovered where
  plugins := d.plugins ++ ps
  capabilityIndex := (declarations ps).foldl (fun m c => SortedMap.insert c.1 c.2 m)
    d.capabilityIndex

theorem discoverEntry_eq (host : Host) (dir : String) (d : Discovered)
    (entry : Except String DirEntry) :
    discoverEntry host dir d entry = (entryPlugins host dir entry).map d.with := by
  unfold discoverEntry entryPlugins
  cases entry with
  | error detail => rfl
  | ok entry =>
    simp only [Except.mapError, bind, Except.bind]
    split_ifs
    · cases manifestFor host dir entry with
      | error e => rfl
      | ok manifest =>
        dsimp only
        unfold WasmPlugin.load
        cases host.instantiate (joinPath dir entry.name) with
        | error detail => rfl
        | ok u =>
          refine congrArg Except.ok ?_
          simp [Discovered.with, declarations, indexCapabilities, List.foldl_map]
    · refine congrArg Except.ok ?_
      simp [Discovered.with, declarations]

theorem discoverAll_eq (host : Host) (dirs : List String) :
    discoverAll host dirs = (host.plugins dirs).map (Discovered.with ⟨[], []⟩) := by
  have hnil : ∀ d : Discovered, d.with [] = d := fun d => by simp [Discovered.with, declarations]
  have happend : ∀ (d : Discovered) ps qs, (d.with ps).with qs = d.with (ps ++ qs) := by
    intro d ps qs
    simp [Discovered.with, declarations, List.foldl_append]
  refine Collect.foldlM_eq_flatMapM hnil happend (fun d dir => ?_) dirs _
  unfold discoverDir dirPlugins
  rcases host.readDir dir with (_ | detail) | entries
  · exact congrArg Except.ok (hnil d).symm
  · rfl
  · exact Collect.foldlM_eq_flatMapM hnil happend (discoverEntry_eq host dir) entries d

/-! ## Relistings -/

inductive Relisted : Listing → Listing → Prop
  | error (e : ReadDirError) : Relisted (.error e) (.error e)
  | ok {entries entries' : List (Except String DirEntry)} (h : entries.Perm entries') :
    Relisted (.ok entries) (.ok entries')

theorem plugins_relisted {host : Host} {readDir : String → Listing}
    (h : ∀ dir, Relisted (host.readDir dir) (readDir dir)) (dirs : List String) :
    Collect.SameItems (host.plugins dirs) ({ host with readDir := readDir }.plugins dirs) := by
  refine Collect.flatMapM_congr (fun dir => ?_) dirs
  have hdir := h dir
  unfold dirPlugins
  dsimp only
  generalize host.readDir dir = listing, readDir dir = listing' at hdir
  cases hdir with
  | error e => exact .refl _
  | ok hentries => exact Collect.flatMapM_perm hentries _

/-! ## Bringing up a manager -/

/-- How the discovery and the start of plugins end: the discovery fails, the start reports a
conflict, or there is a set, with the name of the plugin for each capability. -/
inductive BringUp where
  | failed
  | conflict
  | serves (providerFor : String → Option String)

def BringUp.ofStart : Option (Except PlugindError Unit × Plugind) → BringUp
  | none => .failed
  | some (.error (.lifecycle (.conflict _)), _) => .conflict
  | some (_, s) => .serves fun cap => (s.manager.set.providerFor cap).map PluginEntry.id

def bringUp (host : Host) (dirs : List String) (answers : Answers) : BringUp :=
  match Plugind.new host dirs with
  | .error _ => .failed
  | .ok s => .ofStart (Plugind.start answers s).2

def Named (ps : List WasmPlugin) : Prop := (ps.map WasmPlugin.id).Nodup

instance (ps : List WasmPlugin) : Decidable (Named ps) :=
  inferInstanceAs (Decidable (List.Nodup _))

theorem lookup_set (d : Discovered) (id : String) :
    d.set.lookup id = if id ∈ d.plugins.map WasmPlugin.id then some ⟨id⟩ else none := by
  let entries : List PluginEntry := d.plugins.map fun p => ⟨p.id⟩
  let keys : List (String × ℕ) := entries.zipIdx.map fun p => (p.1.id, p.2)
  have hget : SortedMap.get id d.set.byId = SortedMap.last id keys := by
    have hfold : d.set.byId = SortedMap.ofList keys := by
      unfold SortedMap.ofList
      rw [List.foldl_map]
      rfl
    rw [hfold, SortedMap.get_ofList]
  have hkeys : keys.map Prod.fst = d.plugins.map WasmPlugin.id := by
    have hfst : keys.map Prod.fst = (entries.zipIdx.map Prod.fst).map PluginEntry.id := by
      rw [List.map_map, List.map_map]
      rfl
    rw [hfst, List.zipIdx_map_fst, List.map_map]
    rfl
  unfold PluginSet.lookup
  rw [hget]
  split_ifs with hid
  · obtain ⟨i, hi⟩ := Option.isSome_iff_exists.mp (SortedMap.isSome_last.mpr (hkeys ▸ hid))
    obtain ⟨⟨entry, j⟩, hentry, heq⟩ := List.mem_map.mp (SortedMap.mem_of_last hi)
    obtain ⟨rfl, rfl⟩ := Prod.mk.inj heq
    rw [hi]
    exact List.mem_zipIdx_iff_getElem?.mp hentry
  · rw [SortedMap.last_of_notMem (hkeys ▸ hid)]
    rfl

theorem providerFor_set (ps : List WasmPlugin) (cap : String) :
    ((Discovered.with ⟨[], []⟩ ps).set.providerFor cap).map PluginEntry.id =
      SortedMap.last cap (declarations ps) := by
  have hget : SortedMap.get cap (Discovered.with ⟨[], []⟩ ps).set.capabilityIndex =
      SortedMap.last cap (declarations ps) := SortedMap.get_ofList cap (declarations ps)
  unfold PluginSet.providerFor
  rw [hget]
  cases hlast : SortedMap.last cap (declarations ps) with
  | none => rfl
  | some name =>
    obtain ⟨p, hp, hcap⟩ := List.mem_flatMap.mp (SortedMap.mem_of_last hlast)
    obtain ⟨_, -, heq⟩ := List.mem_map.mp hcap
    obtain ⟨-, rfl⟩ := Prod.mk.inj heq
    rw [Option.bind_some, lookup_set, if_pos]
    · rfl
    · simpa [Discovered.with] using ⟨p, hp, rfl⟩

theorem bringUp_eq (host : Host) (dirs : List String) (answers : Answers) :
    bringUp host dirs answers = match host.plugins dirs with
      | .error _ => .failed
      | .ok ps => if Named ps then .serves fun cap => SortedMap.last cap (declarations ps)
        else .conflict := by
  unfold bringUp Plugind.new
  rw [discoverAll_eq]
  cases host.plugins dirs with
  | error e => rfl
  | ok ps =>
    let d : Discovered := Discovered.with ⟨[], []⟩ ps
    let s : Plugind := .launch dirs d
    have hnamed : (d.lifecycle 0).Distinct ↔ Named ps := by
      change ((d.boxed 0).map Plugin.id).Nodup ↔ _
      rw [d.map_id_boxed]
      simp [d, Discovered.with, Named]
    have hserves : (fun cap => (s.manager.set.providerFor cap).map PluginEntry.id) =
        fun cap => SortedMap.last cap (declarations ps) := funext (providerFor_set ps)
    obtain ⟨calls, result, hstart, hstarted⟩ := (d.lifecycle 0).start_eq answers s
    have hresult : (Plugind.start answers s).2 = some (result.mapError .lifecycle, s) := by
      have hlifecycle : s.manager.lifecycle = d.lifecycle 0 := rfl
      simp [Plugind.start, Plugind.lifecycle, bind_eq, hlifecycle, hstart]
    change BringUp.ofStart (Plugind.start answers s).2 = if Named ps then _ else _
    rw [hresult, ← hserves]
    cases hstarted with
    | conflict e clash => rw [if_neg (hnamed.not.mp clash)]; rfl
    | fails _ _ _ _ distinct => rw [if_pos (hnamed.mp distinct)]; rfl
    | starts starts => rw [if_pos (hnamed.mp starts.1)]; rfl

/-! ## One provider for each capability -/

/-- No two plugins declare the same capability. -/
def Unshared (ps : List WasmPlugin) : Prop :=
  ps.Pairwise fun p q => ∀ cap ∈ p.manifest.capabilities.provides,
    cap ∉ q.manifest.capabilities.provides

/-- Of the plugins, the one of this name is the only one that declares the capability. -/
def SoleProvider (ps : List WasmPlugin) (cap name : String) : Prop :=
  ∃ pre p post, ps = pre ++ p :: post ∧ p.id = name ∧ cap ∈ p.manifest.capabilities.provides ∧
    ∀ q ∈ pre ++ post, cap ∉ q.manifest.capabilities.provides

theorem mem_declarations {ps : List WasmPlugin} {cap name : String} :
    (cap, name) ∈ declarations ps ↔
      ∃ p ∈ ps, cap ∈ p.manifest.capabilities.provides ∧ p.id = name := by
  simp [declarations]

theorem isSome_last_declarations {ps : List WasmPlugin} {p : WasmPlugin} {cap : String}
    (hp : p ∈ ps) (hcap : cap ∈ p.manifest.capabilities.provides) :
    (SortedMap.last cap (declarations ps)).isSome :=
  SortedMap.isSome_last.mpr (List.mem_map_of_mem (mem_declarations.mpr ⟨p, hp, hcap, rfl⟩))

/-- Without shared capabilities, the last plugin that declares one is the only one. -/
theorem Unshared.last_eq_some {ps : List WasmPlugin} (h : Unshared ps) {cap name : String} :
    SortedMap.last cap (declarations ps) = some name ↔ SoleProvider ps cap name := by
  constructor
  · intro hlast
    obtain ⟨p, hp, hcap, hname⟩ := mem_declarations.mp (SortedMap.mem_of_last hlast)
    obtain ⟨pre, post, rfl⟩ := List.append_of_mem hp
    obtain ⟨-, hpost, hpre⟩ := List.pairwise_append.mp h
    refine ⟨pre, p, post, rfl, hname, hcap, fun q hq hcap' => ?_⟩
    rcases List.mem_append.mp hq with hq | hq
    · exact hpre q hq p (by simp) cap hcap' hcap
    · exact (List.pairwise_cons.mp hpost).1 q hq cap hcap hcap'
  · rintro ⟨pre, p, post, rfl, rfl, hcap, hothers⟩
    have hp : p ∈ pre ++ p :: post := by simp
    obtain ⟨name, hname⟩ := Option.isSome_iff_exists.mp (isSome_last_declarations hp hcap)
    obtain ⟨q, hq, hcap', rfl⟩ := mem_declarations.mp (SortedMap.mem_of_last hname)
    have hqp : q = p := by
      by_contra hne
      exact hothers q (by simpa [hne] using hq) hcap'
    rw [hname, hqp]

theorem SoleProvider.perm {ps qs : List WasmPlugin} (hps : ps.Perm qs) {cap name : String}
    (h : SoleProvider ps cap name) : SoleProvider qs cap name := by
  obtain ⟨pre, p, post, rfl, hname, hcap, hothers⟩ := h
  obtain ⟨pre', post', rfl⟩ := List.append_of_mem (hps.subset (by simp : p ∈ pre ++ p :: post))
  refine ⟨pre', p, post', rfl, hname, hcap, fun q hq => hothers q ?_⟩
  have hcons : (pre ++ post).Perm (pre' ++ post') := by
    have hmiddle := List.perm_middle.symm.trans (hps.trans List.perm_middle)
    exact hmiddle.cons_inv
  exact hcons.symm.subset hq

theorem Unshared.perm {ps qs : List WasmPlugin} (hps : ps.Perm qs) (h : Unshared ps) :
    Unshared qs := by
  exact hps.pairwise h fun hpq cap hcap hcap' => hpq cap hcap' hcap

section Claim

variable (host : Host) (dirs : List String)

/-- Bringing up a manager ends the same for every relisting of the directories. -/
def OrderIndependent : Prop :=
  ∀ readDir answers answers', (∀ dir, Relisted (host.readDir dir) (readDir dir)) →
    bringUp { host with readDir := readDir } dirs answers' = bringUp host dirs answers

/-- When it ends with a set, each capability is provided by the only plugin that declares it. -/
def ServesSole : Prop :=
  ∀ answers providerFor, bringUp host dirs answers = .serves providerFor → ∃ ps,
    host.plugins dirs = .ok ps ∧
    (∀ cap name, providerFor cap = some name ↔ SoleProvider ps cap name) ∧
    ∀ p ∈ ps, ∀ cap ∈ p.manifest.capabilities.provides, (providerFor cap).isSome

variable {host dirs}

theorem orderIndependent_of_unshared
    (h : ∀ ps, host.plugins dirs = .ok ps → Named ps → Unshared ps) :
    OrderIndependent host dirs := by
  intro readDir answers answers' hrelisted
  have hplugins := plugins_relisted hrelisted dirs
  rw [bringUp_eq, bringUp_eq]
  generalize hps : host.plugins dirs = r at hplugins
  generalize { host with readDir := readDir }.plugins dirs = r' at hplugins
  cases hplugins with
  | error e e' => rfl
  | @ok ps qs hperm =>
    have hnamed : Named ps ↔ Named qs := (hperm.map _).nodup_iff
    by_cases hdistinct : Named ps
    · have hunshared := h ps hps hdistinct
      dsimp only
      rw [if_pos hdistinct, if_pos (hnamed.mp hdistinct)]
      congr 1
      funext cap
      ext name
      rw [(hunshared.perm hperm).last_eq_some, hunshared.last_eq_some]
      exact ⟨.perm hperm.symm, .perm hperm⟩
    · dsimp only
      rw [if_neg hdistinct, if_neg (hnamed.not.mp hdistinct)]

theorem servesSole_iff : ServesSole host dirs ↔
    ∀ ps, host.plugins dirs = .ok ps → Named ps → Unshared ps := by
  constructor
  · intro h ps hps hdistinct
    have hserves : bringUp host dirs (fun _ _ => .ok ()) =
        .serves fun cap => SortedMap.last cap (declarations ps) := by
      rw [bringUp_eq, hps]
      exact if_pos hdistinct
    obtain ⟨ps', hps', hsole, hsome⟩ := h _ _ hserves
    obtain rfl : ps = ps' := Except.ok.inj (hps.symm.trans hps')
    refine List.pairwise_iff_forall_sublist.mpr fun {p q} hpq cap hcap hcap' => ?_
    have hp : p ∈ ps := hpq.subset (by simp)
    have hq : q ∈ ps := hpq.subset (by simp)
    obtain ⟨name, hname⟩ := Option.isSome_iff_exists.mp (hsome p hp cap hcap)
    obtain ⟨pre, r, post, rfl, -, -, hothers⟩ := (hsole cap name).mp hname
    -- both are the one provider, which is in the list once
    have hpr : p = r := by
      by_contra hne
      exact hothers p (by simpa [hne] using hp) hcap
    have hqr : q = r := by
      by_contra hne
      exact hothers q (by simpa [hne] using hq) hcap'
    subst hpr hqr
    exact List.nodup_iff_sublist.mp hdistinct.of_map _ hpq
  · intro h answers providerFor hserves
    rw [bringUp_eq] at hserves
    cases hps : host.plugins dirs with
    | error e =>
      rw [hps] at hserves
      cases hserves
    | ok ps =>
      rw [hps] at hserves
      dsimp only at hserves
      split_ifs at hserves with hdistinct
      obtain rfl := BringUp.serves.inj hserves
      refine ⟨ps, rfl, fun cap name => (h ps hps hdistinct).last_eq_some, fun p hp cap hcap => ?_⟩
      exact isSome_last_declarations hp hcap

end Claim

/-- Bringing up a manager ends the same in every order of the listings, and with the only plugin
that declares it for each capability, exactly if the discovery fails, or two plugins share an id, so
that there is a conflict, or no two declare the same capability. -/
theorem providers_independent_iff (host : Host) (dirs : List String) :
    (OrderIndependent host dirs ∧ ServesSole host dirs) ↔
      ∀ ps, host.plugins dirs = .ok ps → Named ps → Unshared ps := by
  rw [servesSole_iff, and_iff_right_iff_imp]
  exact orderIndependent_of_unshared

/-- A plugin that declares `cap.echo`. -/
def echoManifest (name : String) : PluginManifest := ⟨⟨name, "1.0.0"⟩, ⟨["cap.echo"], []⟩⟩

def echoText (name : String) : String :=
  "[plugin]\nname = '" ++ name ++ "'\nversion = '1.0.0'\n[capabilities]\nprovides = ['cap.echo']\n"

/-- A host whose directories hold two plugins that both declare `cap.echo`. -/
def echoHost (entries : List (Except String DirEntry)) : Host where
  readDir _ := .ok entries
  pathExists _ := true
  readToString path := .ok (echoText (if path = "plugins/a.toml" then "a" else "b"))
  parseManifest content :=
    if content = echoText "a" then .ok (echoManifest "a")
    else if content = echoText "b" then .ok (echoManifest "b")
    else .error "not a manifest"
  instantiate _ := .ok ()

def echoEntries : List (Except String DirEntry) :=
  [.ok ⟨"a.wasm", by decide⟩, .ok ⟨"b.wasm", by decide⟩]

/-- The capability goes to the plugin that is listed last. -/
theorem provider_depends_on_listing :
    (∃ f, bringUp (echoHost echoEntries) ["plugins"] (fun _ _ => .ok ()) = .serves f ∧
      f "cap.echo" = some "b") ∧
    (∃ f, bringUp (echoHost echoEntries.reverse) ["plugins"] (fun _ _ => .ok ()) = .serves f ∧
      f "cap.echo" = some "a") ∧
    ¬(OrderIndependent (echoHost echoEntries) ["plugins"] ∧
      ServesSole (echoHost echoEntries) ["plugins"]) := by
  let a : WasmPlugin := ⟨"a", echoManifest "a", "plugins/a.wasm", rfl⟩
  let b : WasmPlugin := ⟨"b", echoManifest "b", "plugins/b.wasm", rfl⟩
  have hab : bringUp (echoHost echoEntries) ["plugins"] (fun _ _ => .ok ()) =
      .serves fun cap => SortedMap.last cap (declarations [a, b]) := by
    have hplugins : (echoHost echoEntries).plugins ["plugins"] = .ok [a, b] := by rfl
    rw [bringUp_eq, hplugins]
    exact if_pos (by decide)
  have hba : bringUp (echoHost echoEntries.reverse) ["plugins"] (fun _ _ => .ok ()) =
      .serves fun cap => SortedMap.last cap (declarations [b, a]) := by
    have hplugins : (echoHost echoEntries.reverse).plugins ["plugins"] = .ok [b, a] := by rfl
    rw [bringUp_eq, hplugins]
    exact if_pos (by decide)
  refine ⟨⟨_, hab, by decide⟩, ⟨_, hba, by decide⟩, fun h => ?_⟩
  have hsame := h.1 (fun _ => .ok echoEntries.reverse) (fun _ _ => .ok ()) (fun _ _ => .ok ())
    fun _ => .ok (List.reverse_perm _).symm
  have hfun := congrFun (BringUp.serves.inj (hba.symm.trans (hsame.trans hab))) "cap.echo"
  revert hfun
  decide

end Pan
