import Pan.Discovery
import Pan.Library.Machine

namespace Pan

/-! ## The set -/

structure PluginEntry where
  id : String

/-- A snapshot of the plugins, with the index of each id and the id for each capability. -/
structure PluginSet where
  entries : List PluginEntry
  byId : List (String × ℕ)
  capabilityIndex : List (String × String)

namespace PluginSet

def new (entries : List PluginEntry) (capabilityIndex : List (String × String)) : PluginSet where
  entries := entries
  byId := entries.zipIdx.foldl (fun m p => SortedMap.insert p.1.id p.2 m) []
  capabilityIndex := capabilityIndex

variable (set : PluginSet)

def lookup (id : String) : Option PluginEntry :=
  (SortedMap.get id set.byId).bind fun i => set.entries[i]?

def providerFor (capability : String) : Option PluginEntry :=
  (SortedMap.get capability set.capabilityIndex).bind set.lookup

def all : List PluginEntry := set.entries

end PluginSet

def Discovered.set (d : Discovered) : PluginSet :=
  .new (d.plugins.map fun p => ⟨p.id⟩) d.capabilityIndex

/-- The plugins in boxes of their own, `n` boxes being made before. -/
def Discovered.boxed (d : Discovered) (n : ℕ) : List Plugin :=
  d.plugins.mapIdx fun i p => ⟨n + i, p.id⟩

theorem Discovered.map_key_boxed (d : Discovered) (n : ℕ) :
    (d.boxed n).map Plugin.key = List.range' n d.plugins.length := by
  apply List.ext_getElem
  · simp [boxed]
  · intro i hi hi'
    simp [boxed]

theorem Discovered.map_id_boxed (d : Discovered) (n : ℕ) :
    (d.boxed n).map Plugin.id = d.plugins.map WasmPlugin.id := by
  apply List.ext_getElem
  · simp [boxed]
  · intro i hi hi'
    simp [boxed]

def Discovered.lifecycle (d : Discovered) (n : ℕ) : Lifecycle where
  plugins := d.boxed n
  owned := by
    rw [d.map_key_boxed]
    exact List.nodup_range'

/-! ## The manager -/

structure PluginManager where
  set : PluginSet
  lifecycle : Lifecycle
  pluginDirs : List String
  reloading : Bool

structure PluginHealth where
  id : String
  alive : Bool
  error : Option String

/-- The manager, and how many boxes were made for it. -/
structure Plugind where
  manager : PluginManager
  boxes : ℕ

namespace Plugind

open Eff

def launch (dirs : List String) (d : Discovered) : Plugind :=
  ⟨⟨d.set, d.lifecycle 0, dirs, false⟩, d.plugins.length⟩

def new (host : Host) (dirs : List String) : Except PlugindError Plugind := do
  return launch dirs (← discoverAll host dirs)

def lifecycle : Eff PluginCall Plugind Lifecycle := ask fun s => (s.manager.lifecycle, s)

def swapReloading (value : Bool) : Eff PluginCall Plugind Bool :=
  ask fun s => (s.manager.reloading, { s with manager.reloading := value })

def swap (d : Discovered) : Eff PluginCall Plugind PUnit :=
  ask fun s => (PUnit.unit, {
    manager.set := d.set
    manager.lifecycle := d.lifecycle s.boxes
    manager.pluginDirs := s.manager.pluginDirs
    manager.reloading := s.manager.reloading
    boxes := s.boxes + d.plugins.length })

def start (answers : Answers) : Eff PluginCall Plugind (Except PlugindError Unit) := do
  let l ← lifecycle
  return (← l.start answers).mapError .lifecycle

def shutdown : Eff PluginCall Plugind PUnit := do
  let l ← lifecycle
  l.cleanup

def reload (host : Host) (answers : Answers) :
    Eff PluginCall Plugind (Except PlugindError Unit) := do
  if ← swapReloading true then
    return .error .reloadInProgress
  let l ← lifecycle
  l.cleanup
  let dirs ← ask fun s => (s.manager.pluginDirs, s)
  match discoverAll host dirs with
  -- the flag stays set, here and where the start fails
  | .error e => return .error e
  | .ok d =>
    swap d
    let l ← lifecycle
    match ← l.start answers with
    | .error e => return .error (.lifecycle e)
    | .ok () =>
      let _ ← swapReloading false
      return .ok ()

end Plugind

def PluginManager.health (m : PluginManager) : List PluginHealth :=
  m.set.all.map fun p => ⟨p.id, true, none⟩

/-! ## Runs -/

/-- An operation, with how the host and the plugins behave during it. -/
inductive Operation where
  | start (answers : Answers)
  | reload (host : Host) (answers : Answers)
  | shutdown

def Operation.perform : Operation → Eff PluginCall Plugind (Except PlugindError Unit)
  | start answers => Plugind.start answers
  | reload host answers => Plugind.reload host answers
  | shutdown => do
    Plugind.shutdown
    return .ok ()

structure PluginRun where
  plugind : Plugind
  calls : List PluginCall

namespace PluginRun

def result (s : PluginRun) (op : Operation) : Option (Except PlugindError Unit) :=
  (op.perform s.plugind).2.map Prod.fst

def step (s : PluginRun) (op : Operation) : PluginRun where
  plugind := ((op.perform s.plugind).2.map Prod.snd).getD s.plugind
  calls := s.calls ++ (op.perform s.plugind).1

end PluginRun

def managing (dirs : List String) (d : Discovered) : Machine PluginRun Operation where
  init := ⟨.launch dirs d, []⟩
  step := PluginRun.step

end Pan
