import Pan.Library.SortedMap
import Pan.Library.Text
import Pan.FileSystem
import Pan.Lifecycle

namespace Pan

structure ManifestMeta where
  name : String
  version : String

structure ManifestCapabilities where
  provides : List String
  needs : List String

structure PluginManifest where
  metaInfo : ManifestMeta
  capabilities : ManifestCapabilities

inductive PlugindError where
  | manifestIo (path detail : String)
  | manifestParse (path detail : String)
  | manifestValidation (path message : String)
  | discoveryIo (path detail : String)
  | wasmLoad (path detail : String)
  | lifecycle (e : LifecycleError)
  | reloadInProgress

/-! ## The host -/

/-- The name up to its last dot, and what follows the dot. A dot in front begins no extension. -/
def DirEntry.split (entry : DirEntry) : String × Option String :=
  match Text.rsplitOnce '.' entry.name.toList with
  | none => (entry.name, none)
  | some ([], _) => (entry.name, none)
  | some (before, after) => (.ofList before, some (.ofList after))

def DirEntry.fileStem (entry : DirEntry) : String := entry.split.1

def DirEntry.extension (entry : DirEntry) : Option String := entry.split.2

inductive ReadDirError where
  | notFound
  | other (detail : String)

/-- A listing of a directory, of which entries may be unreadable. -/
abbrev Listing := Except ReadDirError (List (Except String DirEntry))

structure Host where
  readDir : String → Listing
  pathExists : String → Bool
  readToString : String → Except String String
  parseManifest : String → Except String PluginManifest
  instantiate : String → Except String Unit

def PluginManifest.load (host : Host) (path : String) : Except PlugindError PluginManifest := do
  let content ← (host.readToString path).mapError (.manifestIo path)
  let manifest ← (host.parseManifest content).mapError (.manifestParse path)
  if manifest.metaInfo.name = "" then
    throw (.manifestValidation path "plugin name must not be empty")
  if manifest.metaInfo.version = "" then
    throw (.manifestValidation path "plugin version must not be empty")
  return manifest

structure WasmPlugin where
  id : String
  manifest : PluginManifest
  wasmPath : String
  named : id = manifest.metaInfo.name

def WasmPlugin.load (host : Host) (wasmPath : String) (manifest : PluginManifest) :
    Except PlugindError WasmPlugin := do
  let _ ← (host.instantiate wasmPath).mapError (.wasmLoad wasmPath)
  return ⟨manifest.metaInfo.name, manifest, wasmPath, rfl⟩

/-! ## The scan -/

/-- The plugins found so far, and the name of the plugin for each capability. -/
structure Discovered where
  plugins : List WasmPlugin
  capabilityIndex : List (String × String)

/-- Without a manifest, an identity is derived from the file name. -/
def manifestFor (host : Host) (dir : String) (entry : DirEntry) :
    Except PlugindError PluginManifest :=
  let manifestPath := joinPath dir (entry.fileStem ++ ".toml")
  if host.pathExists manifestPath then PluginManifest.load host manifestPath
  else .ok ⟨⟨entry.fileStem, "0.0.0"⟩, ⟨[], []⟩⟩

/-- Index the capabilities of a manifest; one that is there already is taken over. -/
def indexCapabilities (manifest : PluginManifest) (index : List (String × String)) :
    List (String × String) :=
  manifest.capabilities.provides.foldl
    (fun index cap => SortedMap.insert cap manifest.metaInfo.name index) index

def discoverEntry (host : Host) (dir : String) (d : Discovered) (entry : Except String DirEntry) :
    Except PlugindError Discovered := do
  let entry ← entry.mapError (.discoveryIo dir)
  if entry.extension = some "wasm" then
    let manifest ← manifestFor host dir entry
    let capabilityIndex := indexCapabilities manifest d.capabilityIndex
    let plugin ← WasmPlugin.load host (joinPath dir entry.name) manifest
    return ⟨d.plugins ++ [plugin], capabilityIndex⟩
  else
    return d

def discoverDir (host : Host) (d : Discovered) (dir : String) : Except PlugindError Discovered :=
  match host.readDir dir with
  | .error .notFound => .ok d
  | .error (.other detail) => .error (.discoveryIo dir detail)
  | .ok entries => entries.foldlM (discoverEntry host dir) d

def discoverAll (host : Host) (dirs : List String) : Except PlugindError Discovered :=
  dirs.foldlM (discoverDir host) ⟨[], []⟩

end Pan
