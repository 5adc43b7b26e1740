import Mathlib.Data.List.Infix
import Pan.Governors
import Pan.Snapshots
import Pan.Toolbox

namespace Pan

open Fallible

structure FsCaps where
  root : String
  snapshotStore : Option SnapshotStore

/-- `glob_match`, which is `glob_match_simple` once more. -/
def globMatch (pattern path : String) : Bool := globMatchRec pattern.toList path.toList

def searchMatch (rel : String) (line : String × ℕ) : Value :=
  .object [("file", .string rel), ("line", .number (.posInt (line.2 + 1))),
    ("text", .string line.1)]

def SnapshotMeta.toValue (m : SnapshotMeta) : Value :=
  .object [("id", .string m.id), ("path", .string m.path),
    ("timestamp", .number (.posInt m.timestamp))]

namespace FsCaps

/-! ## The schemas -/

def undoSchema : Value :=
  let property (description : String) : Value :=
    .object [("description", .string description), ("type", .string "string")]
  .object [
    ("properties", .object [
      ("path", property "path to the file to restore"),
      ("snapshot_id", property "optional specific snapshot id (default: latest)")]),
    ("required", .array [.string "path"]),
    ("type", .string "object")]

def capabilities : List Capability :=
  [⟨"cap.fs.read", "read a UTF-8 file under the agent's root", requiring ["path"]⟩,
    ⟨"cap.fs.write", "write a UTF-8 file under the agent's root", requiring ["path", "content"]⟩,
    ⟨"cap.fs.list", "list a directory under the agent's root", requiring ["path"]⟩,
    ⟨"cap.fs.glob", "find files matching a glob pattern under the agent's root",
      requiring ["pattern"]⟩,
    ⟨"cap.fs.search", "search for text in files under the agent's root",
      requiring ["query", "path"]⟩,
    ⟨"cap.fs.undo", "restore a file from its most recent snapshot", undoSchema⟩]

/-! ## The capabilities -/

variable {W : Type} (caps : FsCaps) (fs : FileSystem W)

def read (path : String) : Fallible W ExecError Value := do
  let content ← attempt (fun e => ⟨s!"read: {e}"⟩) (fs.readToString path)
  return .object [("content", .string content)]

def snapshotBefore (path : String) : Fallible W ExecError Unit := do
  match caps.snapshotStore with
  | some store =>
    if ← fs.pathExists path then
      let _ ← mapErrors ExecError.mk (store.snapshot fs path)
  | none => return ()

def write (args : Value) (path : String) : Fallible W ExecError Value := do
  let content ← result (argStr args "content")
  attempt (fun e => ⟨s!"mkdir: {e}"⟩) (fs.createParent path)
  -- an error of the snapshot ends the write
  caps.snapshotBefore fs path
  attempt (fun e => ⟨s!"write: {e}"⟩) (fs.write path content.toUTF8)
  return .object [("bytes", .number (.posInt content.utf8ByteSize))]

def list (path : String) : Fallible W ExecError Value := do
  let dir ← attempt (fun e => ⟨s!"list: {e}"⟩) (fs.readDir path)
  let entries ← result ((dir.mapM id).mapError fun e => ExecError.mk s!"list: {e}")
  return .object [("entries", .array ((sortStrings (entries.map DirEntry.name)).map .string))]

/-- The pattern is jailed as a path is, and files are matched by their whole paths. -/
def glob (fuel : ℕ) (args : Value) : Fallible W ExecError Value := do
  let pattern ← result (argStr args "pattern")
  let pattern ← result (jail caps.root pattern)
  let walk ← fs.walkFiles fuel caps.root
  let found := (walk.filter (globMatch pattern)).filterMap (Path.stripPrefix caps.root)
  return .object [("matches", .array ((sortStrings found).map .string))]

/-- The lines of a file that hold the query. A file that cannot be read has none. -/
def searchFile (query path : String) : Sys W (List Value) := do
  match ← fs.readToString path, Path.stripPrefix caps.root path with
  | .ok content, some rel =>
    return ((lines content).zipIdx.filter fun line => query.toList <:+: line.1.toList).map
      (searchMatch rel)
  | _, _ => return []

/-- The matches so far, with those of one more file of the walk. -/
def searchEntry (query : String) (results : List Value) (path : String) :
    Sys W (List Value) := do
  if ← fs.isFile path then return results ++ (← caps.searchFile fs query path)
  else return results

def search (fuel : ℕ) (args : Value) : Fallible W ExecError Value := do
  let query ← result (argStr args "query")
  let path ← result (argStr args "path")
  let path ← result (jail caps.root path)
  if ← fs.isDir path then
    let walk ← fs.walkFiles fuel path
    let results ← ExceptT.lift (walk.foldlM (caps.searchEntry fs query) [])
    return .object [("matches", .array results)]
  else
    let results ← ExceptT.lift (caps.searchEntry fs query [] path)
    return .object [("matches", .array results)]

/-- The snapshot is the one that the args name, or else the latest. -/
def undo (args : Value) (path : String) : Fallible W ExecError Value := do
  match caps.snapshotStore with
  | none => throw ⟨"snapshot store not configured (no `snapshot_root` setting)"⟩
  | some store =>
    if (args.get "_list").bind Value.asBool = some true then
      let metas ← mapErrors ExecError.mk (store.list fs path)
      return .object [("snapshots", .array (metas.map SnapshotMeta.toValue))]
    -- without an id the latest is restored
    else
      let id ← match (args.get "snapshot_id").bind Value.asStr with
        | some id => do
          mapErrors ExecError.mk (store.restore fs path id)
          pure id
        | none => mapErrors ExecError.mk (store.restoreLatest fs path)
      return .object [("restored", .string path), ("snapshot_id", .string id)]

def perform (fuel : ℕ) (capability : String) (args : Value) (path : String) :
    Fallible W ExecError Value :=
  match capability with
  | "cap.fs.read" => read fs path
  | "cap.fs.write" => caps.write fs args path
  | "cap.fs.list" => list fs path
  | "cap.fs.glob" => caps.glob fs fuel args
  | "cap.fs.search" => caps.search fs fuel args
  | "cap.fs.undo" => caps.undo fs args path
  | other => throw ⟨s!"cap.fs has no `{other}`"⟩

def execute (fuel : ℕ) (capability : String) (args : Value) : Fallible W ExecError Value := do
  let path ← result (argStr args "path")
  let path ← result (jail caps.root path)
  caps.perform fs fuel capability args path

end FsCaps

end Pan
