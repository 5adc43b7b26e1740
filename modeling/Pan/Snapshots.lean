import Pan.FileSystem

namespace Pan

open Fallible

structure SnapshotMeta where
  id : String
  timestamp : ℕ
  path : String

structure SnapshotStore where
  root : String

/-- The directory that a path lies in, made if it is missing. -/
def FileSystem.createParent {W : Type} (fs : FileSystem W) (path : String) :
    Sys W (Except String Unit) :=
  match Path.parent path with
  | some parent => fs.createDirAll parent
  | none => return .ok ()

/-- The snapshot that an entry of the directory is. Its time is kept in seconds. -/
def SnapshotMeta.ofEntry (path : String) (entry : DirEntry) : Option SnapshotMeta := do
  let nanosStr ← entry.name.toList.dropSuffix? ".snap".toList
  let nanos ← parseU64 nanosStr
  return ⟨.ofList nanosStr, nanos / 1000000000, path⟩

/-- `max_by_key` on the time: of several latest ones it is the last. -/
def SnapshotMeta.latest (metas : List SnapshotMeta) : Option SnapshotMeta :=
  metas.foldl (fun best m => match best with
    | some b => if m.timestamp < b.timestamp then some b else some m
    | none => some m) none

namespace SnapshotStore

variable {W : Type} (store : SnapshotStore) (fs : FileSystem W)

def snapDirFor (path : String) : String :=
  joinPath store.root (path.map fun c => if c ∈ ['/', '\\'] then '_' else c)

def snapPath (path id : String) : String := Path.join (store.snapDirFor path) s!"{id}.snap"

def snapshot (path : String) : Fallible W String String := do
  let content ← attempt (fun e => s!"snapshot read: {e}") (fs.read path)
  let ts ← fs.now
  let id := s!"{ts}"
  attempt (fun e => s!"snapshot mkdir: {e}") (fs.createDirAll (store.snapDirFor path))
  attempt (fun e => s!"snapshot write: {e}") (fs.write (store.snapPath path id) content)
  return id

def restore (path id : String) : Fallible W String Unit := do
  let content ← attempt (fun e => s!"restore read: {e}") (fs.read (store.snapPath path id))
  attempt (fun e => s!"restore mkdir: {e}") (fs.createParent path)
  attempt (fun e => s!"restore write: {e}") (fs.write path content)

def list (path : String) : Fallible W String (List SnapshotMeta) := do
  let dir := store.snapDirFor path
  if ← fs.pathExists dir then
    let entries ← attempt (fun e => s!"snapshot list: {e}") (fs.readDir dir)
    let entries ← result ((entries.mapM id).mapError fun e => s!"snapshot entry: {e}")
    return (entries.filterMap (SnapshotMeta.ofEntry path)).mergeSort
      fun a b => decide (b.timestamp ≤ a.timestamp)
  else return []

def restoreLatest (path : String) : Fallible W String String := do
  match SnapshotMeta.latest (← store.list fs path) with
  | some newest =>
    store.restore fs path newest.id
    return newest.id
  | none => throw s!"no snapshots for `{path}`"

/-! ## Its errors -/

def Unquoted (e : String) : Prop := e.toList.head? ≠ some '`'

variable {store fs} {path id : String}

theorem snapshot_failsOnly : FailsOnly Unquoted (store.snapshot fs path) := by
  refine .bind (.attempt _ fun e => ?_) fun content => .bind (.lift _) fun ts =>
    .bind (.attempt _ fun e => ?_) fun _ =>
      .bind (.attempt _ fun e => ?_) fun _ => .pure _
  all_goals simp [Unquoted, ToString.toString]

theorem restore_failsOnly : FailsOnly Unquoted (store.restore fs path id) := by
  refine .bind (.attempt _ fun e => ?_) fun content =>
    .bind (.attempt _ fun e => ?_) fun _ => .attempt _ fun e => ?_
  all_goals simp [Unquoted, ToString.toString]

theorem list_failsOnly : FailsOnly Unquoted (store.list fs path) := by
  refine .bind (.lift _) fun b => ?_
  cases b with
  | false => exact .pure _
  | true =>
    refine .bind (.attempt _ fun e => ?_) fun entries =>
      .bind (.result_mapError _ fun e => ?_) fun _ => .pure _
    all_goals simp [Unquoted, ToString.toString]

theorem restoreLatest_failsOnly : FailsOnly Unquoted (store.restoreLatest fs path) := by
  refine .bind list_failsOnly fun metas => ?_
  cases SnapshotMeta.latest metas with
  | some newest => exact .bind restore_failsOnly fun _ => .pure _
  | none => exact .throw (by simp [Unquoted, ToString.toString])

end SnapshotStore

end Pan
