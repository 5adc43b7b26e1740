import Mathlib.Data.List.Destutter
import Pan.FileSystem
import Pan.Toolbox

namespace Pan

open Fallible

abbrev Store := List (String × Value)

/-- The order of a hash map's keys, and the crate's pretty printer and parser of maps. -/
structure StoreFormat where
  keys : Store → List String
  keys_perm : ∀ store, (keys store).Perm (store.map Prod.fst)
  toStringPretty : Store → Except String String
  fromStr : String → Option Store

structure StateCaps where
  path : Option String

/-- The store in memory, and the world outside. -/
structure StateWorld (W : Type) where
  store : Store
  outside : W

namespace StateWorld

variable {W α : Type}

/-- A call to the outside, which leaves the store as it is. -/
def outsideOf (x : Sys W α) : Sys (StateWorld W) α := fun w =>
  (x w.outside).map fun r => (r.1, { w with outside := r.2 })

def readStore : Fallible (StateWorld W) ExecError Store :=
  ExceptT.lift fun w => some (w.store, w)

/-- Change the store under its lock. The result is a copy of the store as it is then. -/
def update (f : Store → Store) : Fallible (StateWorld W) ExecError Store :=
  ExceptT.lift fun w => some (f w.store, { w with store := f w.store })

end StateWorld

namespace StateCaps

open StateWorld

variable {W : Type} (format : StoreFormat) (fs : FileSystem W) (caps : StateCaps)

/-- The store that a file holds. One that is missing or malformed is taken as empty. -/
def withFile (path : String) : Sys W (StateCaps × Store) := do
  let text ← fs.readToString path
  return (⟨some path⟩, (text.toOption.bind format.fromStr).getD [])

def capabilities : List Capability :=
  [⟨"cap.state.set", "store a value under a key", requiring ["key", "value"]⟩,
    ⟨"cap.state.get", "read the value stored under a key", requiring ["key"]⟩,
    ⟨"cap.state.list", "list all stored keys", .object [("type", .string "object")]⟩,
    ⟨"cap.state.delete", "delete a key from the store", requiring ["key"]⟩,
    ⟨"cap.state.namespaces", "list unique name prefixes (the part before the first `.`)",
      .object [("type", .string "object")]⟩]

/-- Write a copy of the store to the file, where there is one. -/
def persist (snapshot : Store) : Fallible (StateWorld W) ExecError Unit := do
  match caps.path with
  | some path => do
    let json ← result ((format.toStringPretty snapshot).mapError fun e =>
      ExecError.mk s!"serializing state: {e}")
    attempt (fun e => ⟨s!"persisting state: {e}"⟩) (outsideOf (fs.write path json.toUTF8))
  | none => return ()

def set (key : String) (args : Value) : Fallible (StateWorld W) ExecError Value := do
  let snapshot ← update (SortedMap.insert key ((args.get "value").getD .null))
  caps.persist format fs snapshot
  return .object [("ok", .bool true)]

def get (key : String) : Fallible (StateWorld W) ExecError Value := do
  let store ← readStore
  return .object [("value", (SortedMap.get key store).getD .null)]

def list : Fallible (StateWorld W) ExecError Value := do
  let store ← readStore
  return .object [("keys", .array ((format.keys store).map .string))]

def delete (key : String) : Fallible (StateWorld W) ExecError Value := do
  let snapshot ← update (List.filter fun p => p.1 ≠ key)
  caps.persist format fs snapshot
  return .object [("ok", .bool true)]

/-- `split('.').next()`. -/
def namespaceOf (key : String) : Option String :=
  (key.toList.splitOn '.').head?.map String.ofList

def namespaces : Fallible (StateWorld W) ExecError Value := do
  let store ← readStore
  let names := (sortStrings ((format.keys store).filterMap namespaceOf)).destutter (· ≠ ·)
  return .object [("namespaces", .array (names.map .string))]

def perform (capability key : String) (args : Value) : Fallible (StateWorld W) ExecError Value :=
  match capability with
  | "cap.state.set" => caps.set format fs key args
  | "cap.state.get" => get key
  | "cap.state.list" => list format
  | "cap.state.delete" => caps.delete format fs key
  | "cap.state.namespaces" => namespaces format
  | other => throw ⟨s!"cap.state has no `{other}`"⟩

/-- The key is taken from the args before the capability is looked at. -/
def execute (capability : String) (args : Value) : Fallible (StateWorld W) ExecError Value := do
  let key ← result (argStr args "key")
  caps.perform format fs capability key args

end StateCaps

end Pan
