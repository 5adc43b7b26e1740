import Mathlib.Data.List.DropRight
import Pan.Library.Fallible
import Pan.PathRules

namespace Pan

abbrev Sys (W : Type) : Type → Type := StateT W Option

/-- An entry of a directory: one segment of a path. -/
structure DirEntry where
  name : String
  plain : '/' ∉ name.toList ∧ name ∉ ["", ".", ".."]

structure FileSystem (W : Type) where
  readToString : String → Sys W (Except String String)
  read : String → Sys W (Except String ByteArray)
  write : String → ByteArray → Sys W (Except String Unit)
  createDirAll : String → Sys W (Except String Unit)
  readDir : String → Sys W (Except String (List (Except String DirEntry)))
  pathExists : String → Sys W Bool
  isDir : String → Sys W Bool
  isFile : String → Sys W Bool
  /-- Nanoseconds since the epoch, and 0 before it. -/
  now : Sys W ℕ

/-! ## Paths -/

namespace Path

/-- `Path::join`: an absolute path replaces the other. -/
def join (base path : String) : String :=
  if path.toList.head? = some '/' then path else joinPath base path

/-- What a path has in front of its body: a root, a dot, or nothing. -/
def front (path : String) : List Component :=
  if path.toList.head? = some '/' then [.rootDir]
  else if (path.toList.splitOn '/').head? = some ['.'] then [.curDir]
  else []

def body (path : String) : List (List Char) := (path.toList.splitOn '/').drop (front path).length

def isVoid (segment : List Char) : Bool := (Component.ofSegment segment).isNone

def render (front : List Component) (body : List (List Char)) : String :=
  .ofList <| match front with
    | .rootDir :: _ => '/' :: ['/'].intercalate body
    | .curDir :: _ => ['/'].intercalate (['.'] :: body)
    | _ => ['/'].intercalate body

/-- `Path::parent`: the path up to its last component, with no void segments at its end. -/
def parent (path : String) : Option String :=
  match (components path).getLast? with
  | none | some .rootDir => none
  | some .curDir => some ""
  | some _ =>
    some (render (front path) (((body path).rdropWhile isVoid).dropLast.rdropWhile isVoid))

/-- The segments behind the first `n` components. -/
def dropComponents : ℕ → List (List Char) → List (List Char)
  | 0, segments => segments
  | _ + 1, [] => []
  | n + 1, segment :: segments =>
    dropComponents (if isVoid segment then n + 1 else n) segments

/-- `Path::strip_prefix`: the path behind the components of another. -/
def stripPrefix (base path : String) : Option String :=
  if components base <+: components path then
    some <| match (components base).length, (front path).length with
      | 0, _ => render (front path) ((body path).rdropWhile isVoid)
      | n, k => render [] <|
        ((dropComponents (n - k) (body path)).dropWhile isVoid).rdropWhile isVoid
  else none

example : parent "/a//b/./c/" = some "/a//b" ∧ parent "/a" = some "/" ∧ parent "a" = some "" ∧
    parent "./a" = some "." ∧ parent "/" = none := by decide

example : stripPrefix "data/" "data/./a//b/" = some "a//b" ∧ stripPrefix "." "./a" = some "a" ∧
    stripPrefix "/" "//a" = some "a" ∧ stripPrefix "data" "database" = none := by decide

end Path

/-! ## Texts -/

/-- `str::lines`: a line ends with a newline, or with a carriage return and a newline. -/
def lines (text : String) : List String :=
  let segments := text.toList.splitOn '\n'
  let unterminated := segments.getLast?.filter fun line => line ≠ []
  ((segments.dropLast.map fun line => if line.getLast? = some '\r' then line.dropLast else line) ++
    unterminated.toList).map String.ofList

/-- A line that is terminated is the first one, and those behind it follow. -/
theorem lines_append {line : List Char} (hnewline : '\n' ∉ line) (hcr : line.getLast? ≠ some '\r')
    (rest : List Char) :
    lines (String.ofList (line ++ '\n' :: rest)) =
      String.ofList line :: lines (String.ofList rest) := by
  have hrest : rest.splitOn '\n' ≠ [] := List.splitOn_ne_nil '\n' rest
  have hsplit : (line ++ '\n' :: rest).splitOn '\n' = line :: rest.splitOn '\n' := by
    rw [List.splitOn_append_cons_self, List.splitOn_eq_singleton hnewline, List.singleton_append]
  unfold lines
  rw [String.toList_ofList, String.toList_ofList, hsplit]
  dsimp only
  rw [List.dropLast_cons_of_ne_nil hrest, List.getLast?_cons_of_ne_nil hrest, List.map_cons,
    if_neg hcr, List.cons_append, List.map_cons]

/-- `parse::<u64>`: digits, with or without a plus before them. -/
def parseU64 (s : List Char) : Option ℕ :=
  let digits : List Char := match s with
    | '+' :: rest => rest
    | _ => s
  let n : ℕ := digits.foldl (fun n c => 10 * n + (c.toNat - '0'.toNat)) 0
  if digits ≠ [] ∧ digits.all Char.isDigit ∧ n < 2 ^ 64 then some n else none

/-- `sort` on strings. -/
def sortStrings (l : List String) : List String := l.mergeSort fun s t => decide (s ≤ t)

/-! ## The walk -/

namespace FileSystem

variable {W : Type} (fs : FileSystem W)

def visit (dir : String) (s : List String × List String) (entry : DirEntry) :
    Sys W (List String × List String) := do
  let path := joinPath dir entry.name
  if ← fs.isDir path then return (path :: s.1, s.2)
  else return (s.1, s.2 ++ [path])

/-- Take directories from the stack until it is empty. Those that cannot be read are left out. -/
def walkStack : ℕ → List String → List String → Sys W (List String)
  | 0, _, _ => fun _ => none
  | _ + 1, [], files => return files
  | fuel + 1, dir :: stack, files => do
    match ← fs.readDir dir with
    | .error _ => walkStack fuel stack files
    | .ok entries =>
      let s ← (entries.filterMap Except.toOption).foldlM (fs.visit dir) (stack, files)
      walkStack fuel s.1 s.2

/-- `walk_files`, in the time that `fuel` allows. -/
def walkFiles (fuel : ℕ) (root : String) : Sys W (List String) := do
  if ← fs.isDir root then fs.walkStack fuel [root] []
  else if ← fs.isFile root then return [root]
  else return []

end FileSystem

end Pan
