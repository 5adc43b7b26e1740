import Pan.Minds

namespace Pan

inductive Toml where
  | string (s : String)
  | integer (i : ℤ)
  | float (x : F64)
  | boolean (b : Bool)
  /-- By its text. -/
  | datetime (text : String)
  | array (xs : List Toml)
  | table (fields : List (String × Toml))

abbrev TomlTable : Type := List (String × Toml)

namespace Toml

def asStr : Toml → Option String
  | string s => some s
  | _ => none

def asBool : Toml → Option Bool
  | boolean b => some b
  | _ => none

def asTable : Toml → Option TomlTable
  | table fields => some fields
  | _ => none

/-- The key under which a date hides its text. -/
def datetimeKey : String := "$__toml_private_datetime"

def entries : Toml → Option TomlTable
  | table fields => some fields
  | datetime text => some [(datetimeKey, string text)]
  | _ => none

def isStruct : Toml → Bool
  | array _ => true
  | v => v.entries.isSome

/-- The field of a struct: by name, or in an array by place. -/
def structField (place : ℕ) (name : String) : Toml → Option Toml
  | array xs => xs[place]?
  | v => v.entries.bind (SortedMap.last name)

mutual

/-- `serde_json::to_value`, where a double that is not finite is null. -/
def toJson : Toml → Value
  | string s => .string s
  | integer i => .number (if 0 ≤ i then .posInt i.toNat else .negInt i)
  | float x => if x.magnitude < 0x7ff0000000000000 then .number (.float x) else .null
  | boolean b => .bool b
  | datetime text => .object [(datetimeKey, .string text)]
  | array xs => .array (toJsonAll xs)
  | table fields => .object (SortedMap.ofList (toJsonFields fields))

def toJsonAll : List Toml → List Value
  | [] => []
  | v :: vs => toJson v :: toJsonAll vs

def toJsonFields : TomlTable → List (String × Value)
  | [] => []
  | (key, v) :: fields => (key, toJson v) :: toJsonFields fields

end

theorem toJsonFields_eq (fields : TomlTable) :
    toJsonFields fields = fields.map fun p => (p.1, p.2.toJson) := by
  induction fields with
  | nil => rfl
  | cons p fields ih => rw [toJsonFields, ih, List.map_cons]

theorem toJson_table (fields : TomlTable) : (table fields).toJson =
    .object (SortedMap.ofList (fields.map fun p => (p.1, p.2.toJson))) := by
  rw [toJson, toJsonFields_eq]

end Toml

end Pan
