import Mathlib.Algebra.Group.Int.Defs
import Mathlib.Data.Nat.Log
import Mathlib.Data.String.Basic
import Pan.Library.SortedMap

namespace Pan

/-- A double, as its bits. -/
structure F64 where
  bits : UInt64
deriving DecidableEq

/-- The double nearest to an unsigned 64-bit integer, ties to even. -/
def F64.ofNat (n : ℕ) : F64 :=
  if n = 0 then ⟨0⟩
  else
    let e := Nat.log2 n
    let mantissa :=
      if e ≤ 52 then n * 2 ^ (52 - e)
      else
        let q := n / 2 ^ (e - 52)
        let r := n % 2 ^ (e - 52)
        let half := 2 ^ (e - 53)
        if half < r ∨ (r = half ∧ q % 2 = 1) then q + 1 else q
    ⟨UInt64.ofNat ((e + 1023) * 2 ^ 52 + (mantissa - 2 ^ 52))⟩

def F64.neg (x : F64) : F64 := ⟨x.bits ^^^ 0x8000000000000000⟩

inductive Number where
  | posInt (n : ℕ)
  | negInt (i : ℤ)
  | float (x : F64)
deriving DecidableEq

def Number.isI64 : Number → Bool
  | .posInt n => n < 2 ^ 63
  | .negInt _ => true
  | .float _ => false

def Number.isU64 : Number → Bool
  | .posInt _ => true
  | _ => false

def Number.asF64 : Number → F64
  | .posInt n => F64.ofNat n
  | .negInt i => (F64.ofNat i.natAbs).neg
  | .float x => x

inductive Value where
  | null
  | bool (b : Bool)
  | number (n : Number)
  | string (s : String)
  | array (xs : List Value)
  | object (fields : List (String × Value))

namespace Value

def isNull : Value → Bool
  | null => true
  | _ => false

def isBoolean : Value → Bool
  | bool _ => true
  | _ => false

def isNumber : Value → Bool
  | number _ => true
  | _ => false

def isI64 : Value → Bool
  | number n => n.isI64
  | _ => false

def isU64 : Value → Bool
  | number n => n.isU64
  | _ => false

def isString : Value → Bool
  | string _ => true
  | _ => false

def isArray : Value → Bool
  | array _ => true
  | _ => false

def isObject : Value → Bool
  | object _ => true
  | _ => false

def asStr : Value → Option String
  | string s => some s
  | _ => none

def asBool : Value → Option Bool
  | bool b => some b
  | _ => none

def asU64 : Value → Option ℕ
  | number (.posInt n) => some n
  | _ => none

def asF64 : Value → Option F64
  | number n => some n.asF64
  | _ => none

def asArray : Value → Option (List Value)
  | array xs => some xs
  | _ => none

def asObject : Value → Option (List (String × Value))
  | object fields => some fields
  | _ => none

/-- `value.get(key)`: the member of an object, and nothing of any other value. -/
def get (v : Value) (key : String) : Option Value :=
  v.asObject.bind (SortedMap.get key)

@[simp] theorem get_singleton (key : String) (v : Value) :
    (object [(key, v)]).get key = some v := by
  simp [get, asObject, SortedMap.get]

end Value

/-- The text that the standard library and `serde_json` give to values. -/
structure Formats where
  /-- `Value::to_string`. -/
  jsonText : Value → String
  /-- `{:?}` of a string. -/
  debugStr : String → String

end Pan
