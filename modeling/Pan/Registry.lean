import Pan.Schema

namespace Pan

structure ConflictError where
  id : String
deriving DecidableEq

def ConflictError.text (e : ConflictError) : String :=
  s!"id `{e.id}` is already registered (conflicts are errors, not last-wins)"

/-- Capabilities in ascending order of their ids, each under its own id. -/
structure CapabilityRegistry where
  byId : List (String × Capability)
  ascending : SortedMap.Ascending byId
  keyed : ∀ p ∈ byId, p.1 = p.2.id

namespace CapabilityRegistry

def empty : CapabilityRegistry := ⟨[], List.Pairwise.nil, by simp⟩

def lookup (r : CapabilityRegistry) (id : String) : Option Capability := SortedMap.get id r.byId

def all (r : CapabilityRegistry) : List Capability := r.byId.map Prod.snd

def insert (r : CapabilityRegistry) (cap : Capability) : CapabilityRegistry where
  byId := SortedMap.insert cap.id cap r.byId
  ascending := SortedMap.ascending_insert _ _ r.ascending
  keyed := by
    intro p hp
    rcases SortedMap.mem_insert hp with rfl | hp
    · rfl
    · exact r.keyed p hp

/-- An id that is taken is a conflict; the registry is then as it was. -/
def register (r : CapabilityRegistry) (cap : Capability) :
    Except ConflictError CapabilityRegistry :=
  match r.lookup cap.id with
  | some _ => .error ⟨cap.id⟩
  | none => .ok (r.insert cap)

@[simp] theorem lookup_empty (id : String) : empty.lookup id = none := rfl

theorem lookup_insert (r : CapabilityRegistry) (cap : Capability) (id : String) :
    (r.insert cap).lookup id = if id = cap.id then some cap else r.lookup id :=
  SortedMap.get_insert _ _ _ _

end CapabilityRegistry

end Pan
