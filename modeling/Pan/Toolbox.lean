import Pan.Pipeline

namespace Pan

/-- A component that provides capabilities. Executed with an invoker it is told the origin that the
invoker acts as. -/
structure CapabilityProvider (W : Type) where
  capabilities : List Capability
  execute : String → Value → Call W (Except ExecError Value)
  executeWithInvoker : String → String → Value → W → Execution W

/-- A schema of objects, with the keys that they need. -/
def requiring (keys : List String) : Value :=
  .object [("required", .array (keys.map .string)), ("type", .string "object")]

/-- The string under a key of the args, which each component asks for in the same words. -/
def argStr (args : Value) (key : String) : Except ExecError String :=
  match (args.get key).bind Value.asStr with
  | some s => .ok s
  | none => .error ⟨s!"`{key}` must be a string"⟩

/-- The components in the order in which they were added, and the index of each one's ids. -/
structure Toolbox (W : Type) where
  providers : List (CapabilityProvider W)
  owner : List (String × ℕ)
  inRange : ∀ id i, SortedMap.get id owner = some i → i < providers.length

namespace Toolbox

variable {W : Type}

def empty : Toolbox W := ⟨[], [], fun _ _ h => by cases h⟩

def claims (provider : CapabilityProvider W) (i : ℕ) : List (String × ℕ) :=
  provider.capabilities.map fun cap => (cap.id, i)

theorem lt_of_claims (t : Toolbox W) (provider : CapabilityProvider W) (id : String) (i : ℕ)
    (h : SortedMap.get id ((claims provider t.providers.length).foldl
      (fun m p => SortedMap.insert p.1 p.2 m) t.owner) = some i) :
    i < (t.providers ++ [provider]).length := by
  rw [SortedMap.get_foldl_insert] at h
  rw [List.length_append, List.length_singleton]
  rcases Option.or_eq_some_iff.mp h with hnew | ⟨-, hold⟩
  · obtain ⟨cap, -, hcap⟩ := List.mem_map.mp (SortedMap.mem_of_last hnew)
    have hi : i = t.providers.length := congrArg Prod.snd hcap.symm
    omega
  · have := t.inRange id i hold
    omega

/-- An id that is owned already is a conflict. -/
def add (t : Toolbox W) (provider : CapabilityProvider W) : Except ConflictError (Toolbox W) :=
  match provider.capabilities.find? fun cap => (SortedMap.get cap.id t.owner).isSome with
  | some cap => .error ⟨cap.id⟩
  | none => .ok {
      providers := t.providers ++ [provider]
      owner := (claims provider t.providers.length).foldl
        (fun m p => SortedMap.insert p.1 p.2 m) t.owner
      inRange := lt_of_claims t provider }

/-- The capabilities of all components. Those whose id is taken are left out. -/
def registry (t : Toolbox W) : CapabilityRegistry :=
  (t.providers.flatMap CapabilityProvider.capabilities).foldl
    (fun reg cap => (reg.register cap).toOption.getD reg) .empty

def ownerOf (t : Toolbox W) (capability : String) : Option (CapabilityProvider W) :=
  match h : SortedMap.get capability t.owner with
  | some i => some (t.providers.get ⟨i, t.inRange capability i h⟩)
  | none => none

def unprovided (capability : String) : ExecError :=
  ⟨s!"no capability component provides `{capability}`"⟩

def executor (t : Toolbox W) (origin : String) : Executor W where
  execute capability args w :=
    match t.ownerOf capability with
    | some provider => provider.execute capability args w
    | none => some (.error (unprovided capability), w)
  executeWithInvoker capability args w :=
    match t.ownerOf capability with
    | some provider => provider.executeWithInvoker origin capability args w
    | none => .returns (.error (unprovided capability)) w

end Toolbox

end Pan
