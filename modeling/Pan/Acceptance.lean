import Pan.RoundTrip

namespace Pan

/-! ## Depth -/

namespace Value

@[simp] theorem depthAll_nil : depthAll [] = 0 := rfl

@[simp] theorem depthAll_cons (x : Value) (xs : List Value) :
    depthAll (x :: xs) = max x.depth (depthAll xs) := rfl

@[simp] theorem depthMembers_nil : depthMembers [] = 0 := rfl

@[simp] theorem depthMembers_cons (m : String × Value) (members : List (String × Value)) :
    depthMembers (m :: members) = max m.2.depth (depthMembers members) := rfl

theorem depth_array (xs : List Value) : (array xs).depth = depthAll xs + 1 := rfl

theorem depth_object (members : List (String × Value)) :
    (object members).depth = depthMembers members + 1 := rfl

theorem depthAll_le {xs : List Value} {n : ℕ} : depthAll xs ≤ n ↔ ∀ x ∈ xs, x.depth ≤ n := by
  induction xs with
  | nil => simp
  | cons x xs ih => simp [ih]

theorem depthMembers_le {members : List (String × Value)} {n : ℕ} :
    depthMembers members ≤ n ↔ ∀ m ∈ members, m.2.depth ≤ n := by
  induction members with
  | nil => simp
  | cons m members ih => simp [ih]

/-- An array is no deeper than `n` if it has less depth inside. -/
theorem depth_array_le {xs : List Value} {n : ℕ} :
    (array xs).depth ≤ n ↔ 0 < n ∧ ∀ x ∈ xs, x.depth < n := by
  rw [depth_array]
  cases n with
  | zero => exact iff_of_false (Nat.not_succ_le_zero _) fun h => absurd h.1 (lt_irrefl 0)
  | succ n =>
    rw [Nat.succ_le_succ_iff, depthAll_le]
    simp only [Nat.lt_succ_iff, Nat.zero_le, true_and]

theorem depth_object_le {members : List (String × Value)} {n : ℕ} :
    (object members).depth ≤ n ↔ 0 < n ∧ ∀ m ∈ members, m.2.depth < n := by
  rw [depth_object]
  cases n with
  | zero => exact iff_of_false (Nat.not_succ_le_zero _) fun h => absurd h.1 (lt_irrefl 0)
  | succ n =>
    rw [Nat.succ_le_succ_iff, depthMembers_le]
    simp only [Nat.lt_succ_iff, Nat.zero_le, true_and]

@[simp] theorem depth_string (s : String) : (string s).depth = 0 := rfl

@[simp] theorem depth_number (n : Number) : (number n).depth = 0 := rfl

/-- Collected, a value is in memory and no deeper. -/
theorem Plain.collected {v : Value} (h : v.Plain) :
    v.collect.InMemory ∧ v.collect.depth ≤ v.depth := by
  induction h with
  | null => exact ⟨.null, le_rfl⟩
  | bool b => exact ⟨.bool b, le_rfl⟩
  | number hn => exact ⟨.number hn, le_rfl⟩
  | string s => exact ⟨.string s, le_rfl⟩
  | @array xs _ ih =>
    rw [collect_array]
    obtain ⟨hpos, hxs⟩ := depth_array_le.mp (le_refl (Value.array xs).depth)
    constructor
    · refine .array fun x hx => ?_
      obtain ⟨y, hy, rfl⟩ := List.mem_map.mp hx
      exact (ih y hy).1
    · refine depth_array_le.mpr ⟨hpos, fun x hx => ?_⟩
      obtain ⟨y, hy, rfl⟩ := List.mem_map.mp hx
      exact (ih y hy).2.trans_lt (hxs y hy)
  | @object members _ ih =>
    rw [collect_object]
    obtain ⟨hpos, hmembers⟩ := depth_object_le.mp (le_refl (Value.object members).depth)
    constructor
    · refine .object (SortedMap.ascending_ofList _) fun m hm => ?_
      obtain ⟨m', hm', rfl⟩ := List.mem_map.mp (SortedMap.mem_of_mem_ofList hm)
      exact (ih m' hm').1
    · refine depth_object_le.mpr ⟨hpos, fun m hm => ?_⟩
      obtain ⟨m', hm', rfl⟩ := List.mem_map.mp (SortedMap.mem_of_mem_ofList hm)
      exact (ih m' hm').2.trans_lt (hmembers m' hm')

def Inside (v x : Value) : Prop := x.InMemory ∧ x.depth < v.depth

theorem InMemory.inside_array {xs : List Value} (h : (Value.array xs).InMemory) :
    ∀ x ∈ xs, (Value.array xs).Inside x := by
  cases h with
  | array h => exact fun x hx => ⟨h x hx, (depth_array_le.mp le_rfl).2 x hx⟩

theorem InMemory.inside_object {members : List (String × Value)}
    (h : (Value.object members).InMemory) : ∀ m ∈ members, (Value.object members).Inside m.2 := by
  cases h with
  | object _ h => exact fun m hm => ⟨h m hm, (depth_object_le.mp le_rfl).2 m hm⟩

end Value

open Value

/-! ## Parts -/

section Parts

variable {v : Value} (hv : v.InMemory)

include hv

theorem structFields_inside {names : List String} {vs : List Value}
    (h : structFields names v = some vs) : 0 < v.depth ∧ ∀ x ∈ vs, v.Inside x := by
  unfold structFields at h
  split at h
  · rename_i members
    refine ⟨(depth_object_le.mp (le_refl (Value.object members).depth)).1, ?_⟩
    induction names generalizing vs with
    | nil =>
      cases h
      simp
    | cons name names ih =>
      rw [List.mapM_cons] at h
      obtain ⟨x, hx, h⟩ := Option.bind_eq_some_iff.mp h
      obtain ⟨xs, hxs, h⟩ := Option.bind_eq_some_iff.mp h
      cases h
      refine List.forall_mem_cons.mpr ⟨?_, ih hxs⟩
      exact hv.inside_object _ (SortedMap.mem_of_get hx)
  · split_ifs at h
    cases h
    exact ⟨(depth_array_le.mp le_rfl).1, hv.inside_array⟩
  · cases h

theorem fields_of_bind {α : Type} {names : List String} {k : List Value → Option α} {a : α}
    (h : (structFields names v).bind k = some a) :
    ∃ vs, k vs = some a ∧ 0 < v.depth ∧ ∀ x ∈ vs, v.Inside x := by
  obtain ⟨vs, hvs, h⟩ := Option.bind_eq_some_iff.mp h
  exact ⟨vs, h, structFields_inside hv hvs⟩

theorem taggedContent_inside {tag name : String} {content : Value}
    (h : taggedContent tag v = some (name, content)) :
    content.InMemory ∧ content.depth ≤ v.depth := by
  unfold taggedContent at h
  split at h
  · obtain ⟨x, hx, h⟩ := Option.bind_eq_some_iff.mp h
    obtain ⟨s, hs, h⟩ := Option.bind_eq_some_iff.mp h
    cases h
    exact ⟨hv, le_rfl⟩
  · rename_i x xs
    obtain ⟨s, hs, h⟩ := Option.bind_eq_some_iff.mp h
    cases h
    obtain ⟨hpos, hxs⟩ := depth_array_le.mp (le_refl (Value.array (x :: xs)).depth)
    refine ⟨.array fun y hy => (hv.inside_array y (by simp [hy])).1, ?_⟩
    exact depth_array_le.mpr ⟨hpos, fun y hy => hxs y (by simp [hy])⟩
  · cases h

theorem decodeVec_forall {α : Type} {decode : Value → Option α} {xs : List α}
    (h : decodeVec decode v = some xs) : 0 < v.depth ∧
      ∀ a ∈ xs, ∃ x, v.Inside x ∧ decode x = some a := by
  unfold decodeVec at h
  split at h
  · rename_i vs
    have hmem : ∀ (vs : List Value) (xs : List α), vs.mapM decode = some xs →
        ∀ a ∈ xs, ∃ x ∈ vs, decode x = some a := by
      intro vs
      induction vs with
      | nil =>
        intro xs hxs a ha
        cases hxs
        cases ha
      | cons v vs ih =>
        intro xs hxs a ha
        rw [List.mapM_cons] at hxs
        obtain ⟨b, hb, hxs⟩ := Option.bind_eq_some_iff.mp hxs
        obtain ⟨bs, hbs, hxs⟩ := Option.bind_eq_some_iff.mp hxs
        cases hxs
        rcases List.mem_cons.mp ha with rfl | ha
        · exact ⟨v, by simp, hb⟩
        · obtain ⟨x, hx, hxa⟩ := ih bs hbs a ha
          exact ⟨x, by simp [hx], hxa⟩
    refine ⟨(depth_array_le.mp (le_refl (Value.array vs).depth)).1, fun a ha => ?_⟩
    obtain ⟨x, hx, hxa⟩ := hmem vs xs h a ha
    exact ⟨x, hv.inside_array x hx, hxa⟩
  · cases h

end Parts

/-! ## Doubles -/

theorem F64.magnitude_lt {x : F64} (h : x.bits.toNat < 0x7ff0000000000000) :
    x.magnitude < 0x7ff0000000000000 := by
  unfold magnitude
  rw [UInt64.toNat_and]
  exact Nat.and_le_left.trans_lt h

theorem F64.magnitude_neg (x : F64) : x.neg.magnitude = x.magnitude := by
  unfold magnitude neg
  rw [UInt64.toNat_and, UInt64.toNat_and, UInt64.toNat_xor, Nat.and_xor_distrib_right]
  have hsign : (0x8000000000000000 : UInt64).toNat &&& (0x7fffffffffffffff : UInt64).toNat = 0 := by
    decide
  rw [hsign, Nat.xor_zero]

/-- A mantissa has 53 bits, or it is rounded up to the next power. -/
theorem F64.mantissa_le {n e : ℕ} (hn : n < 2 ^ (e + 1)) :
    (if e ≤ 52 then n * 2 ^ (52 - e)
      else if 2 ^ (e - 53) < n % 2 ^ (e - 52) ∨
          (n % 2 ^ (e - 52) = 2 ^ (e - 53) ∧ n / 2 ^ (e - 52) % 2 = 1) then n / 2 ^ (e - 52) + 1
        else n / 2 ^ (e - 52)) ≤ 2 ^ 53 := by
  by_cases he : e ≤ 52
  · rw [if_pos he]
    have hpow : 2 ^ (e + 1) * 2 ^ (52 - e) = 2 ^ 53 := by
      rw [← pow_add]
      congr 1
      omega
    rw [← hpow]
    exact Nat.mul_le_mul_right _ hn.le
  · rw [if_neg he]
    have hquot : n / 2 ^ (e - 52) < 2 ^ 53 := by
      apply Nat.div_lt_of_lt_mul
      rw [← pow_add]
      have hexp : e - 52 + 53 = e + 1 := by omega
      rwa [hexp]
    split_ifs <;> omega

/-- The double nearest to an integer is finite. -/
theorem F64.magnitude_ofNat_lt {n : ℕ} (hn : n < 2 ^ 64) :
    (F64.ofNat n).magnitude < 0x7ff0000000000000 := by
  unfold ofNat
  by_cases hzero : n = 0
  · rw [if_pos hzero]
    decide
  · rw [if_neg hzero]
    apply magnitude_lt
    have he : Nat.log2 n < 64 := (Nat.log2_lt hzero).mpr hn
    have hmantissa := mantissa_le (Nat.lt_log2_self (n := n))
    dsimp only
    rw [UInt64.toNat_ofNat']
    refine (Nat.mod_le _ _).trans_lt ?_
    omega

/-- What is taken for a double is finite. -/
theorem finite_of_asF64 {v : Value} (hv : v.InMemory) {x : F64} (h : v.asF64 = some x) :
    x.magnitude < 0x7ff0000000000000 := by
  unfold Value.asF64 at h
  split at h
  · rename_i n
    cases h
    cases hv with
    | number hn =>
      cases n with
      | posInt n => exact F64.magnitude_ofNat_lt hn
      | negInt i =>
        rw [Number.asF64, F64.magnitude_neg]
        apply F64.magnitude_ofNat_lt
        obtain ⟨hlow, hneg⟩ := hn
        omega
      | float x => exact hn
  · cases h

/-! ## The vocabulary -/

section Vocabulary

variable {v : Value} (hv : v.InMemory)

@[simp] theorem depth_natTree (n : ℕ) : (natTree n).depth = 0 := rfl

@[simp] theorem depth_floatTree (x : F64) : (floatTree x).depth = 0 := by
  unfold floatTree
  split <;> rfl

include hv

theorem Trigger.accepted {t : Trigger} (h : decode v = some t) :
    t.InRange ∧ t.toTree.depth ≤ v.depth := by
  unfold decode at h
  obtain ⟨⟨kind, content⟩, hcontent, h⟩ := Option.bind_eq_some_iff.mp h
  obtain ⟨hmem, hdepth⟩ := taggedContent_inside hv hcontent
  dsimp only at h
  -- each kind has its own fields, and a field lies less deep than the body
  split at h
  · obtain ⟨vs, h, hpos, hinside⟩ := fields_of_bind hmem h
    split at h
    · obtain ⟨sender, -, h⟩ := Option.bind_eq_some_iff.mp h
      obtain ⟨content, -, h⟩ := Option.bind_eq_some_iff.mp h
      cases h
      refine ⟨trivial, depth_object_le.mpr ⟨by omega, ?_⟩⟩
      simp
      omega
    · cases h
  · obtain ⟨vs, h, hpos, hinside⟩ := fields_of_bind hmem h
    split at h
    · obtain ⟨sequence, hsequence, h⟩ := Option.bind_eq_some_iff.mp h
      cases h
      refine ⟨lt_of_decodeNat hsequence, depth_object_le.mpr ⟨by omega, ?_⟩⟩
      simp
      omega
    · cases h
  · obtain ⟨vs, h, hpos, hinside⟩ := fields_of_bind hmem h
    split at h
    · rename_i topic payload
      obtain ⟨topic, -, h⟩ := Option.bind_eq_some_iff.mp h
      cases h
      obtain ⟨hpayload, hless⟩ := hinside payload (by simp)
      refine ⟨hpayload, depth_object_le.mpr ⟨by omega, ?_⟩⟩
      simp
      omega
    · cases h
  · obtain ⟨vs, h, hpos, hinside⟩ := fields_of_bind hmem h
    split at h
    · rename_i name value
      obtain ⟨name, -, h⟩ := Option.bind_eq_some_iff.mp h
      obtain ⟨x, hx, h⟩ := Option.bind_eq_some_iff.mp h
      cases h
      refine ⟨finite_of_asF64 (hinside value (by simp)).1 hx, depth_object_le.mpr ⟨by omega, ?_⟩⟩
      simp
      omega
    · cases h
  · cases h

theorem Goal.accepted {g : Goal} (h : decode v = some g) :
    g.InRange ∧ g.toTree.depth ≤ v.depth := by
  unfold decode at h
  obtain ⟨vs, h, hpos, hinside⟩ := fields_of_bind hv h
  split at h
  · rename_i id revision objective trigger
    obtain ⟨id, -, h⟩ := Option.bind_eq_some_iff.mp h
    obtain ⟨n, hn, h⟩ := Option.bind_eq_some_iff.mp h
    obtain ⟨objective, -, h⟩ := Option.bind_eq_some_iff.mp h
    obtain ⟨t, ht, h⟩ := Option.bind_eq_some_iff.mp h
    cases h
    obtain ⟨htrigger, hless⟩ := hinside trigger (by simp)
    obtain ⟨hrange, hdepth⟩ := Trigger.accepted htrigger ht
    refine ⟨⟨lt_of_decodeNat hn, hrange⟩, depth_object_le.mpr ⟨hpos, ?_⟩⟩
    simp
    omega
  · cases h

theorem Fragment.accepted {f : Fragment} (h : decode v = some f) : f.toTree.depth ≤ v.depth := by
  unfold decode at h
  obtain ⟨vs, -, hpos, -⟩ := fields_of_bind hv h
  refine depth_object_le.mpr ⟨hpos, ?_⟩
  simp
  omega

theorem Context.accepted {ctx : Context} (h : decode v = some ctx) :
    ctx.toTree.depth ≤ v.depth := by
  unfold decode at h
  obtain ⟨vs, h, hpos, hinside⟩ := fields_of_bind hv h
  split at h
  · rename_i fragments
    obtain ⟨fs, hfs, h⟩ := Option.bind_eq_some_iff.mp h
    cases h
    obtain ⟨hfragments, hless⟩ := hinside fragments (by simp)
    obtain ⟨hpos', hall⟩ := decodeVec_forall hfragments hfs
    have hdepth : (Value.array (fs.map Fragment.toTree)).depth ≤ fragments.depth := by
      refine depth_array_le.mpr ⟨hpos', List.forall_mem_map.mpr fun f hf => ?_⟩
      obtain ⟨x, hx, hxf⟩ := hall f hf
      exact (Fragment.accepted hx.1 hxf).trans_lt hx.2
    refine depth_object_le.mpr ⟨hpos, ?_⟩
    simp
    omega
  · cases h

theorem Capability.accepted {cap : Capability} (h : decode v = some cap) :
    cap.argsSchema.InMemory ∧ cap.toTree.depth ≤ v.depth := by
  unfold decode at h
  obtain ⟨vs, h, hpos, hinside⟩ := fields_of_bind hv h
  split at h
  · rename_i id summary argsSchema
    obtain ⟨id, -, h⟩ := Option.bind_eq_some_iff.mp h
    obtain ⟨summary, -, h⟩ := Option.bind_eq_some_iff.mp h
    cases h
    obtain ⟨hschema, hless⟩ := hinside argsSchema (by simp)
    refine ⟨hschema, depth_object_le.mpr ⟨hpos, ?_⟩⟩
    simp
    omega
  · cases h

theorem ActionIntent.args_inside {capability args correlation : Value}
    (h : invokeFields v = some (capability, args, correlation)) : v.Inside args := by
  unfold invokeFields at h
  split at h
  · obtain ⟨c, hc, h⟩ := Option.bind_eq_some_iff.mp h
    obtain ⟨a, ha, h⟩ := Option.bind_eq_some_iff.mp h
    cases h
    exact hv.inside_object _ (SortedMap.mem_of_get ha)
  · cases h
    exact hv.inside_array args (by simp)
  · cases h
    exact hv.inside_array args (by simp)
  · cases h

theorem ActionIntent.accepted {i : ActionIntent} (h : decode v = some i) :
    i.InRange ∧ i.toTree.depth ≤ v.depth := by
  unfold decode at h
  obtain ⟨⟨intent, content⟩, hcontent, h⟩ := Option.bind_eq_some_iff.mp h
  obtain ⟨hmem, hdepth⟩ := taggedContent_inside hv hcontent
  dsimp only at h
  split at h
  · obtain ⟨⟨capability, args, correlation⟩, hfields, h⟩ := Option.bind_eq_some_iff.mp h
    dsimp only at h
    obtain ⟨capability, -, h⟩ := Option.bind_eq_some_iff.mp h
    obtain ⟨correlation, -, h⟩ := Option.bind_eq_some_iff.mp h
    cases h
    -- the arguments lie inside the body, and the correlation may be left out
    obtain ⟨hargs, hless⟩ := args_inside hmem hfields
    refine ⟨hargs, ?_⟩
    cases correlation with
    | none =>
      refine depth_object_le.mpr ⟨by omega, ?_⟩
      simp
      omega
    | some correlation =>
      refine depth_object_le.mpr ⟨by omega, ?_⟩
      simp
      omega
  · obtain ⟨vs, h, hpos, -⟩ := fields_of_bind hmem h
    split at h
    · obtain ⟨body, -, h⟩ := Option.bind_eq_some_iff.mp h
      cases h
      refine ⟨trivial, depth_object_le.mpr ⟨by omega, ?_⟩⟩
      simp
      omega
    · cases h
  · obtain ⟨vs, h, hpos, -⟩ := fields_of_bind hmem h
    split at h
    · obtain ⟨name, -, h⟩ := Option.bind_eq_some_iff.mp h
      obtain ⟨outcome, -, h⟩ := Option.bind_eq_some_iff.mp h
      cases h
      refine ⟨trivial, depth_object_le.mpr ⟨by omega, ?_⟩⟩
      simp
      omega
    · cases h
  · cases h

theorem Decision.accepted {d : Decision} (h : decode v = some d) :
    (∀ i ∈ d.intents, i.InRange) ∧ d.toTree.depth ≤ v.depth := by
  unfold decode at h
  obtain ⟨vs, h, hpos, hinside⟩ := fields_of_bind hv h
  split at h
  · rename_i intents
    obtain ⟨is, his, h⟩ := Option.bind_eq_some_iff.mp h
    cases h
    obtain ⟨hintents, hless⟩ := hinside intents (by simp)
    obtain ⟨hpos', hall⟩ := decodeVec_forall hintents his
    have hdepth : (Value.array (is.map ActionIntent.toTree)).depth ≤ intents.depth := by
      refine depth_array_le.mpr ⟨hpos', List.forall_mem_map.mpr fun i hi => ?_⟩
      obtain ⟨x, hx, hxi⟩ := hall i hi
      exact (ActionIntent.accepted hx.1 hxi).2.trans_lt hx.2
    constructor
    · intro i hi
      obtain ⟨x, hx, hxi⟩ := hall i hi
      exact (ActionIntent.accepted hx.1 hxi).1
    · refine depth_object_le.mpr ⟨hpos, ?_⟩
      simp
      omega
  · cases h

end Vocabulary

/-- No text is read as a tree that is nested deeper than the reader goes. -/
def JsonText.ReadsNested (J : JsonText) : Prop :=
  ∀ text t, J.read text = some t → t.depth ≤ JsonText.NESTING_LIMIT

/-! ## Bodies and envelopes -/

namespace Body

section Bodies

variable {v : Value} (hv : v.InMemory) {body : Body}

include hv

theorem accepted_hello (h : fromValue .hello v = some body) :
    body.ty = .hello ∧ body.InRange ∧ body.toTree.depth ≤ v.depth := by
  obtain ⟨vs, h, hpos, hinside⟩ := fields_of_bind hv h
  split at h
  · obtain ⟨n, hn, h⟩ := Option.bind_eq_some_iff.mp h
    obtain ⟨profile, -, h⟩ := Option.bind_eq_some_iff.mp h
    obtain ⟨client, -, h⟩ := Option.bind_eq_some_iff.mp h
    cases h
    refine ⟨rfl, lt_of_decodeNat hn, depth_object_le.mpr ⟨hpos, ?_⟩⟩
    simp
    omega
  · cases h

theorem accepted_welcome (h : fromValue .welcome v = some body) :
    body.ty = .welcome ∧ body.InRange ∧ body.toTree.depth ≤ v.depth := by
  obtain ⟨vs, h, hpos, hinside⟩ := fields_of_bind hv h
  split at h
  · rename_i version server minds
    obtain ⟨n, hn, h⟩ := Option.bind_eq_some_iff.mp h
    obtain ⟨server, -, h⟩ := Option.bind_eq_some_iff.mp h
    obtain ⟨ms, hms, h⟩ := Option.bind_eq_some_iff.mp h
    cases h
    obtain ⟨hminds, hless⟩ := hinside minds (by simp)
    have hpos' := (decodeVec_forall hminds hms).1
    have hdepth : (Value.array (ms.map fun mind => .string mind.asStr)).depth ≤ minds.depth :=
      depth_array_le.mpr ⟨hpos', List.forall_mem_map.mpr fun _ _ => hpos'⟩
    refine ⟨rfl, lt_of_decodeNat hn, depth_object_le.mpr ⟨hpos, ?_⟩⟩
    simp
    omega
  · cases h

theorem accepted_registerCapabilities (h : fromValue .registerCapabilities v = some body) :
    body.ty = .registerCapabilities ∧ body.InRange ∧ body.toTree.depth ≤ v.depth := by
  obtain ⟨vs, h, hpos, hinside⟩ := fields_of_bind hv h
  split at h
  · rename_i capabilities
    obtain ⟨caps, hcaps, h⟩ := Option.bind_eq_some_iff.mp h
    cases h
    obtain ⟨hcapabilities, hless⟩ := hinside capabilities (by simp)
    obtain ⟨hpos', hall⟩ := decodeVec_forall hcapabilities hcaps
    have hdepth : (Value.array (caps.map Capability.toTree)).depth ≤ capabilities.depth := by
      refine depth_array_le.mpr ⟨hpos', List.forall_mem_map.mpr fun cap hcap => ?_⟩
      obtain ⟨x, hx, hxcap⟩ := hall cap hcap
      exact (Capability.accepted hx.1 hxcap).2.trans_lt hx.2
    refine ⟨rfl, fun cap hcap => ?_, depth_object_le.mpr ⟨hpos, ?_⟩⟩
    · obtain ⟨x, hx, hxcap⟩ := hall cap hcap
      exact (Capability.accepted hx.1 hxcap).1
    · simp
      omega
  · cases h

theorem accepted_instantiateSoul (h : fromValue .instantiateSoul v = some body) :
    body.ty = .instantiateSoul ∧ body.InRange ∧ body.toTree.depth ≤ v.depth := by
  obtain ⟨vs, h, hpos, hinside⟩ := fields_of_bind hv h
  split at h
  · rename_i soulId mind soul
    obtain ⟨soulId, -, h⟩ := Option.bind_eq_some_iff.mp h
    obtain ⟨mind, -, h⟩ := Option.bind_eq_some_iff.mp h
    cases h
    obtain ⟨hsoul, hless⟩ := hinside soul (by simp)
    refine ⟨rfl, hsoul, depth_object_le.mpr ⟨hpos, ?_⟩⟩
    simp
    omega
  · cases h

theorem accepted_releaseSoul (h : fromValue .releaseSoul v = some body) :
    body.ty = .releaseSoul ∧ body.InRange ∧ body.toTree.depth ≤ v.depth := by
  obtain ⟨vs, h, hpos, hinside⟩ := fields_of_bind hv h
  split at h
  · obtain ⟨soulId, -, h⟩ := Option.bind_eq_some_iff.mp h
    cases h
    refine ⟨rfl, trivial, depth_object_le.mpr ⟨hpos, ?_⟩⟩
    simp
    omega
  · cases h

theorem accepted_perceive (h : fromValue .perceive v = some body) :
    body.ty = .perceive ∧ body.InRange ∧ body.toTree.depth ≤ v.depth := by
  obtain ⟨vs, h, hpos, hinside⟩ := fields_of_bind hv h
  split at h
  · rename_i soulId goal context
    obtain ⟨soulId, -, h⟩ := Option.bind_eq_some_iff.mp h
    obtain ⟨g, hg, h⟩ := Option.bind_eq_some_iff.mp h
    obtain ⟨ctx, hctx, h⟩ := Option.bind_eq_some_iff.mp h
    cases h
    obtain ⟨hgoal, hless⟩ := hinside goal (by simp)
    obtain ⟨hcontext, hless'⟩ := hinside context (by simp)
    obtain ⟨hrange, hdepth⟩ := Goal.accepted hgoal hg
    have hdepth' := Context.accepted hcontext hctx
    refine ⟨rfl, hrange, depth_object_le.mpr ⟨hpos, ?_⟩⟩
    simp
    omega
  · cases h

theorem accepted_decision (h : fromValue .decision v = some body) :
    body.ty = .decision ∧ body.InRange ∧ body.toTree.depth ≤ v.depth := by
  obtain ⟨vs, h, hpos, hinside⟩ := fields_of_bind hv h
  split at h
  · rename_i soulId goalId goalRevision decided
    obtain ⟨soulId, -, h⟩ := Option.bind_eq_some_iff.mp h
    obtain ⟨goalId, -, h⟩ := Option.bind_eq_some_iff.mp h
    obtain ⟨n, hn, h⟩ := Option.bind_eq_some_iff.mp h
    obtain ⟨d, hd, h⟩ := Option.bind_eq_some_iff.mp h
    cases h
    obtain ⟨hdecided, hless⟩ := hinside decided (by simp)
    obtain ⟨hrange, hdepth⟩ := Decision.accepted hdecided hd
    refine ⟨rfl, ⟨lt_of_decodeNat hn, hrange⟩, depth_object_le.mpr ⟨hpos, ?_⟩⟩
    simp
    omega
  · cases h

theorem accepted_ack (h : fromValue .ack v = some body) :
    body.ty = .ack ∧ body.InRange ∧ body.toTree.depth ≤ v.depth := by
  obtain ⟨vs, h, hpos, hinside⟩ := fields_of_bind hv h
  split at h
  · cases h
    exact ⟨rfl, trivial, depth_object_le.mpr ⟨hpos, by simp⟩⟩
  · cases h

theorem accepted_error (h : fromValue .error v = some body) :
    body.ty = .error ∧ body.InRange ∧ body.toTree.depth ≤ v.depth := by
  obtain ⟨vs, h, hpos, hinside⟩ := fields_of_bind hv h
  split at h
  · obtain ⟨code, -, h⟩ := Option.bind_eq_some_iff.mp h
    obtain ⟨message, -, h⟩ := Option.bind_eq_some_iff.mp h
    cases h
    refine ⟨rfl, trivial, depth_object_le.mpr ⟨hpos, ?_⟩⟩
    simp
    omega
  · cases h

theorem accepted_shutdown (h : fromValue .shutdown v = some body) :
    body.ty = .shutdown ∧ body.InRange ∧ body.toTree.depth ≤ v.depth := by
  obtain ⟨vs, h, hpos, hinside⟩ := fields_of_bind hv h
  split at h
  · cases h
    exact ⟨rfl, trivial, depth_object_le.mpr ⟨hpos, by simp⟩⟩
  · cases h

/-- The type of the body says what it is read as. -/
theorem accepted {ty : MessageType} (h : fromValue ty v = some body) :
    body.ty = ty ∧ body.InRange ∧ body.toTree.depth ≤ v.depth := by
  cases ty with
  | hello => exact accepted_hello hv h
  | welcome => exact accepted_welcome hv h
  | registerCapabilities => exact accepted_registerCapabilities hv h
  | instantiateSoul => exact accepted_instantiateSoul hv h
  | releaseSoul => exact accepted_releaseSoul hv h
  | perceive => exact accepted_perceive hv h
  | decision => exact accepted_decision hv h
  | ack => exact accepted_ack hv h
  | error => exact accepted_error hv h
  | shutdown => exact accepted_shutdown hv h

end Bodies

end Body

namespace Envelope

/-- What has been decoded of an envelope of depth `n`. -/
structure Fields.Sound (f : Fields) (n : ℕ) : Prop where
  v : ∀ v, f.v = some v → v < 2 ^ 32
  seq : ∀ seq, f.seq = some seq → seq < 2 ^ 64
  re : ∀ re, f.re = some (some re) → re < 2 ^ 64
  body : ∀ body, f.body = some body → body.InMemory ∧ body.depth < n

theorem lt_of_decodeOption {bound n : ℕ} {v : Value}
    (h : decodeOption (decodeNat bound) v = some (some n)) : n < bound := by
  unfold decodeOption at h
  split at h
  · cases h
  · obtain ⟨m, hm, h⟩ := Option.map_eq_some_iff.mp h
    cases h
    exact lt_of_decodeNat hm

theorem Fields.Sound.read {f f' : Fields} {n : ℕ} (hf : f.Sound n) {member : String × Value}
    (hplain : member.2.Plain) (hdepth : member.2.depth < n) (h : f.read member = some f') :
    f'.Sound n := by
  unfold Fields.read at h
  split at h
  · obtain ⟨v, hv, h⟩ := Option.bind_eq_some_iff.mp h
    cases h
    refine ⟨fun v' h' => ?_, hf.seq, hf.re, hf.body⟩
    cases h'
    exact lt_of_decodeNat hv
  · obtain ⟨seq, hseq, h⟩ := Option.bind_eq_some_iff.mp h
    cases h
    refine ⟨hf.v, fun seq' h' => ?_, hf.re, hf.body⟩
    cases h'
    exact lt_of_decodeNat hseq
  · obtain ⟨re, hre, h⟩ := Option.bind_eq_some_iff.mp h
    cases h
    refine ⟨hf.v, hf.seq, fun re' h' => ?_, hf.body⟩
    cases h'
    exact lt_of_decodeOption hre
  · obtain ⟨ty, -, h⟩ := Option.bind_eq_some_iff.mp h
    cases h
    exact ⟨hf.v, hf.seq, hf.re, hf.body⟩
  · cases h
    refine ⟨hf.v, hf.seq, hf.re, fun body h' => ?_⟩
    cases h'
    obtain ⟨hmemory, hle⟩ := hplain.collected
    exact ⟨hmemory, hle.trans_lt hdepth⟩
  · cases h
    exact hf

theorem Fields.Sound.reads {f f' : Fields} {n : ℕ} (hf : f.Sound n)
    {members : List (String × Value)} (hplain : ∀ m ∈ members, m.2.Plain)
    (hdepth : ∀ m ∈ members, m.2.depth < n) (h : members.foldlM Fields.read f = some f') :
    f'.Sound n := by
  induction members generalizing f with
  | nil =>
    cases h
    exact hf
  | cons m members ih =>
    rw [List.foldlM_cons] at h
    obtain ⟨f₁, hread, h⟩ := Option.bind_eq_some_iff.mp h
    have hf₁ := hf.read (hplain m (by simp)) (hdepth m (by simp)) hread
    exact ih hf₁ (fun m' hm => hplain m' (by simp [hm])) (fun m' hm => hdepth m' (by simp [hm])) h

/-- What is decoded is in range, has the type of its body and is no deeper than the tree it was
decoded from. -/
theorem accepted {v : Value} (hv : v.Plain) {env : Envelope} (h : decode v = some env) :
    env.ty = env.body.ty ∧ env.InRange ∧ env.toTree.depth ≤ v.depth := by
  unfold decode at h
  split at h
  · rename_i members
    obtain ⟨hpos, hless⟩ := depth_object_le.mp (le_refl (Value.object members).depth)
    obtain ⟨f, hf, h⟩ := Option.bind_eq_some_iff.mp h
    have hsound : f.Sound (Value.object members).depth := by
      apply Fields.Sound.reads (f := ⟨none, none, none, none, none⟩) _
        (plain_object.mp hv) hless hf
      constructor <;> simp
    obtain ⟨n, hn, h⟩ := Option.bind_eq_some_iff.mp h
    obtain ⟨seq, hseq, h⟩ := Option.bind_eq_some_iff.mp h
    obtain ⟨ty, hty, h⟩ := Option.bind_eq_some_iff.mp h
    obtain ⟨b, hb, h⟩ := Option.bind_eq_some_iff.mp h
    obtain ⟨body, hbody, h⟩ := Option.bind_eq_some_iff.mp h
    cases h
    obtain ⟨hmemory, hdepth⟩ := hsound.body b hb
    obtain ⟨hbodyTy, hrange, hle⟩ := Body.accepted hmemory hbody
    refine ⟨hbodyTy.symm, ⟨hsound.v n hn, hsound.seq seq hseq, ?_, hrange⟩, ?_⟩
    · intro re hre
      apply hsound.re re
      cases hr : f.re with
      | none => simp [hr] at hre
      | some r => simpa [hr] using hre
    · refine depth_object_le.mpr ⟨hpos, ?_⟩
      cases f.re.getD none <;> simp <;> omega
  · cases h

end Envelope

/-- Whatever line is accepted as an envelope, the envelope is in range and has the type of its
body, and it is written as one line that is accepted as the same envelope. -/
theorem accepted_settles {J : JsonText} (hplain : J.ReadsPlain) (hnested : J.ReadsNested)
    (hfloats : J.FloatsOnOneLine) {line : String} {env : Envelope}
    (h : Envelope.fromNdjson J line = some env) (hread : J.ReadsBack env.toTree) :
    env.ty = env.body.ty ∧ env.InRange ∧ Envelope.fromNdjson J (env.toNdjson J) = some env ∧
      '\n' ∉ (env.toNdjson J).toList := by
  obtain ⟨v, hv, hdecode⟩ := Option.bind_eq_some_iff.mp h
  obtain ⟨hty, hrange, hdepth⟩ := Envelope.accepted (hplain line v hv) hdecode
  have htree : J.read (env.toNdjson J) = some env.toTree :=
    hread (Envelope.plain hrange) (hdepth.trans (hnested line v hv))
  refine ⟨hty, hrange, ?_, ?_⟩
  · unfold Envelope.fromNdjson
    rw [htree, Option.bind_some, Envelope.decode_toTree hrange hty]
  · unfold Envelope.toNdjson JsonText.write
    rw [String.toList_ofList]
    exact JsonText.newline_notMem_chars hfloats (Envelope.plain hrange)

def released : Envelope := ⟨0, 7, none, .releaseSoul, .releaseSoul ⟨"s"⟩⟩

def releasedText : String := released.toNdjson (.readsOnly [])

/-- The same with a second `seq` and a note, and with the body as an array. -/
def releasedLoosely : Value :=
  .object [("seq", natTree 1), ("note", .null), ("body", .array [.string "s"]),
    ("type", .object [("release_soul", .null)]), ("seq", natTree 7), ("v", natTree 0)]

def looselyText : String :=
  "\x7b\"seq\":1,\"note\":null,\"body\":[\"s\"]," ++
    "\"type\":\x7b\"release_soul\":null\x7d,\"seq\":7,\"v\":0\x7d"

def readsReleased : JsonText :=
  .readsOnly [(releasedText, released.toTree), (looselyText, releasedLoosely)]

theorem accepted_settles_released :
    Envelope.fromNdjson readsReleased (released.toNdjson readsReleased) = some released ∧
      '\n' ∉ (released.toNdjson readsReleased).toList := by
  have hnodup : [releasedText, looselyText].Nodup := by
    have hne : releasedText ≠ looselyText := by decide
    simpa using hne
  have hnat : ∀ n, n < 2 ^ 64 → (natTree n).Plain := fun n hn => .number hn
  have hplain : readsReleased.ReadsPlain := by
    refine JsonText.readsPlain_readsOnly ?_
    simp [released, releasedLoosely, Envelope.toTree, Body.toTree, hnat, Value.Plain.null]
  have hnested : readsReleased.ReadsNested := by
    intro line t h
    have hmem := JsonText.mem_of_readsOnly h
    simp only [List.mem_cons, Prod.mk.injEq, List.not_mem_nil, or_false] at hmem
    obtain ⟨-, rfl⟩ | ⟨-, rfl⟩ := hmem <;> decide
  have hloosely : Envelope.fromNdjson readsReleased looselyText = some released := by
    have hread : readsReleased.read looselyText = some releasedLoosely :=
      JsonText.read_readsOnly (by exact hnodup) (List.mem_cons_of_mem _ List.mem_cons_self)
    rw [Envelope.fromNdjson, hread]
    rfl
  have hback : readsReleased.ReadsBack released.toTree := fun _ _ =>
    JsonText.read_readsOnly (by exact hnodup) List.mem_cons_self
  exact (accepted_settles hplain hnested JsonText.floatsOnOneLine_readsOnly hloosely hback).2.2

end Pan
