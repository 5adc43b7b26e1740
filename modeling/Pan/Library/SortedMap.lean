import Mathlib.Order.Defs.LinearOrder
import Mathlib.Data.List.Nodup
import Mathlib.Data.List.Induction
import Mathlib.Data.List.Sort

namespace SortedMap

variable {κ α : Type*} [LinearOrder κ]

/-- The entries with the value of `k` set to `v`. -/
def insert (k : κ) (v : α) : List (κ × α) → List (κ × α)
  | [] => [(k, v)]
  | (k', v') :: m =>
    if k < k' then (k, v) :: (k', v') :: m
    else if k = k' then (k, v) :: m
    else (k', v') :: insert k v m

/-- The value of `k`. -/
def get (k : κ) : List (κ × α) → Option α
  | [] => none
  | (k', v') :: m => if k = k' then some v' else get k m

/-- The keys ascend. -/
def Ascending (m : List (κ × α)) : Prop := m.Pairwise fun p q => p.1 < q.1

theorem insert_nil (k : κ) (v : α) : insert k v [] = [(k, v)] := rfl

theorem insert_cons (k k' : κ) (v v' : α) (m : List (κ × α)) : insert k v ((k', v') :: m) =
    if k < k' then (k, v) :: (k', v') :: m
    else if k = k' then (k, v) :: m
    else (k', v') :: insert k v m := rfl

@[simp] theorem get_nil (k : κ) : get k ([] : List (κ × α)) = none := rfl

theorem get_cons (k k' : κ) (v' : α) (m : List (κ × α)) :
    get k ((k', v') :: m) = if k = k' then some v' else get k m := rfl

theorem get_insert (k k' : κ) (v : α) (m : List (κ × α)) :
    get k' (insert k v m) = if k' = k then some v else get k' m := by
  induction m with
  | nil => rfl
  | cons p m ih =>
    obtain ⟨k₀, v₀⟩ := p
    by_cases hlt : k < k₀
    · rw [insert_cons, if_pos hlt, get_cons]
    · by_cases heq : k = k₀
      · subst heq
        rw [insert_cons, if_neg hlt, if_pos rfl, get_cons, get_cons]
        split_ifs <;> rfl
      · rw [insert_cons, if_neg hlt, if_neg heq, get_cons, get_cons, ih]
        by_cases hk : k' = k
        · subst hk
          simp [heq]
        · simp [hk]

theorem map_insert {β : Type*} (f : α → β) (k : κ) (v : α) (m : List (κ × α)) :
    (insert k v m).map (fun p => (p.1, f p.2)) =
      insert k (f v) (m.map fun p => (p.1, f p.2)) := by
  induction m with
  | nil => rfl
  | cons p m ih =>
    rw [insert_cons, List.map_cons, insert_cons]
    split_ifs
    · rfl
    · rfl
    · rw [List.map_cons, ih]

theorem get_map {β : Type*} (f : α → β) (k : κ) (m : List (κ × α)) :
    get k (m.map fun p => (p.1, f p.2)) = (get k m).map f := by
  induction m with
  | nil => rfl
  | cons p m ih =>
    rw [List.map_cons, get_cons, get_cons, ih]
    split_ifs <;> rfl

theorem mem_insert {k : κ} {v : α} {p : κ × α} {m : List (κ × α)} (h : p ∈ insert k v m) :
    p = (k, v) ∨ p ∈ m := by
  induction m with
  | nil => simpa [insert_nil] using h
  | cons q m ih =>
    rw [insert_cons] at h
    split_ifs at h <;> grind

theorem ascending_insert (k : κ) (v : α) {m : List (κ × α)} (hm : Ascending m) :
    Ascending (insert k v m) := by
  induction m with
  | nil => simp [insert_nil, Ascending]
  | cons q m ih =>
    obtain ⟨k', v'⟩ := q
    obtain ⟨hhead, htail⟩ := List.pairwise_cons.mp hm
    rw [insert_cons]
    split_ifs with hlt heq
    · refine List.pairwise_cons.mpr ⟨fun p hp => ?_, hm⟩
      rcases List.mem_cons.mp hp with rfl | hp
      · exact hlt
      · exact lt_trans hlt (hhead p hp)
    · subst heq
      exact List.pairwise_cons.mpr ⟨hhead, htail⟩
    · refine List.pairwise_cons.mpr ⟨fun p hp => ?_, ih htail⟩
      rcases mem_insert hp with rfl | hp
      · exact lt_of_le_of_ne (not_lt.mp hlt) (Ne.symm heq)
      · exact hhead p hp

theorem mem_of_get {k : κ} {v : α} {m : List (κ × α)} (h : get k m = some v) : (k, v) ∈ m := by
  induction m with
  | nil => simp at h
  | cons q m ih =>
    obtain ⟨k', v'⟩ := q
    rw [get_cons] at h
    split_ifs at h with hk
    · obtain rfl := Option.some.inj h
      simp [hk]
    · exact List.mem_cons_of_mem _ (ih h)

theorem get_eq_some_iff {m : List (κ × α)} (hm : Ascending m) {k : κ} {v : α} :
    get k m = some v ↔ (k, v) ∈ m := by
  refine ⟨mem_of_get, fun h => ?_⟩
  induction m with
  | nil => simp at h
  | cons p m ih =>
    obtain ⟨hhead, htail⟩ := List.pairwise_cons.mp hm
    rw [get_cons]
    rcases List.mem_cons.mp h with rfl | h
    · rw [if_pos rfl]
    · rw [if_neg (ne_of_gt (hhead _ h)), ih htail h]

theorem isSome_get {k : κ} {m : List (κ × α)} : (get k m).isSome ↔ k ∈ m.map Prod.fst := by
  induction m with
  | nil => simp
  | cons p m ih =>
    rw [get_cons]
    split_ifs with hk <;> simp [hk, ih]

theorem Ascending.nodup_keys {m : List (κ × α)} (hm : Ascending m) : (m.map Prod.fst).Nodup :=
  List.pairwise_map.mpr (hm.imp ne_of_lt)

/-- Maps are equal if they have the same values under the same keys. -/
theorem ext_of_get {m m' : List (κ × α)} (hm : Ascending m) (hm' : Ascending m')
    (h : ∀ k, get k m = get k m') : m = m' := by
  have hirrefl : Std.Irrefl fun p q : κ × α => p.1 < q.1 := ⟨fun p => lt_irrefl p.1⟩
  have hantisymm : Std.Antisymm fun p q : κ × α => p.1 < q.1 :=
    ⟨fun p q hpq hqp => absurd hqp (lt_asymm hpq)⟩
  refine List.Pairwise.eq_of_mem_iff hm hm' fun p => ?_
  rw [← get_eq_some_iff hm, ← get_eq_some_iff hm', h p.1]

theorem insert_eq_self {k : κ} {v : α} {m : List (κ × α)} (hm : Ascending m) :
    insert k v m = m ↔ get k m = some v := by
  constructor
  · intro h
    rw [← h, get_insert, if_pos rfl]
  · intro h
    refine ext_of_get (ascending_insert k v hm) hm fun k' => ?_
    rw [get_insert]
    split_ifs with hk
    · rw [hk, h]
    · rfl

theorem ascending_filter (p : κ × α → Bool) {m : List (κ × α)} (hm : Ascending m) :
    Ascending (m.filter p) :=
  List.Pairwise.filter p hm

theorem filter_ne_eq_self {k : κ} {m : List (κ × α)} :
    (m.filter fun p => p.1 ≠ k) = m ↔ get k m = none := by
  rw [List.filter_eq_self, ← Option.not_isSome_iff_eq_none, isSome_get]
  constructor
  · rintro h hk
    obtain ⟨p, hp, rfl⟩ := List.mem_map.mp hk
    simpa using h p hp
  · intro h p hp
    simpa using fun hk => h (List.mem_map.mpr ⟨p, hp, hk⟩)

/-! ## From a list of entries -/

/-- The map of a list of entries: of those with one key, the last counts. -/
def ofList (l : List (κ × α)) : List (κ × α) := l.foldl (fun m p => insert p.1 p.2 m) []

/-- The last value of `k` in a list of entries. -/
def last (k : κ) (l : List (κ × α)) : Option α := (l.reverse.find? fun p => p.1 == k).map Prod.snd

@[simp] theorem last_nil (k : κ) : last k ([] : List (κ × α)) = none := rfl

theorem get_foldl_insert (k : κ) (l m : List (κ × α)) :
    get k (l.foldl (fun m p => insert p.1 p.2 m) m) = (last k l).or (get k m) := by
  induction l using List.reverseRecOn with
  | nil => rfl
  | append_singleton l p ih =>
    rw [List.foldl_append, List.foldl_cons, List.foldl_nil, get_insert, ih]
    unfold last
    rw [List.reverse_concat, List.find?_cons]
    by_cases hk : k = p.1
    · subst hk
      simp
    · have hne : (p.1 == k) = false := by simpa using Ne.symm hk
      rw [if_neg hk, hne]

theorem get_ofList (k : κ) (l : List (κ × α)) : get k (ofList l) = last k l := by
  unfold ofList
  rw [get_foldl_insert, get_nil, Option.or_none]

/-- An entry with a key of its own. -/
theorem last_of_nodup {l : List (κ × α)} (hl : (l.map Prod.fst).Nodup) {p : κ × α} (hp : p ∈ l) :
    last p.1 l = some p.2 := by
  unfold last
  have hfind : l.reverse.find? (fun q => q.1 == p.1) = some p := by
    have hp' : p ∈ l.reverse := List.mem_reverse.mpr hp
    cases hq : l.reverse.find? fun q => q.1 == p.1 with
    | none =>
      have := List.find?_eq_none.mp hq p hp'
      simp at this
    | some q =>
      have hkey : q.1 = p.1 := by simpa using List.find?_some hq
      have hmem : q ∈ l := List.mem_reverse.mp (List.mem_of_find?_eq_some hq)
      rw [List.inj_on_of_nodup_map hl hmem hp hkey]
  rw [hfind, Option.map_some]

theorem mem_of_last {k : κ} {v : α} {l : List (κ × α)} (h : last k l = some v) : (k, v) ∈ l := by
  unfold last at h
  obtain ⟨p, hp, rfl⟩ := Option.map_eq_some_iff.mp h
  have hkey : p.1 = k := by simpa using List.find?_some hp
  have hmem : p ∈ l := List.mem_reverse.mp (List.mem_of_find?_eq_some hp)
  rwa [← hkey]

theorem last_of_notMem {k : κ} {l : List (κ × α)} (h : k ∉ l.map Prod.fst) : last k l = none := by
  unfold last
  have hfind : l.reverse.find? (fun p => p.1 == k) = none := by
    rw [List.find?_eq_none]
    intro p hp hk
    have hp' : p ∈ l := List.mem_reverse.mp hp
    have hkey : p.1 = k := by simpa using hk
    exact h (hkey ▸ List.mem_map_of_mem hp')
  rw [hfind, Option.map_none]

theorem isSome_last {k : κ} {l : List (κ × α)} : (last k l).isSome ↔ k ∈ l.map Prod.fst := by
  unfold last
  rw [Option.isSome_map, List.find?_isSome]
  simp

/-- The map of entries with keys of their own holds these entries. -/
theorem get_ofList_eq_some_iff {l : List (κ × α)} (hl : (l.map Prod.fst).Nodup) {k : κ} {v : α} :
    get k (ofList l) = some v ↔ (k, v) ∈ l := by
  rw [get_ofList]
  exact ⟨mem_of_last, fun h => last_of_nodup hl h⟩

theorem insert_of_forall_lt {k : κ} {v : α} {m : List (κ × α)} (h : ∀ p ∈ m, p.1 < k) :
    insert k v m = m ++ [(k, v)] := by
  induction m with
  | nil => rfl
  | cons p m ih =>
    have hp : p.1 < k := h p (by simp)
    rw [insert_cons, if_neg (lt_asymm hp), if_neg (ne_of_gt hp), ih fun q hq => h q (by simp [hq])]
    rfl

theorem last_map {β : Type*} (f : α → β) (k : κ) (l : List (κ × α)) :
    last k (l.map fun p => (p.1, f p.2)) = (last k l).map f := by
  unfold last
  rw [← List.map_reverse, List.find?_map, Option.map_map, Option.map_map]
  rfl

/-- The last value among the entries with keys of some kind. -/
theorem last_filter (P : κ → Bool) (k : κ) (l : List (κ × α)) :
    last k (l.filter fun p => P p.1) = if P k then last k l else none := by
  unfold last
  rw [← List.filter_reverse, List.find?_filter]
  have hfind : ∀ p : κ × α, decide (P p.1 = true ∧ (p.1 == k) = true) = (P k && p.1 == k) := by
    intro p
    by_cases hk : p.1 = k
    · simp [hk]
    · simp [hk]
  simp only [hfind]
  cases P k <;> simp

/-- A map is the map of its entries. -/
theorem ofList_of_ascending {m : List (κ × α)} (hm : Ascending m) : ofList m = m := by
  unfold ofList
  induction m using List.reverseRecOn with
  | nil => rfl
  | append_singleton m p ih =>
    obtain ⟨hinit, -, hlast⟩ := List.pairwise_append.mp hm
    rw [List.foldl_append, List.foldl_cons, List.foldl_nil, ih hinit,
      insert_of_forall_lt fun q hq => hlast q hq p (by simp)]

theorem last_of_ascending {m : List (κ × α)} (hm : Ascending m) (k : κ) : last k m = get k m := by
  rw [← get_ofList, ofList_of_ascending hm]

theorem ascending_foldl_insert (l : List (κ × α)) {m : List (κ × α)} (hm : Ascending m) :
    Ascending (l.foldl (fun m p => insert p.1 p.2 m) m) := by
  induction l generalizing m with
  | nil => exact hm
  | cons p l ih => exact ih (ascending_insert p.1 p.2 hm)

theorem ascending_ofList (l : List (κ × α)) : Ascending (ofList l) :=
  ascending_foldl_insert l List.Pairwise.nil

theorem mem_of_mem_ofList {p : κ × α} {l : List (κ × α)} (h : p ∈ ofList l) : p ∈ l := by
  unfold ofList at h
  induction l using List.reverseRecOn with
  | nil => exact h
  | append_singleton l q ih =>
    rw [List.foldl_append, List.foldl_cons, List.foldl_nil] at h
    rcases mem_insert h with rfl | h
    · simp
    · exact List.mem_append_left _ (ih h)

theorem ofList_eq_nil_iff {l : List (κ × α)} : ofList l = [] ↔ l = [] := by
  constructor
  · intro h
    by_contra hne
    obtain ⟨p, hp⟩ := List.exists_mem_of_ne_nil l hne
    have hkey : (last p.1 l).isSome := isSome_last.mpr (List.mem_map_of_mem hp)
    rw [← get_ofList, h] at hkey
    cases hkey
  · rintro rfl
    rfl

/-- The order of entries with keys of their own does not matter. -/
theorem ofList_perm {l l' : List (κ × α)} (h : l.Perm l') (hl : (l.map Prod.fst).Nodup) :
    ofList l = ofList l' := by
  have hl' : (l'.map Prod.fst).Nodup := (h.map Prod.fst).nodup_iff.mp hl
  refine ext_of_get (ascending_ofList l) (ascending_ofList l') fun k => ?_
  ext v
  rw [get_ofList_eq_some_iff hl, get_ofList_eq_some_iff hl', h.mem_iff]

end SortedMap
