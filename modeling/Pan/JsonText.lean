import Pan.Minds

namespace Pan

/-! ## Collecting objects -/

namespace Value

mutual

/-- The value of a tree: of the members with one key, the last counts. -/
def collect : Value → Value
  | null => null
  | bool b => bool b
  | number n => number n
  | string s => string s
  | array xs => array (collectAll xs)
  | object members => object (SortedMap.ofList (collectMembers members))

def collectAll : List Value → List Value
  | [] => []
  | v :: vs => collect v :: collectAll vs

def collectMembers : List (String × Value) → List (String × Value)
  | [] => []
  | (key, v) :: members => (key, collect v) :: collectMembers members

end

theorem collectAll_eq (xs : List Value) : collectAll xs = xs.map collect := by
  induction xs with
  | nil => rfl
  | cons x xs ih => rw [collectAll, ih, List.map_cons]

theorem collectMembers_eq (members : List (String × Value)) :
    collectMembers members = members.map fun m => (m.1, m.2.collect) := by
  induction members with
  | nil => rfl
  | cons m members ih => rw [collectMembers, ih, List.map_cons]

@[simp] theorem collect_null : null.collect = null := rfl

@[simp] theorem collect_number (n : Number) : (number n).collect = number n := rfl

@[simp] theorem collect_string (s : String) : (string s).collect = string s := rfl

theorem collect_array (xs : List Value) : (array xs).collect = array (xs.map collect) := by
  rw [collect, collectAll_eq]

theorem collect_object (members : List (String × Value)) : (object members).collect =
    object (SortedMap.ofList (members.map fun m => (m.1, m.2.collect))) := by
  rw [collect, collectMembers_eq]

/-! ## Values as they are in memory -/

end Value

/-- Unsigned and negative numbers have 64 bits, and a double is finite. -/
def Number.InRange : Number → Prop
  | .posInt n => n < 2 ^ 64
  | .negInt i => -2 ^ 63 ≤ i ∧ i < 0
  | .float x => x.magnitude < 0x7ff0000000000000

namespace Value

/-- All numbers are in range. -/
inductive Plain : Value → Prop
  | null : Plain null
  | bool (b : Bool) : Plain (bool b)
  | number {n : Number} : n.InRange → Plain (number n)
  | string (s : String) : Plain (string s)
  | array {xs : List Value} : (∀ x ∈ xs, Plain x) → Plain (array xs)
  | object {members : List (String × Value)} : (∀ m ∈ members, Plain m.2) →
      Plain (object members)

/-- A value in memory: its objects are ordered maps. -/
inductive InMemory : Value → Prop
  | null : InMemory null
  | bool (b : Bool) : InMemory (bool b)
  | number {n : Number} : n.InRange → InMemory (number n)
  | string (s : String) : InMemory (string s)
  | array {xs : List Value} : (∀ x ∈ xs, InMemory x) → InMemory (array xs)
  | object {members : List (String × Value)} : SortedMap.Ascending members →
      (∀ m ∈ members, InMemory m.2) → InMemory (object members)

@[simp] theorem plain_string (s : String) : (string s).Plain := .string s

@[simp] theorem plain_array {xs : List Value} : (array xs).Plain ↔ ∀ x ∈ xs, x.Plain :=
  ⟨fun h => by cases h with | array h => exact h, .array⟩

@[simp] theorem plain_object {members : List (String × Value)} :
    (object members).Plain ↔ ∀ m ∈ members, m.2.Plain :=
  ⟨fun h => by cases h with | object h => exact h, .object⟩

theorem InMemory.plain {v : Value} (h : v.InMemory) : v.Plain := by
  induction h with
  | null => exact .null
  | bool b => exact .bool b
  | number hn => exact .number hn
  | string s => exact .string s
  | array _ ih => exact .array ih
  | object _ _ ih => exact .object ih

theorem InMemory.collect_eq {v : Value} (h : v.InMemory) : v.collect = v := by
  induction h with
  | null => rfl
  | bool b => rfl
  | number _ => rfl
  | string s => rfl
  | @array xs _ ih =>
    have hxs : xs.map collect = xs := (List.map_congr_left ih).trans (List.map_id' xs)
    rw [collect_array, hxs]
  | @object members hascending _ ih =>
    have hmembers : (members.map fun m => (m.1, m.2.collect)) = members := by
      have hid : ∀ m ∈ members, (m.1, m.2.collect) = m := fun m hm => by rw [ih m hm]
      exact (List.map_congr_left hid).trans (List.map_id' members)
    rw [collect_object, hmembers, SortedMap.ofList_of_ascending hascending]

theorem Plain.collect {v : Value} (h : v.Plain) : v.collect.Plain := by
  induction h with
  | null => exact .null
  | bool b => exact .bool b
  | number hn => exact .number hn
  | string s => exact .string s
  | array _ ih =>
    rw [collect_array]
    refine .array fun x hx => ?_
    obtain ⟨y, hy, rfl⟩ := List.mem_map.mp hx
    exact ih y hy
  | object _ ih =>
    rw [collect_object]
    refine .object fun m hm => ?_
    obtain ⟨m', hm', rfl⟩ := List.mem_map.mp (SortedMap.mem_of_mem_ofList hm)
    exact ih m' hm'

/-! ## Depth -/

mutual

def depth : Value → ℕ
  | array xs => depthAll xs + 1
  | object members => depthMembers members + 1
  | _ => 0

def depthAll : List Value → ℕ
  | [] => 0
  | v :: vs => max (depth v) (depthAll vs)

def depthMembers : List (String × Value) → ℕ
  | [] => 0
  | (_, v) :: members => max (depth v) (depthMembers members)

end

end Value

/-! ## The compact writer -/

/-- A digit of a `\u` escape. -/
def hexDigit (n : ℕ) : Char := if n < 10 then Char.ofNat (48 + n) else Char.ofNat (87 + n)

def escapeChar (c : Char) : List Char :=
  if c = '"' then ['\\', '"']
  else if c = '\\' then ['\\', '\\']
  else if c = '\x08' then ['\\', 'b']
  else if c = '\x0c' then ['\\', 'f']
  else if c = '\n' then ['\\', 'n']
  else if c = '\r' then ['\\', 'r']
  else if c = '\t' then ['\\', 't']
  else if c.toNat < 32 then ['\\', 'u', '0', '0', hexDigit (c.toNat / 16), hexDigit (c.toNat % 16)]
  else [c]

def quoteChars (s : String) : List Char := '"' :: s.toList.flatMap escapeChar ++ ['"']

/-- What `serde_json` and the standard library do with doubles and with the texts they read. -/
structure JsonText where
  /-- A finite double. -/
  floatText : F64 → String
  /-- The tree of a text, if it is one of JSON. -/
  read : String → Option Value

namespace JsonText

variable (J : JsonText)

def numberChars : Number → List Char
  | .posInt n => (toString n).toList
  | .negInt i => (toString i).toList
  | .float x => (J.floatText x).toList

mutual

def chars : Value → List Char
  | .null => ['n', 'u', 'l', 'l']
  | .bool true => ['t', 'r', 'u', 'e']
  | .bool false => ['f', 'a', 'l', 's', 'e']
  | .number n => J.numberChars n
  | .string s => quoteChars s
  | .array xs => '[' :: elements xs ++ [']']
  | .object members => '\x7b' :: membersChars members ++ ['\x7d']

def elements : List Value → List Char
  | [] => []
  | [v] => chars v
  | v :: w :: vs => chars v ++ ',' :: elements (w :: vs)

def membersChars : List (String × Value) → List Char
  | [] => []
  | [(key, v)] => quoteChars key ++ ':' :: chars v
  | (key, v) :: m :: members =>
    quoteChars key ++ ':' :: chars v ++ ',' :: membersChars (m :: members)

end

def write (t : Value) : String := String.ofList (J.chars t)

theorem elements_append {xs ys : List Value} (hxs : xs ≠ []) (hys : ys ≠ []) :
    J.elements (xs ++ ys) = J.elements xs ++ ',' :: J.elements ys := by
  obtain ⟨y, ys, rfl⟩ := List.exists_cons_of_ne_nil hys
  induction xs with
  | nil => exact absurd rfl hxs
  | cons x xs ih =>
    cases xs with
    | nil => rfl
    | cons x' xs =>
      rw [List.cons_append, List.cons_append, elements, ← List.cons_append, ih (by simp), elements,
        List.append_assoc, List.cons_append]

/-! ### One line -/

theorem newline_notMem_escapeChar (c : Char) : '\n' ∉ escapeChar c := by
  have hdigit : ∀ n < 16, hexDigit n ≠ '\n' := by decide
  unfold escapeChar
  split_ifs with _ _ _ _ hnewline _ _ hcontrol
  · decide
  · decide
  · decide
  · decide
  · decide
  · decide
  · decide
  · have hhigh := hdigit (c.toNat / 16) (by omega)
    have hlow := hdigit (c.toNat % 16) (Nat.mod_lt _ (by omega))
    simp [hhigh.symm, hlow.symm]
  · simpa using Ne.symm hnewline

theorem newline_notMem_quoteChars (s : String) : '\n' ∉ quoteChars s := by
  unfold quoteChars
  simp [newline_notMem_escapeChar]

theorem newline_notMem_natText (n : ℕ) : '\n' ∉ (toString n).toList := by
  intro hmem
  have hdigit : Char.isDigit '\n' = true := by
    apply Nat.isDigit_of_mem_toDigits (b := 10) (n := n) (by decide) (by decide)
    simpa [toString, Nat.repr] using hmem
  exact absurd hdigit (by decide)

theorem newline_notMem_intText (i : ℤ) : '\n' ∉ (toString i).toList := by
  cases i with
  | ofNat n => exact newline_notMem_natText n
  | negSucc n =>
    have htext : (toString (Int.negSucc n)).toList = '-' :: (toString (n + 1)).toList := by
      show ("-" ++ toString (n + 1)).toList = _
      rw [String.toList_append]
      rfl
    rw [htext, List.mem_cons, not_or]
    exact ⟨by decide, newline_notMem_natText (n + 1)⟩

/-- No finite double has a line feed in its text. -/
def FloatsOnOneLine : Prop :=
  ∀ x : F64, x.magnitude < 0x7ff0000000000000 → '\n' ∉ (J.floatText x).toList

/-- `serde_json` reads no deeper. -/
def NESTING_LIMIT : ℕ := 127

/-- The text of the tree is read back, if the tree is not nested too deep. -/
def ReadsBack (t : Value) : Prop :=
  t.Plain → t.depth ≤ NESTING_LIMIT → J.read (J.write t) = some t

/-- The numbers of a text are read in range. -/
def ReadsPlain : Prop := ∀ text t, J.read text = some t → t.Plain

variable {J}

theorem newline_notMem_elements {xs : List Value} (h : ∀ x ∈ xs, '\n' ∉ J.chars x) :
    '\n' ∉ J.elements xs := by
  induction xs with
  | nil => simp [elements]
  | cons x xs ih =>
    have hx : '\n' ∉ J.chars x := h x (by simp)
    have hxs : '\n' ∉ J.elements xs := ih fun y hy => h y (by simp [hy])
    cases xs with
    | nil => exact hx
    | cons y xs =>
      rw [elements]
      simp [hx, hxs]

theorem newline_notMem_members {members : List (String × Value)}
    (h : ∀ m ∈ members, '\n' ∉ J.chars m.2) : '\n' ∉ J.membersChars members := by
  induction members with
  | nil => simp [membersChars]
  | cons m members ih =>
    obtain ⟨key, v⟩ := m
    have hkey : '\n' ∉ quoteChars key := newline_notMem_quoteChars key
    have hv : '\n' ∉ J.chars v := h (key, v) (by simp)
    have hmembers : '\n' ∉ J.membersChars members := ih fun m hm => h m (by simp [hm])
    cases members with
    | nil =>
      rw [membersChars]
      simp [hkey, hv]
    | cons m members =>
      rw [membersChars]
      simp [hkey, hv, hmembers]

/-- What is written is one line. -/
theorem newline_notMem_chars (hJ : J.FloatsOnOneLine) {v : Value} (hv : v.Plain) :
    '\n' ∉ J.chars v := by
  induction hv with
  | null => simp [chars]
  | bool b => cases b <;> simp [chars]
  | @number n hn =>
    cases n with
    | posInt n => exact newline_notMem_natText n
    | negInt i => exact newline_notMem_intText i
    | float x => exact hJ x hn
  | string s => exact newline_notMem_quoteChars s
  | array _ ih =>
    have hxs := newline_notMem_elements ih
    rw [chars]
    simp [hxs]
  | object _ ih =>
    have hmembers := newline_notMem_members ih
    rw [chars]
    simp [hmembers]

/-! ### Readers of some texts -/

section Writers

variable {J' : JsonText}

mutual

theorem chars_congr (h : J.floatText = J'.floatText) : (v : Value) → J.chars v = J'.chars v
  | .null => by rw [chars, chars]
  | .bool true => by rw [chars, chars]
  | .bool false => by rw [chars, chars]
  | .number n => by
    rw [chars, chars]
    cases n with
    | float x => rw [numberChars, numberChars, h]
    | _ => rfl
  | .string s => by rw [chars, chars]
  | .array xs => by rw [chars, chars, elements_congr h xs]
  | .object members => by rw [chars, chars, membersChars_congr h members]

theorem elements_congr (h : J.floatText = J'.floatText) :
    (xs : List Value) → J.elements xs = J'.elements xs
  | [] => by rw [elements, elements]
  | [v] => by rw [elements, elements, chars_congr h v]
  | v :: w :: vs => by rw [elements, elements, chars_congr h v, elements_congr h (w :: vs)]

theorem membersChars_congr (h : J.floatText = J'.floatText) :
    (members : List (String × Value)) → J.membersChars members = J'.membersChars members
  | [] => by rw [membersChars, membersChars]
  | [(key, v)] => by rw [membersChars, membersChars, chars_congr h v]
  | (key, v) :: m :: members => by
    rw [membersChars, membersChars, chars_congr h v, membersChars_congr h (m :: members)]

end

/-- How texts are read makes no difference to what is written. -/
theorem write_congr (h : J.floatText = J'.floatText) (v : Value) : J.write v = J'.write v :=
  congrArg String.ofList (chars_congr h v)

end Writers

def readsOnly (texts : List (String × Value)) : JsonText where
  floatText _ := "0.0"
  read text := texts.lookup text

section ReadsOnly

variable {texts : List (String × Value)}

theorem mem_of_readsOnly {text : String} {t : Value}
    (h : (readsOnly texts).read text = some t) : (text, t) ∈ texts := by
  obtain ⟨before, after, rfl, -⟩ := List.lookup_eq_some_iff.mp h
  simp

theorem read_readsOnly (hnodup : (texts.map Prod.fst).Nodup) {text : String} {t : Value}
    (h : (text, t) ∈ texts) : (readsOnly texts).read text = some t := by
  obtain ⟨before, after, rfl⟩ := List.append_of_mem h
  refine List.lookup_eq_some_iff.mpr ⟨before, after, rfl, fun p hp => ?_⟩
  rw [List.map_append, List.nodup_append] at hnodup
  have hne := hnodup.2.2 p.1 (List.mem_map_of_mem hp) text (by simp)
  exact bne_iff_ne.mpr hne.symm

theorem readsPlain_readsOnly (h : ∀ p ∈ texts, p.2.Plain) : (readsOnly texts).ReadsPlain :=
  fun _ _ ht => h _ (mem_of_readsOnly ht)

theorem floatsOnOneLine_readsOnly : (readsOnly texts).FloatsOnOneLine := by
  intro x _
  show '\n' ∉ "0.0".toList
  decide

end ReadsOnly

end JsonText

end Pan
