import Mathlib.Data.List.DropRight
import Pan.Library.Pattern
import Pan.Library.Text

namespace Http

def crlf : List UInt8 := [13, 10]

/-- `tchar` -/
def isTokenByte (b : UInt8) : Bool :=
  (48 ≤ b && b ≤ 57) || (65 ≤ b && b ≤ 90) || (97 ≤ b && b ≤ 122) ||
    [33, 35, 36, 37, 38, 39, 42, 43, 45, 46, 94, 95, 96, 124, 126].contains b

def isVisible (b : UInt8) : Bool := 33 ≤ b && b != 127

def isBlank (b : UInt8) : Bool := b == 32 || b == 9

def IsToken (l : List UInt8) : Prop := l ≠ [] ∧ l.all isTokenByte = true

def IsTarget (l : List UInt8) : Prop := l ≠ [] ∧ l.all isVisible = true

def trimBlanks (l : List UInt8) : List UInt8 := (l.dropWhile isBlank).rdropWhile isBlank

/-- Visible text with blanks inside. -/
def IsValue (l : List UInt8) : Prop :=
  trimBlanks l = l ∧ l.all (fun b => isVisible b || isBlank b) = true

instance (l : List UInt8) : Decidable (IsToken l) := inferInstanceAs (Decidable (_ ∧ _))

instance (l : List UInt8) : Decidable (IsTarget l) := inferInstanceAs (Decidable (_ ∧ _))

instance (l : List UInt8) : Decidable (IsValue l) := inferInstanceAs (Decidable (_ ∧ _))

theorem isValue_of_visible {l : List UInt8} (h : l.all isVisible = true) : IsValue l := by
  have hblank : ∀ b ∈ l, isBlank b = false := by
    intro b hb
    have hvisible := List.all_eq_true.mp h b hb
    by_contra hblank
    rw [Bool.not_eq_false, isBlank, Bool.or_eq_true, beq_iff_eq, beq_iff_eq] at hblank
    rcases hblank with rfl | rfl <;> revert hvisible <;> decide
  constructor
  · have hfront : l.dropWhile isBlank = l := by
      rw [List.dropWhile_eq_self_iff]
      intro hl
      rw [hblank _ (List.getElem_mem hl)]
      exact Bool.false_ne_true
    rw [trimBlanks, hfront, List.rdropWhile_eq_self_iff]
    intro hl
    rw [hblank _ (List.getLast_mem hl)]
    exact Bool.false_ne_true
  · rw [List.all_eq_true]
    intro b hb
    rw [List.all_eq_true.mp h b hb, Bool.true_or]

abbrev Field : Type := List UInt8 × List UInt8

def lowerName (name : List UInt8) : List UInt8 :=
  name.map fun b => if 65 ≤ b && b ≤ 90 then b + 32 else b

/-- `host` -/
def hostName : List UInt8 := [104, 111, 115, 116]

/-- `content-length` -/
def lengthName : List UInt8 := [99, 111, 110, 116, 101, 110, 116, 45, 108, 101, 110, 103, 116, 104]

/-- `transfer-encoding` -/
def codingName : List UInt8 :=
  [116, 114, 97, 110, 115, 102, 101, 114, 45, 101, 110, 99, 111, 100, 105, 110, 103]

def number (l : List UInt8) : Option ℕ :=
  if l ≠ [] ∧ l.all (fun b => 48 ≤ b && b ≤ 57) = true then
    some (l.foldl (fun n b => 10 * n + (b.toNat - 48)) 0)
  else none

structure Message where
  method : List UInt8
  target : List UInt8
  fields : List Field
  body : List UInt8
deriving DecidableEq

/-- There is one host, and every length that is given is that of the body. Without a length there
is no body, and no other coding of the body is taken. -/
def Framed (fields : List Field) (body : List UInt8) : Prop :=
  (fields.filter fun f => lowerName f.1 = hostName).length = 1 ∧
    (∀ f ∈ fields, lowerName f.1 ≠ codingName) ∧
    (∀ f ∈ fields, lowerName f.1 = lengthName → number f.2 = some body.length) ∧
    (body ≠ [] → ∃ f ∈ fields, lowerName f.1 = lengthName)

instance (fields : List Field) (body : List UInt8) : Decidable (Framed fields body) :=
  inferInstanceAs (Decidable (_ ∧ _ ∧ _ ∧ _))

structure Message.WellFormed (m : Message) : Prop where
  method : IsToken m.method
  target : IsTarget m.target
  fields : ∀ f ∈ m.fields, IsToken f.1 ∧ IsValue f.2
  framed : Framed m.fields m.body

/-! ## Writing -/

/-- `HTTP/1.0` -/
def version : List UInt8 := [72, 84, 84, 80, 47, 49, 46, 48]

def renderField (f : Field) : List UInt8 := f.1 ++ 58 :: 32 :: f.2 ++ crlf

def renderFields (fields : List Field) (body : List UInt8) : List UInt8 :=
  fields.flatMap renderField ++ (crlf ++ body)

def render (m : Message) : List UInt8 :=
  m.method ++ 32 :: m.target ++ 32 :: version ++ (crlf ++ renderFields m.fields m.body)

/-! ## Reading -/

def parseStartLine (line : List UInt8) : Option (List UInt8 × List UInt8) :=
  match line.splitOn 32 with
  | [method, target, v] =>
    if IsToken method ∧ IsTarget target ∧ v = version then some (method, target) else none
  | _ => none

def parseField (line : List UInt8) : Option Field :=
  match Text.splitOnce 58 line with
  | some (name, rest) =>
    if IsToken name ∧ IsValue (trimBlanks rest) then some (name, trimBlanks rest) else none
  | none => none

/-- The headers and what stands behind the empty line after them, in so many lines at most. -/
def parseFields : ℕ → List UInt8 → Option (List Field × List UInt8)
  | 0, _ => none
  | n + 1, bytes =>
    match Text.splitAtPattern crlf bytes with
    | none => none
    | some (line, rest) =>
      if line = [] then some ([], rest)
      else
        match parseField line, parseFields n rest with
        | some f, some (fields, body) => some (f :: fields, body)
        | _, _ => none

/-- The bytes as one request, with nothing left behind it. -/
def parse (bytes : List UInt8) : Option Message :=
  match Text.splitAtPattern crlf bytes with
  | none => none
  | some (line, rest) =>
    match parseStartLine line, parseFields rest.length rest with
    | some (method, target), some (fields, body) =>
      if Framed fields body then some ⟨method, target, fields, body⟩ else none
    | _, _ => none

/-! ## What is read is well formed -/

theorem exists_of_parseFields {n : ℕ} {bytes body : List UInt8} {fields : List Field}
    (h : parseFields n bytes = some (fields, body)) :
    ∀ f ∈ fields, IsToken f.1 ∧ IsValue f.2 := by
  induction n generalizing bytes fields with
  | zero => cases h
  | succ n ih =>
    rw [parseFields] at h
    rcases hsplit : Text.splitAtPattern crlf bytes with _ | ⟨line, rest⟩
    · simp [hsplit] at h
    · simp only [hsplit] at h
      split_ifs at h with hline
      · obtain ⟨rfl, -⟩ := Prod.mk.inj (Option.some.inj h)
        exact List.forall_mem_nil _
      · rcases hfield : parseField line with _ | f
        · simp [hfield] at h
        · rcases hrest : parseFields n rest with _ | ⟨fields', body'⟩
          · simp [hfield, hrest] at h
          · simp only [hfield, hrest, Option.some.injEq, Prod.mk.injEq] at h
            obtain ⟨rfl, rfl⟩ := h
            refine List.forall_mem_cons.mpr ⟨?_, ih hrest⟩
            unfold parseField at hfield
            split at hfield
            · split_ifs at hfield with hchecks
              obtain rfl := Option.some.inj hfield
              exact hchecks
            · cases hfield

theorem wellFormed_of_parse {bytes : List UInt8} {m : Message} (h : parse bytes = some m) :
    m.WellFormed := by
  unfold parse at h
  rcases hsplit : Text.splitAtPattern crlf bytes with _ | ⟨line, rest⟩
  · simp [hsplit] at h
  · rcases hstart : parseStartLine line with _ | ⟨method, target⟩
    · simp [hsplit, hstart] at h
    · rcases hfields : parseFields rest.length rest with _ | ⟨fields, body⟩
      · simp [hsplit, hstart, hfields] at h
      · simp only [hsplit, hstart, hfields] at h
        split_ifs at h with hframed
        obtain rfl := Option.some.inj h
        unfold parseStartLine at hstart
        split at hstart
        · split_ifs at hstart with hchecks
          obtain ⟨rfl, rfl⟩ := Prod.mk.inj (Option.some.inj hstart)
          exact ⟨hchecks.1, hchecks.2.1, exists_of_parseFields hfields, hframed⟩
        · cases hstart

/-! ## What is written is read back -/

theorem not_mem_of_all {p : UInt8 → Bool} {l : List UInt8} (h : l.all p = true) {b : UInt8}
    (hb : p b = false) : b ∉ l := by
  intro hmem
  rw [List.all_eq_true.mp h b hmem] at hb
  cases hb

theorem splitAtPattern_line {line : List UInt8} (h : 13 ∉ line) (rest : List UInt8) :
    Text.splitAtPattern crlf (line ++ (crlf ++ rest)) = some (line, rest) := by
  unfold crlf
  rw [Text.splitAtPattern_append_left h, Text.splitAtPattern_of_prefix (List.cons_ne_nil _ _)]
  simp

theorem parseStartLine_render {method target : List UInt8} (hmethod : IsToken method)
    (htarget : IsTarget target) :
    parseStartLine (method ++ 32 :: target ++ 32 :: version) = some (method, target) := by
  have hsplit : (method ++ 32 :: target ++ 32 :: version).splitOn 32 =
      [method, target, version] := by
    have hmethod' : 32 ∉ method := not_mem_of_all hmethod.2 (by decide)
    have htarget' : 32 ∉ target := not_mem_of_all htarget.2 (by decide)
    have hversion : 32 ∉ version := by decide
    rw [List.append_assoc, List.cons_append, List.splitOn_append_cons_self,
      List.splitOn_append_cons_self, List.splitOn_eq_singleton hmethod',
      List.splitOn_eq_singleton htarget', List.splitOn_eq_singleton hversion]
    rfl
  unfold parseStartLine
  rw [hsplit]
  exact if_pos ⟨hmethod, htarget, rfl⟩

theorem parseField_render {f : Field} (hname : IsToken f.1) (hvalue : IsValue f.2) :
    parseField (f.1 ++ 58 :: 32 :: f.2) = some f := by
  have htrim : trimBlanks (32 :: f.2) = f.2 := hvalue.1
  unfold parseField
  rw [Text.splitOnce_append _ _ (not_mem_of_all hname.2 (by decide))]
  dsimp only
  rw [htrim, if_pos ⟨hname, hvalue⟩]

theorem parseFields_render {fields : List Field} (h : ∀ f ∈ fields, IsToken f.1 ∧ IsValue f.2)
    (body : List UInt8) {n : ℕ} (hn : fields.length < n) :
    parseFields n (renderFields fields body) = some (fields, body) := by
  induction fields generalizing n with
  | nil =>
    obtain ⟨n, rfl⟩ := Nat.exists_eq_succ_of_ne_zero (Nat.ne_zero_of_lt hn)
    have hline := splitAtPattern_line (List.not_mem_nil (a := 13)) body
    rw [List.nil_append] at hline
    rw [parseFields, renderFields, List.flatMap_nil, List.nil_append, hline]
    exact if_pos rfl
  | cons f fields ih =>
    obtain ⟨n, rfl⟩ := Nat.exists_eq_succ_of_ne_zero (Nat.ne_zero_of_lt hn)
    obtain ⟨⟨hname, hvalue⟩, hfields⟩ := List.forall_mem_cons.mp h
    have hcr : 13 ∉ f.1 ++ 58 :: 32 :: f.2 := by
      have hname' : 13 ∉ f.1 := not_mem_of_all hname.2 (by decide)
      have hvalue' : 13 ∉ f.2 := not_mem_of_all hvalue.2 (by decide)
      rw [List.mem_append, not_or]
      exact ⟨hname', List.not_mem_cons_of_ne_of_not_mem (by decide)
        (List.not_mem_cons_of_ne_of_not_mem (by decide) hvalue')⟩
    have hrender : renderFields (f :: fields) body =
        (f.1 ++ 58 :: 32 :: f.2) ++ (crlf ++ renderFields fields body) := by
      simp [renderFields, renderField]
    have hne : f.1 ++ 58 :: 32 :: f.2 ≠ [] := by simp
    rw [parseFields, hrender, splitAtPattern_line hcr]
    dsimp only
    rw [if_neg hne, parseField_render hname hvalue, ih hfields (Nat.lt_of_succ_lt_succ hn)]

theorem length_lt_renderFields (fields : List Field) (body : List UInt8) :
    fields.length < (renderFields fields body).length := by
  induction fields with
  | nil => simp [renderFields, crlf]
  | cons f fields ih =>
    have hcons : renderFields (f :: fields) body = renderField f ++ renderFields fields body := by
      simp [renderFields]
    have hpos : 0 < (renderField f).length := by simp [renderField, crlf]
    rw [hcons, List.length_cons, List.length_append]
    omega

theorem parse_render {m : Message} (h : m.WellFormed) : parse (render m) = some m := by
  have hcr : 13 ∉ m.method ++ 32 :: m.target ++ 32 :: version := by
    have hmethod : 13 ∉ m.method := not_mem_of_all h.method.2 (by decide)
    have htarget : 13 ∉ m.target := not_mem_of_all h.target.2 (by decide)
    have hversion : 13 ∉ 32 :: version := by decide
    rw [List.mem_append, List.mem_append, not_or, not_or]
    exact ⟨⟨hmethod, List.not_mem_cons_of_ne_of_not_mem (by decide) htarget⟩, hversion⟩
  unfold parse render
  rw [splitAtPattern_line hcr]
  dsimp only
  rw [parseStartLine_render h.method h.target,
    parseFields_render h.fields m.body (length_lt_renderFields m.fields m.body)]
  exact if_pos h.framed

/-- What is written for a message is read as that message exactly if it is well formed. -/
theorem parse_render_iff {m : Message} : parse (render m) = some m ↔ m.WellFormed :=
  ⟨wellFormed_of_parse, parse_render⟩

end Http
