import Mathlib.Data.List.TakeWhile
import Pan.Library.Template
import Pan.Library.Text

namespace Pan

open Template

/-- A process environment. No variable is without a name. -/
structure Environment where
  get : String → Option String
  unnamed : get "" = none

/-- A variable that is not set is empty. -/
def Environment.value (env : Environment) (var : List Char) : List Char :=
  ((env.get (String.ofList var)).getD "").toList

/-- `is_alphanumeric` or an underscore; `beyond` is the table of what is not ASCII. -/
def isNameChar (beyond : Char → Bool) (c : Char) : Bool :=
  (if c.toNat < 128 then c.isAlphanum else beyond c) || c == '_'

/-! ## The scanner -/

/-- Where the scanner is: between variables, behind a dollar, or in a name. -/
inductive ScanPoint where
  | text
  | dollar
  | braced (var : List Char)
  | bare (var : List Char)

section

variable {β : Type} (beyond : Char → Bool) (letter : Char → β) (value : List Char → List β)

def scan : ScanPoint → List Char → List β
  | .text, [] => []
  | .text, c :: rest => if c = '$' then scan .dollar rest else letter c :: scan .text rest
  | .dollar, [] => value []
  | .dollar, c :: rest =>
    if c = '\x7b' then scan (.braced []) rest
    else if isNameChar beyond c then scan (.bare [c]) rest
    -- the character behind comes first, and the dollar is the empty name's
    else letter c :: (value [] ++ scan .text rest)
  | .braced var, [] => value var
  | .braced var, c :: rest =>
    if c = '\x7d' then value var ++ scan .text rest else scan (.braced (var ++ [c])) rest
  | .bare var, [] => value var
  | .bare var, c :: rest =>
    if isNameChar beyond c then scan (.bare (var ++ [c])) rest
    else letter c :: (value var ++ scan .text rest)

variable {beyond letter value}

theorem scan_text_nil : scan beyond letter value .text [] = [] := rfl

theorem scan_text_cons (c : Char) (rest : List Char) :
    scan beyond letter value .text (c :: rest) =
      if c = '$' then scan beyond letter value .dollar rest
      else letter c :: scan beyond letter value .text rest := rfl

theorem scan_dollar_nil : scan beyond letter value .dollar [] = value [] := rfl

theorem scan_dollar_cons (c : Char) (rest : List Char) :
    scan beyond letter value .dollar (c :: rest) =
      if c = '\x7b' then scan beyond letter value (.braced []) rest
      else if isNameChar beyond c then scan beyond letter value (.bare [c]) rest
      else letter c :: (value [] ++ scan beyond letter value .text rest) := rfl

theorem scan_braced_nil (var : List Char) : scan beyond letter value (.braced var) [] = value var :=
  rfl

theorem scan_braced_cons (var : List Char) (c : Char) (rest : List Char) :
    scan beyond letter value (.braced var) (c :: rest) =
      if c = '\x7d' then value var ++ scan beyond letter value .text rest
      else scan beyond letter value (.braced (var ++ [c])) rest := rfl

theorem scan_bare_nil (var : List Char) : scan beyond letter value (.bare var) [] = value var := rfl

theorem scan_bare_cons (var : List Char) (c : Char) (rest : List Char) :
    scan beyond letter value (.bare var) (c :: rest) =
      if isNameChar beyond c then scan beyond letter value (.bare (var ++ [c])) rest
      else letter c :: (value var ++ scan beyond letter value .text rest) := rfl

end

def expandEnvVars (beyond : Char → Bool) (env : Environment) (s : String) : String :=
  String.ofList (scan beyond id env.value .text s.toList)

/-! ## What is meant -/

section

variable (beyond : Char → Bool)

structure IsName (name : List Char) : Prop where
  ne_nil : name ≠ []
  chars : ∀ c ∈ name, isNameChar beyond c = true

/-- The name behind a dollar, in braces or as long as it goes, and what follows. -/
def placeholder (rest : List Char) : Option (List Char × List Char) :=
  match rest with
  | '\x7b' :: inner =>
    match inner.takeWhile (isNameChar beyond), inner.dropWhile (isNameChar beyond) with
    | c :: name, '\x7d' :: tail => some (c :: name, tail)
    | _, _ => none
  | _ =>
    match rest.takeWhile (isNameChar beyond) with
    | [] => none
    | c :: name => some (c :: name, rest.dropWhile (isNameChar beyond))

variable {beyond}

theorem placeholder_braced {name : List Char} (h : IsName beyond name) (tail : List Char) :
    placeholder beyond ('\x7b' :: (name ++ '\x7d' :: tail)) = some (name, tail) := by
  have hbrace : isNameChar beyond '\x7d' = false := rfl
  obtain ⟨c, name, rfl⟩ := List.exists_cons_of_ne_nil h.ne_nil
  have htake : ((c :: name) ++ '\x7d' :: tail).takeWhile (isNameChar beyond) = c :: name := by
    rw [List.takeWhile_append_of_pos h.chars, List.takeWhile_cons_of_neg (by simp [hbrace]),
      List.append_nil]
  have hdrop : ((c :: name) ++ '\x7d' :: tail).dropWhile (isNameChar beyond) = '\x7d' :: tail := by
    rw [List.dropWhile_append_of_pos h.chars, List.dropWhile_cons_of_neg (by simp [hbrace])]
  simp only [placeholder, htake, hdrop]

theorem placeholder_bare {name : List Char} (h : IsName beyond name) {tail : List Char}
    (htail : ∀ c ∈ tail.head?, isNameChar beyond c = false) :
    placeholder beyond (name ++ tail) = some (name, tail) := by
  have hbrace : isNameChar beyond '\x7b' = false := rfl
  obtain ⟨c, name, rfl⟩ := List.exists_cons_of_ne_nil h.ne_nil
  have hc : c ≠ '\x7b' := by
    rintro rfl
    simpa [hbrace] using h.chars '\x7b' List.mem_cons_self
  have htake : tail.takeWhile (isNameChar beyond) = [] := by
    cases tail with
    | nil => rfl
    | cons d tail => rw [List.takeWhile_cons_of_neg (by simp [htail d rfl])]
  have hdrop : tail.dropWhile (isNameChar beyond) = tail := by
    cases tail with
    | nil => rfl
    | cons d tail => rw [List.dropWhile_cons_of_neg (by simp [htail d rfl])]
  unfold placeholder
  split
  case h_1 inner heq => exact absurd (List.cons.inj heq).1 hc
  case h_2 =>
    rw [List.takeWhile_append_of_pos h.chars, htake, List.append_nil,
      List.dropWhile_append_of_pos h.chars, hdrop]

theorem head?_dropWhile_isNameChar (l : List Char) :
    ∀ c ∈ (l.dropWhile (isNameChar beyond)).head?, isNameChar beyond c = false := by
  have h := List.head?_dropWhile_not (isNameChar beyond) l
  intro c hc
  rw [Option.mem_def.mp hc] at h
  exact h

theorem isName_of_takeWhile {l name : List Char} {c : Char}
    (h : l.takeWhile (isNameChar beyond) = c :: name) : IsName beyond (c :: name) where
  ne_nil := List.cons_ne_nil c name
  chars := by
    rw [← h]
    exact fun d hd => List.mem_takeWhile_imp hd

theorem placeholder_eq_some {rest name tail : List Char}
    (h : placeholder beyond rest = some (name, tail)) : IsName beyond name ∧
      (rest = '\x7b' :: (name ++ '\x7d' :: tail) ∨
        rest = name ++ tail ∧ ∀ c ∈ tail.head?, isNameChar beyond c = false) := by
  unfold placeholder at h
  split at h
  case h_1 inner =>
    split at h
    case h_1 c name' tail' htake hdrop =>
      cases h
      refine ⟨isName_of_takeWhile htake, .inl ?_⟩
      rw [← htake, ← hdrop, List.takeWhile_append_dropWhile]
    case h_2 => cases h
  case h_2 =>
    split at h
    case h_1 => cases h
    case h_2 c name' htake =>
      cases h
      refine ⟨isName_of_takeWhile htake, .inr ⟨?_, head?_dropWhile_isNameChar rest⟩⟩
      rw [← htake, List.takeWhile_append_dropWhile]

theorem length_lt_of_placeholder {rest name tail : List Char}
    (h : placeholder beyond rest = some (name, tail)) : tail.length < rest.length + 1 := by
  obtain ⟨-, rfl | ⟨rfl, -⟩⟩ := placeholder_eq_some h
  · simp only [List.length_cons, List.length_append]
    omega
  · rw [List.length_append]
    omega

end

section

variable {β : Type} (beyond : Char → Bool) (letter : Char → β) (value : List Char → List β)

/-- Each variable is replaced by its value, and every other character stays. -/
def substitute : List Char → List β
  | [] => []
  | c :: rest =>
    if c = '$' then
      match _h : placeholder beyond rest with
      | some (name, tail) => value name ++ substitute tail
      | none => letter c :: substitute rest
    else letter c :: substitute rest
  termination_by text => text.length
  decreasing_by
    · exact length_lt_of_placeholder _h
    · exact Nat.lt_succ_self _
    · exact Nat.lt_succ_self _

theorem substitute_nil : substitute beyond letter value [] = [] := by
  rw [substitute]

theorem substitute_cons (c : Char) (rest : List Char) :
    substitute beyond letter value (c :: rest) =
      if c = '$' then
        match _h : placeholder beyond rest with
        | some (name, tail) => value name ++ substitute beyond letter value tail
        | none => letter c :: substitute beyond letter value rest
      else letter c :: substitute beyond letter value rest := by
  rw [substitute]

theorem substitute_of_ne {c : Char} (hc : c ≠ '$') (rest : List Char) :
    substitute beyond letter value (c :: rest) =
      letter c :: substitute beyond letter value rest := by
  rw [substitute_cons, if_neg hc]

variable {beyond}

theorem substitute_of_placeholder {rest name tail : List Char}
    (h : placeholder beyond rest = some (name, tail)) :
    substitute beyond letter value ('$' :: rest) =
      value name ++ substitute beyond letter value tail := by
  rw [substitute_cons, if_pos rfl]
  split
  case h_1 name' tail' h' =>
    rw [h] at h'
    cases h'
    rfl
  case h_2 h' => cases h.symm.trans h'

theorem substitute_of_none {rest : List Char} (h : placeholder beyond rest = none) :
    substitute beyond letter value ('$' :: rest) =
      letter '$' :: substitute beyond letter value rest := by
  rw [substitute_cons, if_pos rfl]
  split
  case h_1 h' => cases h.symm.trans h'
  case h_2 => rfl

end

def expansion (beyond : Char → Bool) (env : Environment) (s : String) : String :=
  String.ofList (substitute beyond id env.value s.toList)

/-! ## Where they agree -/

/-- Every dollar opens a name in braces, or is before a bare name that ends the text. -/
inductive EachExpands (beyond : Char → Bool) : List Char → Prop
  | nil : EachExpands beyond []
  | char {c : Char} {rest : List Char} (hc : c ≠ '$') (h : EachExpands beyond rest) :
      EachExpands beyond (c :: rest)
  | braced {name rest : List Char} (hname : IsName beyond name) (h : EachExpands beyond rest) :
      EachExpands beyond ('$' :: '\x7b' :: (name ++ '\x7d' :: rest))
  | last {name : List Char} (hname : IsName beyond name) : EachExpands beyond ('$' :: name)

section

variable {β : Type} {beyond : Char → Bool} {letter : Char → β} {value : List Char → List β}

theorem scan_braced {w : List Char} (hw : '\x7d' ∉ w) (var rest : List Char) :
    scan beyond letter value (.braced var) (w ++ '\x7d' :: rest) =
      value (var ++ w) ++ scan beyond letter value .text rest := by
  induction w generalizing var with
  | nil => rw [List.nil_append, List.append_nil, scan_braced_cons, if_pos rfl]
  | cons c w ih =>
    rw [List.mem_cons, not_or] at hw
    rw [List.cons_append, scan_braced_cons, if_neg (Ne.symm hw.1), ih hw.2, List.append_assoc,
      List.singleton_append]

theorem scan_braced_unclosed {w : List Char} (hw : '\x7d' ∉ w) (var : List Char) :
    scan beyond letter value (.braced var) w = value (var ++ w) := by
  induction w generalizing var with
  | nil => rw [List.append_nil, scan_braced_nil]
  | cons c w ih =>
    rw [List.mem_cons, not_or] at hw
    rw [scan_braced_cons, if_neg (Ne.symm hw.1), ih hw.2, List.append_assoc,
      List.singleton_append]

theorem scan_bare {w : List Char} (hw : ∀ c ∈ w, isNameChar beyond c = true)
    (var tail : List Char) : scan beyond letter value (.bare var) (w ++ tail) =
      scan beyond letter value (.bare (var ++ w)) tail := by
  induction w generalizing var with
  | nil => rw [List.nil_append, List.append_nil]
  | cons c w ih =>
    rw [List.cons_append, scan_bare_cons, if_pos (hw c List.mem_cons_self),
      ih fun d hd => hw d (List.mem_cons_of_mem c hd), List.append_assoc, List.singleton_append]

theorem scan_name {name : List Char} (hname : IsName beyond name) (tail : List Char) :
    scan beyond letter value .text ('$' :: (name ++ tail)) =
      scan beyond letter value (.bare name) tail := by
  have hbrace : isNameChar beyond '\x7b' = false := rfl
  obtain ⟨c, name, rfl⟩ := List.exists_cons_of_ne_nil hname.ne_nil
  have hc := hname.chars c List.mem_cons_self
  have hne : c ≠ '\x7b' := by
    rintro rfl
    simp [hbrace] at hc
  rw [scan_text_cons, if_pos rfl, List.cons_append, scan_dollar_cons, if_neg hne, if_pos hc,
    scan_bare fun d hd => hname.chars d (List.mem_cons_of_mem c hd), List.singleton_append]

theorem brace_notMem {name : List Char} (hname : IsName beyond name) : '\x7d' ∉ name := by
  have hbrace : isNameChar beyond '\x7d' = false := rfl
  intro hmem
  simpa [hbrace] using hname.chars '\x7d' hmem

/-- Whatever the values are. -/
theorem EachExpands.scan_eq {text : List Char} (h : EachExpands beyond text) :
    scan beyond letter value .text text = substitute beyond letter value text := by
  induction h with
  | nil => rw [scan_text_nil, substitute_nil]
  | char hc _ ih => rw [scan_text_cons, if_neg hc, substitute_of_ne _ _ _ hc, ih]
  | @braced name rest hname _ ih =>
    rw [substitute_of_placeholder _ _ (placeholder_braced hname rest), scan_text_cons, if_pos rfl,
      scan_dollar_cons, if_pos rfl, scan_braced (brace_notMem hname), List.nil_append, ih]
  | @last name hname =>
    have hend : ∀ c ∈ ([] : List Char).head?, isNameChar beyond c = false := by simp
    have hplaceholder : placeholder beyond name = some (name, []) := by
      simpa using placeholder_bare hname hend
    have hscan : scan beyond letter value .text ('$' :: name) = value name := by
      simpa [scan_bare_nil] using scan_name hname ([] : List Char)
    rw [hscan, substitute_of_placeholder _ _ hplaceholder, substitute_nil, List.append_nil]

end

/-! ## Letters and names -/

section Pieces

variable {beyond : Char → Bool}

abbrev VarName := {name : List Char // name ≠ []}

/-- A name; what is not a name is nothing. -/
def namePiece (name : List Char) : List (Piece Char VarName) :=
  if h : name = [] then [] else [.name ⟨name, h⟩]

/-- What the scanner makes of a text, with the names left in. -/
def scanned (beyond : Char → Bool) (point : ScanPoint) (text : List Char) :
    List (Piece Char VarName) := scan beyond .letter namePiece point text

def meant (beyond : Char → Bool) (text : List Char) : List (Piece Char VarName) :=
  substitute beyond .letter namePiece text

namespace Environment

def values (env : Environment) (name : VarName) : List Char := env.value name.1

def ofValues (values : VarName → List Char) : Environment where
  get name := if h : name.toList = [] then none else some (String.ofList (values ⟨name.toList, h⟩))
  unnamed := rfl

theorem values_ofValues (values : VarName → List Char) : (ofValues values).values = values := by
  funext name
  unfold Environment.values value ofValues
  dsimp only
  rw [dif_neg (by simpa using name.2), Option.getD_some, String.toList_ofList]
  simp only [String.toList_ofList]

end Environment

variable {env : Environment}

theorem eval_namePiece (name : List Char) : eval env.values (namePiece name) = env.value name := by
  unfold namePiece
  split_ifs with h
  · rw [h, eval_nil, Environment.value, String.ofList_nil, env.unnamed]
    rfl
  · rw [eval_cons, eval_nil, List.append_nil]
    rfl

theorem eval_letter_cons (c : Char) (p : List (Piece Char VarName)) :
    eval env.values (.letter c :: p) = c :: eval env.values p := by
  rw [eval_cons, Piece.eval, List.singleton_append]

theorem eval_scanned (point : ScanPoint) (text : List Char) :
    eval env.values (scanned beyond point text) = scan beyond id env.value point text := by
  unfold scanned
  induction text generalizing point with
  | nil =>
    cases point <;>
      simp [scan_text_nil, scan_dollar_nil, scan_braced_nil, scan_bare_nil, eval_namePiece]
  | cons c rest ih =>
    cases point with
    | text =>
      rw [scan_text_cons, scan_text_cons]
      split_ifs
      · exact ih .dollar
      · rw [eval_letter_cons, ih, id]
    | dollar =>
      rw [scan_dollar_cons, scan_dollar_cons]
      split_ifs
      · exact ih (.braced [])
      · exact ih (.bare [c])
      · rw [eval_letter_cons, eval_append, eval_namePiece, ih, id]
    | braced var =>
      rw [scan_braced_cons, scan_braced_cons]
      split_ifs
      · rw [eval_append, eval_namePiece, ih]
      · exact ih (.braced (var ++ [c]))
    | bare var =>
      rw [scan_bare_cons, scan_bare_cons]
      split_ifs
      · exact ih (.bare (var ++ [c]))
      · rw [eval_letter_cons, eval_append, eval_namePiece, ih, id]

theorem eval_meant (text : List Char) :
    eval env.values (meant beyond text) = substitute beyond id env.value text := by
  unfold meant
  induction text using substitute.induct beyond with
  | case1 => rw [substitute_nil, substitute_nil, eval_nil]
  | case2 rest name tail h ih =>
    rw [substitute_of_placeholder _ _ h, substitute_of_placeholder _ _ h, eval_append,
      eval_namePiece, ih]
  | case3 rest h ih =>
    rw [substitute_of_none _ _ h, substitute_of_none _ _ h, eval_letter_cons, ih, id]
  | case4 c rest hc ih =>
    rw [substitute_of_ne _ _ _ hc, substitute_of_ne _ _ _ hc, eval_letter_cons, ih, id]

def Piece.isDollar : Piece Char VarName → Bool
  | .letter c => c == '$'
  | .name _ => true

/-- How many dollars the scanner has seen that may still come to a piece. -/
def ScanPoint.dollars : ScanPoint → ℕ
  | .text => 0
  | .dollar | .braced _ | .bare _ => 1

theorem countP_namePiece_le (name : List Char) : (namePiece name).countP Piece.isDollar ≤ 1 := by
  unfold namePiece
  split_ifs
  · exact Nat.zero_le 1
  · exact List.countP_le_length

theorem countP_letter_cons (c : Char) (p : List (Piece Char VarName)) :
    (.letter c :: p : List (Piece Char VarName)).countP Piece.isDollar =
      p.countP Piece.isDollar + [c].count '$' := by
  rw [List.countP_cons]
  by_cases hc : c = '$' <;> simp [Piece.isDollar, hc]

theorem count_cons (c : Char) (rest : List Char) :
    (c :: rest).count '$' = rest.count '$' + [c].count '$' := by
  rw [← List.singleton_append, List.count_append, Nat.add_comm]

/-- The scanner makes no two pieces of one dollar. -/
theorem countP_scanned_le (beyond : Char → Bool) (point : ScanPoint) (text : List Char) :
    (scanned beyond point text).countP Piece.isDollar ≤ text.count '$' + point.dollars := by
  unfold scanned
  induction text generalizing point with
  | nil =>
    cases point with
    | text => simp [scan_text_nil]
    | dollar => simp [scan_dollar_nil, namePiece]
    | braced var => simpa [scan_braced_nil, ScanPoint.dollars] using countP_namePiece_le var
    | bare var => simpa [scan_bare_nil, ScanPoint.dollars] using countP_namePiece_le var
  | cons c rest ih =>
    have hcount := count_cons c rest
    have htext := ih .text
    -- each state of the scanner holds the dollar it has read, and a name spends it
    cases point with
    | text =>
      rw [scan_text_cons]
      split_ifs with hc
      · have hdollar := ih .dollar
        rw [hcount, hc]
        simpa [ScanPoint.dollars] using hdollar
      · rw [countP_letter_cons, hcount]
        simp only [ScanPoint.dollars] at htext ⊢
        omega
    | dollar =>
      rw [scan_dollar_cons]
      split_ifs with hbrace hname
      · have hbraced := ih (.braced [])
        simp only [ScanPoint.dollars] at hbraced ⊢
        omega
      · have hbare := ih (.bare [c])
        simp only [ScanPoint.dollars] at hbare ⊢
        omega
      · rw [countP_letter_cons, List.countP_append]
        have hname := countP_namePiece_le []
        simp only [ScanPoint.dollars] at htext ⊢
        omega
    | braced var =>
      rw [scan_braced_cons]
      split_ifs with hbrace
      · rw [List.countP_append]
        have hname := countP_namePiece_le var
        simp only [ScanPoint.dollars] at htext ⊢
        omega
      · have hbraced := ih (.braced (var ++ [c]))
        simp only [ScanPoint.dollars] at hbraced ⊢
        omega
    | bare var =>
      rw [scan_bare_cons]
      split_ifs with hname
      · have hbare := ih (.bare (var ++ [c]))
        simp only [ScanPoint.dollars] at hbare ⊢
        omega
      · rw [countP_letter_cons, List.countP_append]
        have hname := countP_namePiece_le var
        simp only [ScanPoint.dollars] at htext ⊢
        omega

theorem dollar_notMem {name : List Char} (hname : IsName beyond name) : '$' ∉ name := by
  have hdollar : isNameChar beyond '$' = false := rfl
  intro hmem
  simpa [hdollar] using hname.chars '$' hmem

theorem namePiece_of_isName {name : List Char} (hname : IsName beyond name) :
    namePiece name = [.name ⟨name, hname.ne_nil⟩] := dif_neg hname.ne_nil

/-- What is meant has a piece for every dollar. -/
theorem countP_meant (text : List Char) :
    (meant beyond text).countP Piece.isDollar = text.count '$' := by
  unfold meant
  induction text using substitute.induct beyond with
  | case1 => rw [substitute_nil]; rfl
  | case2 rest name tail h ih =>
    obtain ⟨hname, hrest⟩ := placeholder_eq_some h
    have hcount : name.count '$' = 0 := List.count_eq_zero.mpr (dollar_notMem hname)
    rw [substitute_of_placeholder _ _ h, namePiece_of_isName hname, List.singleton_append,
      List.countP_cons, ih]
    obtain rfl | ⟨rfl, -⟩ := hrest <;> simp [hcount, Piece.isDollar]
  | case3 rest h ih =>
    rw [substitute_of_none _ _ h, countP_letter_cons, ih]
    exact (count_cons '$' rest).symm
  | case4 c rest hc ih =>
    rw [substitute_of_ne _ _ _ hc, countP_letter_cons, ih]
    exact (count_cons c rest).symm

/-- Pieces that are fewer than the dollars are not what is meant. -/
theorem ne_meant_of_countP_lt {p : List (Piece Char VarName)} {text : List Char}
    (h : p.countP Piece.isDollar < text.count '$') : p ≠ meant beyond text := by
  rintro rfl
  rw [countP_meant] at h
  exact Nat.lt_irrefl _ h

theorem placeholder_ne_none {c : Char} (hc : isNameChar beyond c = true) (rest : List Char) :
    placeholder beyond (c :: rest) ≠ none := by
  have htake : (c :: rest).takeWhile (isNameChar beyond) =
      c :: rest.takeWhile (isNameChar beyond) := List.takeWhile_cons_of_pos hc
  have hsome := placeholder_bare (isName_of_takeWhile htake)
    (head?_dropWhile_isNameChar (c :: rest))
  rw [← htake, List.takeWhile_append_dropWhile] at hsome
  rw [hsome]
  exact Option.some_ne_none _

/-- A dollar that no name follows stays in what is meant, but not in what the scanner makes. -/
theorem scanned_ne_of_none {rest : List Char} (h : placeholder beyond rest = none) :
    scanned beyond .text ('$' :: rest) ≠ meant beyond ('$' :: rest) := by
  have hmeant : meant beyond ('$' :: rest) = .letter '$' :: meant beyond rest :=
    substitute_of_none _ _ h
  have hname : ∀ name tail, scanned beyond .text ('$' :: rest) = namePiece name ++ tail →
      name ≠ [] → scanned beyond .text ('$' :: rest) ≠ meant beyond ('$' :: rest) := by
    intro name tail hscan hne heq
    rw [hscan, hmeant, namePiece, dif_neg hne] at heq
    cases heq
  cases rest with
  | nil =>
    rw [hmeant]
    exact (List.cons_ne_nil _ _).symm
  | cons c rest =>
    -- without a name, the dollar is read on into a brace or dropped before the next character
    by_cases hbrace : c = '\x7b'
    · subst hbrace
      have hscan : scanned beyond .text ('$' :: '\x7b' :: rest) =
          scan beyond .letter namePiece (.braced []) rest := by
        rw [scanned, scan_text_cons, if_pos rfl, scan_dollar_cons, if_pos rfl]
      cases hcut : Text.splitOnce '\x7d' rest with
      | none =>
        rw [scan_braced_unclosed (Text.splitOnce_eq_none.mp hcut), List.nil_append] at hscan
        by_cases hrest : rest = []
        · subst hrest
          rw [hscan, hmeant]
          exact (List.cons_ne_nil _ _).symm
        · exact hname rest [] (by rw [hscan, List.append_nil]) hrest
      | some cut =>
        obtain ⟨w, tail⟩ := cut
        obtain ⟨rfl, hw⟩ := Text.splitOnce_eq_some.mp hcut
        rw [scan_braced hw, List.nil_append] at hscan
        by_cases hempty : w = []
        · subst hempty
          -- an empty pair of braces: one dollar fewer than is meant
          have hle := countP_scanned_le beyond .text tail
          rw [hscan]
          apply ne_meant_of_countP_lt
          simp only [namePiece, scanned, ScanPoint.dollars] at hle ⊢
          simp
          omega
        · exact hname w _ hscan hempty
    · have hnot : isNameChar beyond c = false := by
        by_contra hc
        exact placeholder_ne_none (by simpa using hc) rest h
      have hscan : scanned beyond .text ('$' :: c :: rest) =
          .letter c :: scanned beyond .text rest := by
        rw [scanned, scan_text_cons, if_pos rfl, scan_dollar_cons, if_neg hbrace,
          if_neg (by simp [hnot])]
        rfl
      have hle := countP_scanned_le beyond .text rest
      have hcount := count_cons c rest
      rw [hscan]
      apply ne_meant_of_countP_lt
      rw [countP_letter_cons, List.count_cons_self]
      simp only [ScanPoint.dollars] at hle
      omega

/-- Text on which the scanner makes what is meant. -/
theorem eachExpands_of_scanned_eq {text : List Char}
    (h : scanned beyond .text text = meant beyond text) : EachExpands beyond text := by
  induction text using substitute.induct beyond with
  | case1 => exact .nil
  | case2 rest name tail hplaceholder ih =>
    have hmeant : meant beyond ('$' :: rest) = namePiece name ++ meant beyond tail :=
      substitute_of_placeholder _ _ hplaceholder
    obtain ⟨hname, rfl | ⟨rfl, htail⟩⟩ := placeholder_eq_some hplaceholder
    · rw [hmeant, scanned, scan_text_cons, if_pos rfl, scan_dollar_cons, if_pos rfl,
        scan_braced (brace_notMem hname), List.nil_append, List.append_cancel_left_eq] at h
      exact .braced hname (ih h)
    · rw [hmeant, scanned, scan_name hname, namePiece_of_isName hname] at h
      cases tail with
      | nil =>
        rw [List.append_nil]
        exact .last hname
      | cons d tail =>
        -- the character behind the name comes first
        rw [scan_bare_cons, if_neg (by simp [htail d rfl])] at h
        cases h
  | case3 rest hplaceholder ih => exact absurd h (scanned_ne_of_none hplaceholder)
  | case4 c rest hc ih =>
    have hmeant : meant beyond (c :: rest) = .letter c :: meant beyond rest :=
      substitute_of_ne _ _ _ hc rest
    rw [scanned, scan_text_cons, if_neg hc, hmeant] at h
    exact .char hc (ih (List.cons.inj h).2)

end Pieces

/-- A text is expanded as is meant, whatever the environment, exactly if every dollar in it opens a
name in braces or is before a bare name that ends the text. -/
theorem expandEnvVars_eq_iff (beyond : Char → Bool) (text : String) :
    (∀ env, expandEnvVars beyond env text = expansion beyond env text) ↔
      EachExpands beyond text.toList := by
  constructor
  · intro h
    have : Nontrivial Char := ⟨'a', 'b', by decide⟩
    apply eachExpands_of_scanned_eq
    apply Template.eq_of_eval_eq
    intro values
    have henv := String.ofList_injective (h (.ofValues values))
    rw [← Environment.values_ofValues values, eval_scanned, eval_meant]
    exact henv
  · intro h env
    unfold expandEnvVars expansion
    rw [h.scan_eq]

def homeOnly : Environment where
  get name := if name = "HOME" then some "/root" else none
  unnamed := by decide

/-- The slash comes before the home. -/
theorem home_not_expanded :
    ¬∀ env, expandEnvVars (fun _ => false) env "$HOME/x" =
      expansion (fun _ => false) env "$HOME/x" := by
  intro h
  have hhome := h homeOnly
  have hscan : expandEnvVars (fun _ => false) homeOnly "$HOME/x" = "//rootx" := by decide
  have hmeant : expansion (fun _ => false) homeOnly "$HOME/x" = "/root/x" := by
    have hplaceholder : placeholder (fun _ => false) "HOME/x".toList =
        some ("HOME".toList, ['/', 'x']) := by decide
    have htext : "$HOME/x".toList = '$' :: "HOME/x".toList := by decide
    rw [expansion, htext, substitute_of_placeholder _ _ hplaceholder,
      substitute_of_ne _ _ _ (by decide), substitute_of_ne _ _ _ (by decide), substitute_nil]
    decide
  rw [hscan, hmeant] at hhome
  exact absurd hhome (by decide)

end Pan
