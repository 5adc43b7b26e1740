import Mathlib.Algebra.GroupWithZero.Nat
import Mathlib.Data.List.Basic

namespace Shell

abbrev singleQuote : Char := Char.ofNat 39

abbrev backQuote : Char := Char.ofNat 96

def isBlank (c : Char) : Bool := c = ' ' || c = '\t'

def isOperator (c : Char) : Bool := ['|', '&', ';', '<', '>', '(', ')', '\n'].contains c

/-- The characters that expansions of parameters, commands and arithmetic begin with. -/
def isExpansion (c : Char) : Bool := ['$', backQuote].contains c

def isQuote (c : Char) : Bool := ['\\', singleQuote, '"'].contains c

/-- The characters of a word, each with whether it was quoted. -/
abbrev Word : Type := List (Char × Bool)

inductive Mode where
  | between
  | bare
  | single
  | double
  | escaped (within : Bool)
  | escapedDouble
deriving DecidableEq

def push (p : Char × Bool) : Option (List Word) → Option (List Word)
  | some (w :: ws) => some ((p :: w) :: ws)
  | _ => none

/-- The words of a line, the first of which goes on from before unless the mode is between words.
Nothing comes of operators, expansions and quotes that are not closed. -/
def lex : Mode → List Char → Option (List Word)
  | .between, [] => some []
  | .bare, [] => some [[]]
  | _, [] => none
  | .single, c :: l => if c = singleQuote then lex .bare l else push (c, true) (lex .single l)
  | .double, c :: l =>
    if c = '"' then lex .bare l
    else if isExpansion c then none
    else if c = '\\' then lex .escapedDouble l
    else push (c, true) (lex .double l)
  | .escaped within, c :: l =>
    -- an escaped line feed is no character at all
    if c = '\n' then lex (if within then .bare else .between) l
    else push (c, true) (lex .bare l)
  | .escapedDouble, c :: l =>
    if c = '\n' then lex .double l
    else if isExpansion c ∨ c = '"' ∨ c = '\\' then push (c, true) (lex .double l)
    else push ('\\', true) (push (c, true) (lex .double l))
  | mode, c :: l =>
    if isBlank c then
      if mode = .bare then (lex .between l).map fun ws => [] :: ws else lex .between l
    else if isOperator c ∨ isExpansion c then none
    else if c = '\\' then lex (.escaped (mode = .bare)) l
    else if c = singleQuote then lex .single l
    else if c = '"' then lex .double l
    -- a comment goes on to the end of the line
    else if mode = .between ∧ c = '#' then if '\n' ∈ l then none else some []
    else push (c, false) (lex .bare l)

def closesBracket (w : Word) : Bool :=
  let set := w.takeWhile fun p => p.1 ≠ '/'
  let set := if set.head? = some ('!', false) then set.tail else set
  set.tail.contains (']', false)

def hasPattern : Word → Bool
  | [] => false
  | p :: w =>
    p = ('*', false) || p = ('?', false) || (p = ('[', false) && closesBracket w) || hasPattern w

/-- The text of a word that stands for itself, not for a home directory or for names of files. -/
def text (w : Word) : Option (List Char) :=
  if w.head? = some ('~', false) ∨ hasPattern w then none else some (w.map Prod.fst)

def reservedWords : List (List Char) :=
  ["!", "\x7b", "\x7d", "case", "do", "done", "elif", "else", "esac", "fi", "for", "if", "in",
    "then", "until", "while"].map String.toList

/-- The words of a line that is one simple command without an assignment or a redirection. -/
def simpleCommand (line : List Char) : Option (List (List Char)) := do
  let words ← lex .between line
  let texts ← words.mapM text
  let name ← texts.head?
  if name ∈ reservedWords ∨ '=' ∈ name then none else some texts

/-- The character is one of a word wherever it stands. -/
def IsPlain (c : Char) : Prop :=
  isBlank c = false ∧ isOperator c = false ∧ isExpansion c = false ∧ isQuote c = false

instance (c : Char) : Decidable (IsPlain c) := inferInstanceAs (Decidable (_ ∧ _ ∧ _ ∧ _))

def unquoted (w : List Char) : Word := w.map fun c => (c, false)

/-- A text that stands for itself where nothing of it is quoted. -/
structure Literal (w : List Char) : Prop where
  ne_nil : w ≠ []
  plain : ∀ c ∈ w, IsPlain c
  no_comment : w.head? ≠ some '#'
  no_home : w.head? ≠ some '~'
  no_pattern : hasPattern (unquoted w) = false

theorem literal_iff (w : List Char) : Literal w ↔ w ≠ [] ∧ (∀ c ∈ w, IsPlain c) ∧
    w.head? ≠ some '#' ∧ w.head? ≠ some '~' ∧ hasPattern (unquoted w) = false :=
  ⟨fun h => ⟨h.ne_nil, h.plain, h.no_comment, h.no_home, h.no_pattern⟩,
    fun ⟨hne, hplain, hcomment, hhome, hpattern⟩ => ⟨hne, hplain, hcomment, hhome, hpattern⟩⟩

instance (w : List Char) : Decidable (Literal w) :=
  haveI : Decidable (∀ c ∈ w, IsPlain c) := List.decidableBAll IsPlain w
  decidable_of_iff' _ (literal_iff w)

/-! ## Words that are written out -/

variable {mode : Mode} {c : Char} {l w : List Char} {ws : List Word}

theorem lex_of_open (hmode : mode = .between ∨ mode = .bare) :
    lex mode (c :: l) =
      if isBlank c then
        if mode = .bare then (lex .between l).map fun ws => [] :: ws else lex .between l
      else if isOperator c ∨ isExpansion c then none
      else if c = '\\' then lex (.escaped (mode = .bare)) l
      else if c = singleQuote then lex .single l
      else if c = '"' then lex .double l
      else if mode = .between ∧ c = '#' then if '\n' ∈ l then none else some []
      else push (c, false) (lex .bare l) := by
  rcases hmode with rfl | rfl <;> rfl

theorem lex_plain (hc : IsPlain c) (hmode : mode = .between ∨ mode = .bare)
    (hcomment : ¬(mode = .between ∧ c = '#')) :
    lex mode (c :: l) = push (c, false) (lex .bare l) := by
  obtain ⟨hblank, hoperator, hexpansion, hquote⟩ := hc
  have hno : c ≠ '\\' ∧ c ≠ singleQuote ∧ c ≠ '"' := by simpa [isQuote] using hquote
  rw [lex_of_open hmode, hblank, hoperator, hexpansion, if_neg Bool.false_ne_true,
    if_neg (by simp), if_neg hno.1, if_neg hno.2.1, if_neg hno.2.2, if_neg hcomment]

theorem lex_bare (hw : ∀ c ∈ w, IsPlain c) : lex .bare w = some [unquoted w] := by
  induction w with
  | nil => rfl
  | cons c w ih =>
    obtain ⟨hc, hw⟩ := List.forall_mem_cons.mp hw
    rw [lex_plain hc (Or.inr rfl) (by simp), ih hw]
    rfl

theorem lex_bare_append (hw : ∀ c ∈ w, IsPlain c) (l : List Char) :
    lex .bare (w ++ ' ' :: l) = (lex .between l).map fun ws => unquoted w :: ws := by
  induction w with
  | nil => rfl
  | cons c w ih =>
    obtain ⟨hc, hw⟩ := List.forall_mem_cons.mp hw
    rw [List.cons_append, lex_plain hc (Or.inr rfl) (by simp), ih hw]
    cases lex .between l <;> rfl

/-- A plain text with no comment is one word, alone and in front of others. -/
theorem lex_between (hne : w ≠ []) (hw : ∀ c ∈ w, IsPlain c) (hcomment : w.head? ≠ some '#') :
    lex .between w = some [unquoted w] ∧
      ∀ l, lex .between (w ++ ' ' :: l) = (lex .between l).map fun ws => unquoted w :: ws := by
  obtain ⟨c, w, rfl⟩ := List.exists_cons_of_ne_nil hne
  obtain ⟨hc, hw⟩ := List.forall_mem_cons.mp hw
  have hno : ¬(Mode.between = .between ∧ c = '#') := by
    rintro ⟨-, rfl⟩
    exact hcomment rfl
  constructor
  · rw [lex_plain hc (Or.inl rfl) hno, lex_bare hw]
    rfl
  · intro l
    rw [List.cons_append, lex_plain hc (Or.inl rfl) hno, lex_bare_append hw]
    cases lex .between l <;> rfl

theorem text_unquoted_iff : text (unquoted w) = some w ↔
    w.head? ≠ some '~' ∧ hasPattern (unquoted w) = false := by
  have hhome : (unquoted w).head? = some ('~', false) ↔ w.head? = some '~' := by
    cases w <;> simp [unquoted]
  have htext : (unquoted w).map Prod.fst = w := by simp [unquoted, Function.comp_def]
  unfold text
  rw [ne_eq, ← hhome, htext]
  by_cases h : (unquoted w).head? = some ('~', false) ∨ hasPattern (unquoted w) = true
  · rw [if_pos h]
    refine iff_of_false (by simp) fun hno => ?_
    rcases h with h | h
    · exact hno.1 h
    · rw [hno.2] at h
      cases h
  · rw [if_neg h]
    exact iff_of_true rfl ⟨fun h' => h (Or.inl h'), Bool.eq_false_iff.mpr fun h' => h (Or.inr h')⟩

/-! ## Words of the length of their line -/

def size (ws : List Word) : ℕ := (ws.map List.length).sum

def Mode.missing : Mode → ℕ
  | .single | .double => 1
  | _ => 0

theorem push_eq_some {p : Char × Bool} {x : Option (List Word)} (h : push p x = some ws) :
    ∃ ws', x = some ws' ∧ size ws = size ws' + 1 := by
  rcases x with _ | _ | ⟨w, ws'⟩
  · cases h
  · cases h
  · obtain rfl := Option.some.inj h
    refine ⟨w :: ws', rfl, ?_⟩
    simp [size]
    omega

/-- Outside of quotes, a character that is not one of a word by itself leaves a word shorter. -/
theorem lex_open_cases (hmode : mode = .between ∨ mode = .bare) (h : lex mode (c :: l) = some ws)
    (hle : ∀ {mode ws}, lex mode l = some ws → size ws + mode.missing ≤ l.length) :
    size ws ≤ l.length ∨ (IsPlain c ∧ ¬(mode = .between ∧ c = '#') ∧
      ∃ ws', lex .bare l = some ws' ∧ size ws = size ws' + 1) := by
  rw [lex_of_open hmode] at h
  split_ifs at h with hblank hbare hword hescape hsingle hdouble hcomment
  · obtain ⟨ws', hws', rfl⟩ := Option.map_eq_some_iff.mp h
    left
    simpa [size, Mode.missing] using hle hws'
  · exact Or.inl (hle h)
  · exact Or.inl (hle h)
  · exact Or.inl (Nat.le_of_succ_le (hle h))
  · exact Or.inl (Nat.le_of_succ_le (hle h))
  · obtain rfl := Option.some.inj h
    exact Or.inl (Nat.zero_le _)
  · rw [not_or, Bool.not_eq_true, Bool.not_eq_true] at hword
    right
    refine ⟨⟨Bool.eq_false_iff.mpr hblank, hword.1, hword.2, ?_⟩, hcomment, push_eq_some h⟩
    simp [isQuote, hescape, hsingle, hdouble]

/-- A character of a line is no more than one character of a word, and a quote that closes is
none. -/
theorem size_lex_le (h : lex mode l = some ws) : size ws + mode.missing ≤ l.length := by
  induction l generalizing mode ws with
  | nil =>
    cases mode with
    | between | bare =>
      obtain rfl := Option.some.inj h
      exact Nat.le_refl 0
    | single | double | escaped _ | escapedDouble => cases h
  | cons c l ih =>
    -- between words and in a bare word the same branches are taken
    have hopen : mode = .between ∨ mode = .bare → size ws ≤ l.length + 1 := by
      intro hmode
      rcases lex_open_cases hmode h ih with hle | ⟨-, -, ws', hws', hsize⟩
      · exact Nat.le_succ_of_le hle
      · have := ih hws'
        omega
    -- where a character is pushed, one of the line is one of the word
    have hpush : ∀ {p mode'}, push p (lex mode' l) = some ws →
        size ws + mode'.missing ≤ l.length + 1 := by
      intro p mode' hws
      obtain ⟨ws', hws', hsize⟩ := push_eq_some hws
      have := ih hws'
      omega
    rw [List.length_cons]
    cases mode with
    | between => exact hopen (Or.inl rfl)
    | bare => exact hopen (Or.inr rfl)
    | single =>
      rw [lex] at h
      split_ifs at h
      · exact Nat.succ_le_succ (ih h)
      · exact hpush h
    | double =>
      rw [lex] at h
      split_ifs at h
      · exact Nat.succ_le_succ (ih h)
      · exact Nat.succ_le_succ (ih h)
      · exact hpush h
    | escaped within =>
      rw [lex] at h
      split_ifs at h
      · have hle := ih h
        exact Nat.le_succ_of_le (Nat.le_of_add_right_le hle)
      · have hle := ih h
        exact Nat.le_succ_of_le (Nat.le_of_add_right_le hle)
      · have hle := hpush h
        exact hle
    | escapedDouble =>
      rw [lex] at h
      split_ifs at h
      · exact Nat.le_succ_of_le (Nat.le_of_succ_le (ih h))
      · exact Nat.le_of_succ_le (hpush h)
      · obtain ⟨ws', hws', hsize⟩ := push_eq_some h
        obtain ⟨ws'', hws'', hsize'⟩ := push_eq_some hws'
        have hle : size ws'' + 1 ≤ l.length := ih hws''
        change size ws ≤ l.length + 1
        omega

/-- A line of which every character is one of a word has nothing but such. -/
theorem plain_of_lex (hmode : mode = .between ∨ mode = .bare) (h : lex mode l = some ws)
    (hsize : size ws = l.length) :
    (∀ c ∈ l, IsPlain c) ∧ (mode = .between → l.head? ≠ some '#') := by
  induction l generalizing mode ws with
  | nil => exact ⟨List.forall_mem_nil _, fun _ => by simp⟩
  | cons c l ih =>
    rw [List.length_cons] at hsize
    rcases lex_open_cases hmode h size_lex_le with hle | ⟨hc, hcomment, ws', hws', hsize'⟩
    · omega
    · obtain ⟨hl, -⟩ := ih (Or.inr rfl) hws' (by omega)
      refine ⟨List.forall_mem_cons.mpr ⟨hc, hl⟩, fun hbetween hhead => hcomment ⟨hbetween, ?_⟩⟩
      exact Option.some_inj.mp hhead

theorem eq_of_text {v : Word} (h : text v = some w) : w = v.map Prod.fst := by
  unfold text at h
  split_ifs at h
  exact (Option.some.inj h).symm

theorem exists_of_mapM_text (h : ws.mapM text = some [w]) : ∃ v, ws = [v] ∧ text v = some w := by
  rcases ws with _ | ⟨v, _ | ⟨v', ws⟩⟩
  · cases h
  · rw [List.mapM_cons] at h
    cases hv : text v with
    | none => simp [hv] at h
    | some w' => exact ⟨v, rfl, by simpa [hv] using h⟩
  · rw [List.mapM_cons, List.mapM_cons] at h
    cases hv : text v <;> cases hv' : text v' <;> cases hws : ws.mapM text <;>
      simp [hv, hv', hws] at h

/-- A text is read as one word as it stands exactly if it is literal. -/
theorem lex_text_iff :
    (∃ ws, lex .between w = some ws ∧ ws.mapM text = some [w]) ↔ Literal w := by
  constructor
  · rintro ⟨ws, hws, htexts⟩
    obtain ⟨v, rfl, hv⟩ := exists_of_mapM_text htexts
    have hw := eq_of_text hv
    have hsize : size [v] = w.length := by simp [size, hw]
    obtain ⟨hplain, hcomment⟩ := plain_of_lex (Or.inl rfl) hws hsize
    have hne : w ≠ [] := by
      rintro rfl
      cases hws
    have hsame := (lex_between hne hplain (hcomment rfl)).1
    rw [hws] at hsame
    obtain rfl : v = unquoted w := by simpa using hsame
    obtain ⟨hhome, hpattern⟩ := text_unquoted_iff.mp hv
    exact ⟨hne, hplain, hcomment rfl, hhome, hpattern⟩
  · rintro ⟨hne, hplain, hcomment, hhome, hpattern⟩
    refine ⟨_, (lex_between hne hplain hcomment).1, ?_⟩
    rw [List.mapM_cons, text_unquoted_iff.mpr ⟨hhome, hpattern⟩]
    rfl

def before (names : List (List Char)) (l : List Char) : List Char :=
  names.foldr (fun name rest => name ++ ' ' :: rest) l

theorem lex_before {names : List (List Char)} (hnames : ∀ name ∈ names, Literal name)
    (l : List Char) :
    lex .between (before names l) =
      (lex .between l).map fun ws => names.map unquoted ++ ws := by
  induction names with
  | nil => simp [before]
  | cons name names ih =>
    obtain ⟨hname, hnames⟩ := List.forall_mem_cons.mp hnames
    have hbefore : before (name :: names) l = name ++ ' ' :: before names l := rfl
    rw [hbefore, (lex_between hname.ne_nil hname.plain hname.no_comment).2, ih hnames,
      Option.map_map]
    rfl

theorem mapM_text_unquoted {names : List (List Char)} (hnames : ∀ name ∈ names, Literal name) :
    (names.map unquoted).mapM text = some names := by
  induction names with
  | nil => rfl
  | cons name names ih =>
    obtain ⟨hname, hnames⟩ := List.forall_mem_cons.mp hnames
    rw [List.map_cons, List.mapM_cons, ih hnames,
      text_unquoted_iff.mpr ⟨hname.no_home, hname.no_pattern⟩]
    rfl

/-- Behind the words of a command, a text is its last argument as it stands exactly if it is
literal. -/
theorem simpleCommand_append_iff {name : List Char} {names : List (List Char)}
    (hnames : ∀ n ∈ name :: names, Literal n) (hname : name ∉ reservedWords ∧ '=' ∉ name) :
    simpleCommand (before (name :: names) w) = some (name :: names ++ [w]) ↔ Literal w := by
  rw [← lex_text_iff]
  unfold simpleCommand
  rw [lex_before hnames]
  have hno : ¬(name ∈ reservedWords ∨ '=' ∈ name) := not_or.mpr hname
  cases lex .between w with
  | none => simp
  | some ws =>
    have hmap : ((name :: names).map unquoted ++ ws).mapM text =
        (ws.mapM text).map fun texts => name :: names ++ texts := by
      rw [List.mapM_append, mapM_text_unquoted hnames]
      cases ws.mapM text <;> rfl
    rw [Option.map_some, Option.bind_eq_bind, Option.bind_some, hmap]
    cases htexts : ws.mapM text with
    | none => simp [htexts]
    | some texts => simp [htexts, hno]

end Shell
