import Pan.Clipping
import Pan.Library.Text

namespace Pan

/-! ## Byte offsets -/

/-- `&s[n..]`, which panics inside a character. -/
def dropBytes (n : ℕ) (l : List Char) : Option (List Char) :=
  (takeBytes n l).map fun front => l.drop front.length

/-- `find` of a character: the byte where it begins. -/
def findChar (a : Char) : List Char → Option ℕ
  | [] => none
  | c :: l => if c = a then some 0 else (findChar a l).map (c.utf8Size + ·)

/-- `rfind` of a character that matches: the byte where it begins. -/
def rfindChar (p : Char → Bool) : List Char → Option ℕ
  | [] => none
  | c :: l => match rfindChar p l with
    | some n => some (c.utf8Size + n)
    | none => if p c then some 0 else none

/-- `truncate(n)`, which panics inside a character. -/
def truncateBytes (n : ℕ) (l : List Char) : Option (List Char) :=
  if n ≤ (String.ofList l).utf8ByteSize then takeBytes n l else some l

theorem takeBytes_append (front rest : List Char) :
    takeBytes (String.ofList front).utf8ByteSize (front ++ rest) = some front :=
  takeBytes_eq_some_iff.mpr ⟨List.prefix_append _ _, rfl⟩

theorem dropBytes_append (front rest : List Char) :
    dropBytes (String.ofList front).utf8ByteSize (front ++ rest) = some rest := by
  rw [dropBytes, takeBytes_append, Option.map_some, List.drop_left]

theorem truncateBytes_append (front rest : List Char) :
    truncateBytes (String.ofList front).utf8ByteSize (front ++ rest) = some front := by
  unfold truncateBytes
  rw [takeBytes_append, String.ofList_append, String.utf8ByteSize_append,
    if_pos (Nat.le_add_right _ _)]

theorem length_of_dropBytes {n : ℕ} {l rest : List Char} (h : dropBytes n l = some rest)
    (hn : 0 < n) : rest.length < l.length := by
  obtain ⟨front, hfront, rfl⟩ := Option.map_eq_some_iff.mp h
  obtain ⟨⟨rest, rfl⟩, hsize⟩ := takeBytes_eq_some_iff.mp hfront
  have hpos : 0 < front.length := by
    rcases front with _ | ⟨c, front⟩
    · subst hsize
      cases hn
    · exact Nat.succ_pos _
  rw [List.drop_left, List.length_append]
  omega

theorem findChar_append {a : Char} {l : List Char} (h : a ∉ l) (rest : List Char) :
    findChar a (l ++ a :: rest) = some (String.ofList l).utf8ByteSize := by
  induction l with
  | nil => exact if_pos rfl
  | cons c l ih =>
    obtain ⟨hc, hl⟩ := List.ne_and_not_mem_of_not_mem_cons h
    rw [List.cons_append, findChar, if_neg hc.symm, ih hl, Text.utf8ByteSize_ofList_cons]
    rfl

theorem findChar_eq_none {a : Char} {l : List Char} (h : a ∉ l) : findChar a l = none := by
  induction l with
  | nil => rfl
  | cons c l ih =>
    obtain ⟨hc, hl⟩ := List.ne_and_not_mem_of_not_mem_cons h
    rw [findChar, if_neg hc.symm, ih hl]
    rfl

theorem rfindChar_eq_none {p : Char → Bool} {l : List Char} :
    rfindChar p l = none ↔ ∀ c ∈ l, p c = false := by
  induction l with
  | nil => simp [rfindChar]
  | cons c l ih =>
    rw [List.forall_mem_cons, rfindChar, ← ih]
    cases rfindChar p l with
    | none => cases p c <;> simp
    | some n => simp

theorem rfindChar_append {p : Char → Bool} {c : Char} (hc : p c = true) (before : List Char)
    {rest : List Char} (hrest : ∀ c ∈ rest, p c = false) :
    rfindChar p (before ++ c :: rest) = some (String.ofList before).utf8ByteSize := by
  induction before with
  | nil =>
    rw [List.nil_append, rfindChar, rfindChar_eq_none.mpr hrest]
    exact if_pos hc
  | cons b before ih => rw [List.cons_append, rfindChar, ih, Text.utf8ByteSize_ofList_cons]

theorem exists_of_rfindChar {p : Char → Bool} {l : List Char} {n : ℕ}
    (h : rfindChar p l = some n) : ∃ before c rest, l = before ++ c :: rest ∧ p c = true ∧
      (∀ a ∈ rest, p a = false) ∧ (String.ofList before).utf8ByteSize = n := by
  induction l generalizing n with
  | nil => cases h
  | cons c l ih =>
    rw [rfindChar] at h
    rcases hl : rfindChar p l with _ | m
    · rw [hl] at h
      dsimp only at h
      split_ifs at h with hc
      cases h
      exact ⟨[], c, l, rfl, hc, rfindChar_eq_none.mp hl, rfl⟩
    · rw [hl] at h
      cases h
      obtain ⟨before, a, rest, rfl, ha, hrest, hsize⟩ := ih hl
      exact ⟨c :: before, a, rest, rfl, ha, hrest, by rw [Text.utf8ByteSize_ofList_cons, hsize]⟩

/-! ## Cleaning -/

def closer : Char → Option Char
  | '(' => some ')'
  | '*' => some '*'
  | _ => none

/-- The loop that drops the stage directions in front; nothing if it panics. -/
def stripDirections (text : List Char) : Option (List Char) :=
  let text' := text.dropWhile isWhitespace
  match text'.head?.bind closer with
  | none => some text'
  | some close =>
    match dropBytes 1 text' with
    | none => none
    | some inner =>
      match findChar close inner with
      | none => some text'
      | some stop =>
        match _hrest : dropBytes (1 + stop + close.utf8Size) text' with
        | none => none
        | some rest => stripDirections rest
termination_by text.length
decreasing_by
  -- every round drops the opening bracket at least
  exact (length_of_dropBytes _hrest (Nat.add_pos_left (Nat.add_pos_left Nat.one_pos _) _)).trans_le
    (List.dropWhile_suffix _).length_le

def isQuotationMark (c : Char) : Bool := c == '"'

def isSentenceEnd (c : Char) : Bool := ['.', '!', '?', '…'].contains c

/-- A line that ends so was not cut off. -/
def closesLine (c : Char) : Bool := ['.', '!', '?', '…', '"', Char.ofNat 39].contains c

/-- A line that was cut off, back to its last sentence end; nothing if it panics. -/
def cutTail (line : List Char) : Option (List Char) :=
  if !line.isEmpty && !line.getLast?.any closesLine then
    match rfindChar isSentenceEnd line with
    | none => some line
    | some cut =>
      if 20 ≤ cut then
        (dropBytes cut line).bind fun tail =>
          truncateBytes (cut + tail.head?.elim 1 Char.utf8Size) line
      else some line
  else some line

/-- `text.trim().trim_matches('"').trim()` -/
def unquote (text : List Char) : List Char :=
  Text.trimMatches isWhitespace (Text.trimMatches isQuotationMark
    (Text.trimMatches isWhitespace text))

/-- Keep the spoken words: drop leading `(…)` and `*…*` blocks, unwrap quotation marks, and cut a
truncated tail back to the last sentence end. -/
def cleanLine (raw : String) : Option String := do
  let text ← stripDirections (Text.trimMatches isWhitespace raw.toList)
  let line ← cutTail (unquote text)
  return String.ofList line

/-! ## Stage directions -/

/-- A stage direction with its brackets, or its asterisks. -/
def IsDirection (d : List Char) : Prop :=
  ∃ c close inner, d = c :: (inner ++ [close]) ∧ closer c = some close ∧ close ∉ inner

def BeginsWithDirection (l : List Char) : Prop := ∃ d rest, l = d ++ rest ∧ IsDirection d

inductive Directions : List Char → Prop
  | nil : Directions []
  | white {c l} : isWhitespace c = true → Directions l → Directions (c :: l)
  | direction {d l} : IsDirection d → Directions l → Directions (d ++ l)

theorem closer_eq_some {c close : Char} (h : closer c = some close) :
    c = '(' ∧ close = ')' ∨ c = '*' ∧ close = '*' := by
  unfold closer at h
  split at h <;> cases h
  · exact Or.inl ⟨rfl, rfl⟩
  · exact Or.inr ⟨rfl, rfl⟩

theorem utf8Size_opener {c close : Char} (h : closer c = some close) : c.utf8Size = 1 := by
  obtain ⟨rfl, -⟩ | ⟨rfl, -⟩ := closer_eq_some h <;> rfl

/-- `text[1..]` does not panic behind an opening bracket. -/
theorem dropBytes_opener {c close : Char} (h : closer c = some close) (l : List Char) :
    dropBytes 1 (c :: l) = some l := by
  have hdrop := dropBytes_append [c] l
  rwa [Text.utf8ByteSize_ofList_cons, utf8Size_opener h,
    Text.utf8ByteSize_ofList_eq_zero.mpr rfl] at hdrop

theorem directions_of_white {l : List Char} (h : ∀ c ∈ l, isWhitespace c = true) :
    Directions l := by
  induction l with
  | nil => exact .nil
  | cons c l ih =>
    obtain ⟨hc, hl⟩ := List.forall_mem_cons.mp h
    exact .white hc (ih hl)

theorem IsDirection.ne_nil {d : List Char} (h : IsDirection d) : d ≠ [] := by
  obtain ⟨c, close, inner, rfl, -, -⟩ := h
  exact List.cons_ne_nil _ _

/-- Neither end of a direction is trimmed, and no sentence ends there. -/
theorem IsDirection.ends {d : List Char} (h : IsDirection d) :
    (∀ c ∈ d.head?, isWhitespace c = false ∧ isQuotationMark c = false) ∧
      ∀ c ∈ d.getLast?, isWhitespace c = false ∧ isQuotationMark c = false ∧
        closesLine c = false ∧ isSentenceEnd c = false := by
  obtain ⟨c, close, inner, rfl, hclose, -⟩ := h
  have hlast : (c :: (inner ++ [close])).getLast? = some close := by
    rw [← List.cons_append, List.getLast?_concat]
  rw [List.head?_cons, hlast]
  obtain ⟨rfl, rfl⟩ | ⟨rfl, rfl⟩ := closer_eq_some hclose <;> simp <;> decide

theorem stripDirections_eq (text : List Char) : stripDirections text =
    match (text.dropWhile isWhitespace).head?.bind closer with
    | none => some (text.dropWhile isWhitespace)
    | some close => (dropBytes 1 (text.dropWhile isWhitespace)).bind fun inner =>
      match findChar close inner with
      | none => some (text.dropWhile isWhitespace)
      | some stop => (dropBytes (1 + stop + close.utf8Size) (text.dropWhile isWhitespace)).bind
          stripDirections := by
  rw [stripDirections]
  split
  · rfl
  · split
    · rename_i hinner
      rw [hinner]
      rfl
    · rename_i inner hinner
      rw [hinner, Option.bind_some]
      split
      · rfl
      · split <;> rename_i hrest <;> rw [hrest] <;> rfl

theorem stripDirections_dropWhile (text : List Char) :
    stripDirections (text.dropWhile isWhitespace) = stripDirections text := by
  rw [stripDirections_eq, stripDirections_eq text,
    Text.dropWhile_of_head (Text.head_dropWhile isWhitespace text)]

theorem stripDirections_direction {d : List Char} (hd : IsDirection d) (l : List Char) :
    stripDirections (d ++ l) = stripDirections l := by
  have hhead : ∀ c ∈ (d ++ l).head?, isWhitespace c = false := by
    intro c hc
    rw [List.head?_append_of_ne_nil _ hd.ne_nil] at hc
    exact (hd.ends.1 c hc).1
  rw [stripDirections_eq, Text.dropWhile_of_head hhead]
  obtain ⟨c, close, inner, rfl, hclose, hinner⟩ := hd
  have hc : c.utf8Size = 1 := utf8Size_opener hclose
  have hopen : dropBytes 1 (c :: (inner ++ close :: l)) = some (inner ++ close :: l) :=
    dropBytes_opener hclose _
  have hclosed : dropBytes (1 + (String.ofList inner).utf8ByteSize + close.utf8Size)
      (c :: (inner ++ close :: l)) = some l := by
    have h := dropBytes_append (c :: (inner ++ [close])) l
    rw [Text.utf8ByteSize_ofList_cons, String.ofList_append, String.utf8ByteSize_append,
      Text.utf8ByteSize_ofList_cons, Text.utf8ByteSize_ofList_eq_zero.mpr rfl, hc, Nat.add_zero,
      ← Nat.add_assoc] at h
    simpa using h
  have hsplit : c :: (inner ++ [close]) ++ l = c :: (inner ++ close :: l) := by simp
  rw [hsplit, List.head?_cons, Option.bind_some, hclose]
  dsimp only
  rw [hopen, Option.bind_some, findChar_append hinner]
  dsimp only
  rw [hclosed, Option.bind_some]

theorem stripDirections_done {text : List Char} (hwhite : ∀ c ∈ text.head?, isWhitespace c = false)
    (hno : ¬BeginsWithDirection text) : stripDirections text = some text := by
  rw [stripDirections_eq, Text.dropWhile_of_head hwhite]
  rcases hclose : text.head?.bind closer with _ | close
  · rfl
  · dsimp only
    obtain ⟨c, hhead, hcloser⟩ := Option.bind_eq_some_iff.mp hclose
    obtain ⟨inner, rfl⟩ := List.head?_eq_some_iff.mp hhead
    have hopen : dropBytes 1 (c :: inner) = some inner := dropBytes_opener hcloser inner
    have hnot : close ∉ inner := by
      intro hmem
      obtain ⟨front, rest, rfl, hfront⟩ := List.eq_append_cons_of_mem hmem
      exact hno ⟨c :: (front ++ [close]), rest, by simp, c, close, front, rfl, hcloser, hfront⟩
    rw [hopen, Option.bind_some, findChar_eq_none hnot]

theorem stripDirections_append {lead : List Char} (h : Directions lead) (text : List Char) :
    stripDirections (lead ++ text) = stripDirections text := by
  induction h with
  | nil => rfl
  | @white c l hc _ ih =>
    rw [← ih, ← stripDirections_dropWhile (c :: l ++ text), ← stripDirections_dropWhile (l ++ text),
      List.cons_append, List.dropWhile_cons_of_pos hc]
  | direction hd _ ih => rw [List.append_assoc, stripDirections_direction hd, ih]

/-- The reply is white space and directions, and then a text without them in front. -/
structure Front (raw lead text : List Char) : Prop where
  eq : raw = lead ++ text
  directions : Directions lead
  head : ∀ c ∈ text.head?, isWhitespace c = false
  none : ¬BeginsWithDirection text

theorem Front.stripDirections_eq {raw lead text : List Char} (h : Front raw lead text) :
    stripDirections raw = some text := by
  rw [h.eq, stripDirections_append h.directions, stripDirections_done h.head h.none]

theorem exists_front (raw : List Char) : ∃ lead text, Front raw lead text := by
  induction hn : raw.length using Nat.strong_induction_on generalizing raw with
  | _ n ih =>
    subst hn
    -- white space or a direction is taken from the front as long as there is one
    by_cases hwhite : ∃ c l, raw = c :: l ∧ isWhitespace c = true
    · obtain ⟨c, l, rfl, hc⟩ := hwhite
      obtain ⟨lead, text, h⟩ := ih _ (Nat.lt_succ_self _) l rfl
      exact ⟨c :: lead, text, congrArg (c :: ·) h.eq, .white hc h.directions, h.head, h.none⟩
    · by_cases hbegins : BeginsWithDirection raw
      · obtain ⟨d, l, rfl, hd⟩ := hbegins
        have hlt : l.length < (d ++ l).length := by
          have := List.length_pos_iff.mpr hd.ne_nil
          rw [List.length_append]
          omega
        obtain ⟨lead, text, h⟩ := ih _ hlt l rfl
        refine ⟨d ++ lead, text, ?_, .direction hd h.directions, h.head, h.none⟩
        rw [List.append_assoc, ← h.eq]
      · refine ⟨[], raw, rfl, .nil, fun c hc => ?_, hbegins⟩
        obtain ⟨l, hl⟩ := List.head?_eq_some_iff.mp hc
        exact Bool.eq_false_iff.mpr fun hw => hwhite ⟨c, l, hl, hw⟩

/-- White space behind a text does not complete a direction. -/
theorem not_beginsWithDirection_append {text w : List Char} (h : ¬BeginsWithDirection text)
    (hw : ∀ c ∈ w, isWhitespace c = true) : ¬BeginsWithDirection (text ++ w) := by
  rintro ⟨d, rest, heq, hd⟩
  rcases List.append_eq_append_iff.mp heq with ⟨w', rfl, hw'⟩ | ⟨rest', rfl, -⟩
  · rcases List.eq_nil_or_concat' w' with rfl | ⟨w', c, rfl⟩
    · exact h ⟨text, [], by simp, by simpa using hd⟩
    · have hlast := hd.ends.2 c (by rw [← List.append_assoc]; exact List.getLast?_concat)
      rw [hw c (by rw [hw']; simp)] at hlast
      cases hlast.1
  · exact h ⟨d, rest', rfl, hd⟩

/-- The white space around the reply makes no difference. -/
theorem Front.trimmed {raw lead text : List Char} (h : Front raw lead text) :
    ∃ text', stripDirections (Text.trimMatches isWhitespace raw) = some text' ∧
      unquote text' = unquote text := by
  obtain ⟨lead', text', h'⟩ := exists_front (Text.trimMatches isWhitespace raw)
  refine ⟨text', h'.stripDirections_eq, ?_⟩
  have hstart : ∀ c ∈ raw.takeWhile isWhitespace, isWhitespace c = true := fun c hc =>
    List.mem_takeWhile_imp hc
  have hend : ∀ c ∈ (raw.dropWhile isWhitespace).rtakeWhile isWhitespace,
      isWhitespace c = true := fun c hc => List.mem_rtakeWhile_imp hc
  have hraw : raw = raw.takeWhile isWhitespace ++ (lead' ++ (text' ++
      (raw.dropWhile isWhitespace).rtakeWhile isWhitespace)) := by
    rw [← List.append_assoc lead', ← h'.eq, Text.trimMatches, List.rdropWhile_append_rtakeWhile,
      List.takeWhile_append_dropWhile]
  generalize raw.takeWhile isWhitespace = front at hstart hraw
  generalize (raw.dropWhile isWhitespace).rtakeWhile isWhitespace = w at hend hraw
  have hstrip : stripDirections (text' ++ w) = some text := by
    rw [← h.stripDirections_eq, hraw, stripDirections_append (directions_of_white hstart),
      stripDirections_append h'.directions]
  -- the loop goes on into the white space at the end only if there is nothing else
  rcases text' with _ | ⟨c, text'⟩
  · have hnil : stripDirections ([] ++ w) = some [] := by
      have hdone := stripDirections_append (directions_of_white hend) []
      rw [List.append_nil] at hdone
      rw [List.nil_append, hdone]
      exact stripDirections_done (fun c hc => nomatch hc) h'.none
    rw [Option.some.inj (hnil.symm.trans hstrip)]
  · have hdone : stripDirections (c :: text' ++ w) = some (c :: text' ++ w) :=
      stripDirections_done h'.head (not_beginsWithDirection_append h'.none hend)
    rw [← Option.some.inj (hdone.symm.trans hstrip)]
    unfold unquote
    congr 2
    unfold Text.trimMatches
    rw [Text.dropWhile_of_head h'.head, Text.dropWhile_of_head (l := c :: text' ++ w) h'.head,
      Text.rdropWhile_append_of_pos hend]

/-! ## The tail -/

/-- The line is cut off, and this is the last of its sentence ends, far enough from the front. -/
structure CutsAt (line before : List Char) (c : Char) (rest : List Char) : Prop where
  eq : line = before ++ c :: rest
  sentenceEnd : isSentenceEnd c = true
  last : ∀ a ∈ rest, isSentenceEnd a = false
  far : 20 ≤ (String.ofList before).utf8ByteSize
  unclosed : ∀ a ∈ line.getLast?, closesLine a = false

theorem cutTail_of_cutsAt {line before rest : List Char} {c : Char}
    (h : CutsAt line before c rest) : cutTail line = some (before ++ [c]) := by
  have hunclosed : (!line.isEmpty && !line.getLast?.any closesLine) = true := by
    have hempty : line.isEmpty = false := by rw [h.eq]; cases before <;> rfl
    have hany : line.getLast?.any closesLine = false := (Option.any_eq_false _ _).mpr h.unclosed
    rw [hempty, hany]
    rfl
  have hsize : (String.ofList before).utf8ByteSize + c.utf8Size =
      (String.ofList (before ++ [c])).utf8ByteSize := by
    rw [String.ofList_append, String.utf8ByteSize_append, Text.utf8ByteSize_ofList_cons,
      Text.utf8ByteSize_ofList_eq_zero.mpr rfl, Nat.add_zero]
  have hline : line = before ++ [c] ++ rest := by
    rw [h.eq, List.append_assoc, List.singleton_append]
  have hfind : rfindChar isSentenceEnd line = some (String.ofList before).utf8ByteSize := by
    rw [h.eq, rfindChar_append h.sentenceEnd before h.last]
  have hdrop : dropBytes (String.ofList before).utf8ByteSize line = some (c :: rest) := by
    rw [h.eq, dropBytes_append]
  rw [cutTail, if_pos hunclosed, hfind]
  dsimp only
  rw [if_pos h.far, hdrop, Option.bind_some, List.head?_cons]
  show truncateBytes ((String.ofList before).utf8ByteSize + c.utf8Size) line = _
  rw [hsize, hline, truncateBytes_append]

theorem cutTail_of_not {line : List Char} (h : ∀ before c rest, ¬CutsAt line before c rest) :
    cutTail line = some line := by
  unfold cutTail
  split
  · rename_i hunclosed
    rw [Bool.and_eq_true, Bool.not_eq_true', Bool.not_eq_true', Option.any_eq_false] at hunclosed
    split
    · rfl
    · rename_i cut hcut
      obtain ⟨before, c, rest, hline, hc, hlast, hsize⟩ := exists_of_rfindChar hcut
      refine if_neg fun hfar => h before c rest ⟨hline, hc, hlast, ?_, hunclosed.2⟩
      rwa [hsize]
  · rfl

/-- Cutting never panics, and leaves a front of the line. -/
theorem exists_cutTail (line : List Char) :
    ∃ line', cutTail line = some line' ∧ line' <+: line := by
  by_cases h : ∃ before c rest, CutsAt line before c rest
  · obtain ⟨before, c, rest, h⟩ := h
    refine ⟨before ++ [c], cutTail_of_cutsAt h, rest, ?_⟩
    rw [h.eq, List.append_assoc, List.singleton_append]
  · exact ⟨line, cutTail_of_not fun before c rest hcut => h ⟨before, c, rest, hcut⟩,
      List.prefix_rfl⟩

/-! ## Directions inside the quotation marks -/

def unquoteEnd (l : List Char) : List Char :=
  ((l.rdropWhile isWhitespace).rdropWhile isQuotationMark).rdropWhile isWhitespace

/-- The line that begins with the direction is cut off inside it. -/
def CutInside (d after : List Char) : Prop :=
  ∃ before c rest, d = before ++ c :: rest ∧
    CutsAt (d ++ unquoteEnd after) before c (rest ++ unquoteEnd after)

/-- Behind the directions in front there are quotation marks, and after these comes a direction that
is not cut away with the tail. -/
def Exposed (raw : List Char) : Prop :=
  ∃ lead quotes white d after, raw = lead ++ (quotes ++ (white ++ (d ++ after))) ∧
    Directions lead ∧ quotes ≠ [] ∧ (∀ c ∈ quotes, isQuotationMark c = true) ∧
    (∀ c ∈ white, isWhitespace c = true) ∧ IsDirection d ∧ ¬CutInside d after

theorem unquote_front (text : List Char) (hhead : ∀ c ∈ text.head?, isWhitespace c = false) :
    unquote text <+: (text.dropWhile isQuotationMark).dropWhile isWhitespace := by
  unfold unquote Text.trimMatches
  rw [Text.dropWhile_of_head hhead]
  refine (List.rdropWhile_prefix _ _).trans (Text.dropWhile_prefix_dropWhile ?_)
  exact (List.rdropWhile_prefix _ _).trans
    (Text.dropWhile_prefix_dropWhile (List.rdropWhile_prefix _ _))

theorem not_isWhitespace_of_isQuotationMark {c : Char} (h : isQuotationMark c = true) :
    isWhitespace c = false := by
  rw [eq_of_beq h]
  rfl

theorem unquote_of_direction {quotes white d : List Char} (hquotes : quotes ≠ [])
    (hquote : ∀ c ∈ quotes, isQuotationMark c = true) (hwhite : ∀ c ∈ white, isWhitespace c = true)
    (hd : IsDirection d) (after : List Char) :
    unquote (quotes ++ (white ++ (d ++ after))) = d ++ unquoteEnd after := by
  obtain ⟨hhead, hlast⟩ := hd.ends
  have hends : ∀ {l : List Char}, ∀ c ∈ (l ++ d).getLast?, isWhitespace c = false ∧
      isQuotationMark c = false := by
    intro l c hc
    rw [List.getLast?_append_of_ne_nil _ hd.ne_nil] at hc
    exact ⟨(hlast c hc).1, (hlast c hc).2.1⟩
  have hfirst : ∀ c ∈ (quotes ++ (white ++ (d ++ after))).head?, isWhitespace c = false := by
    intro c hc
    rw [List.head?_append_of_ne_nil _ hquotes] at hc
    exact not_isWhitespace_of_isQuotationMark (hquote c (List.mem_of_mem_head? hc))
  have hinside : ∀ {l : List Char}, ∀ c ∈ (white ++ (d ++ l)).head?, isQuotationMark c = false := by
    intro l c hc
    rcases white with _ | ⟨a, white⟩
    · rw [List.nil_append, List.head?_append_of_ne_nil _ hd.ne_nil] at hc
      exact (hhead c hc).2
    · obtain rfl := Option.some.inj hc
      have ha := hwhite a List.mem_cons_self
      refine Bool.eq_false_iff.mpr fun hq => ?_
      rw [not_isWhitespace_of_isQuotationMark hq] at ha
      cases ha
  have hdirection : ∀ {l : List Char}, ∀ c ∈ (d ++ l).head?, isWhitespace c = false := by
    intro l c hc
    rw [List.head?_append_of_ne_nil _ hd.ne_nil] at hc
    exact (hhead c hc).1
  -- the direction stops each of the three trims, from the outside inwards
  have houter : Text.trimMatches isWhitespace (quotes ++ (white ++ (d ++ after))) =
      quotes ++ (white ++ (d ++ after.rdropWhile isWhitespace)) := by
    rw [Text.trimMatches, Text.dropWhile_of_head hfirst, ← List.append_assoc, ← List.append_assoc,
      Text.rdropWhile_append_of_last fun c hc => (hends c hc).1, List.append_assoc,
      List.append_assoc]
  have hmarks : ∀ l, Text.trimMatches isQuotationMark (quotes ++ (white ++ (d ++ l))) =
      white ++ (d ++ l.rdropWhile isQuotationMark) := by
    intro l
    rw [Text.trimMatches, Text.dropWhile_append_of_head hquote hinside, ← List.append_assoc,
      Text.rdropWhile_append_of_last fun c hc => (hends c hc).2, List.append_assoc]
  have hinner : ∀ l, Text.trimMatches isWhitespace (white ++ (d ++ l)) =
      d ++ l.rdropWhile isWhitespace := by
    intro l
    rw [Text.trimMatches, Text.dropWhile_append_of_head hwhite hdirection,
      Text.rdropWhile_append_of_last fun c hc => (hlast c hc).1]
  rw [unquote, houter, hmarks, hinner, unquoteEnd]

/-- A line that begins with a direction begins with it before the tail is cut, unless the cut is
inside the direction. -/
theorem cutTail_direction_iff {d after line : List Char} (hd : IsDirection d)
    (h : cutTail (d ++ unquoteEnd after) = some line) : d <+: line ↔ ¬CutInside d after := by
  constructor
  · rintro hpre ⟨before, c, rest, rfl, hcut⟩
    -- the direction is left whole only if its closing bracket is the sentence end
    obtain rfl := Option.some.inj (h.symm.trans (cutTail_of_cutsAt hcut))
    rw [List.prefix_append_right_inj, List.cons_prefix_cons, List.prefix_nil] at hpre
    obtain rfl := hpre.2
    have hlast := (hd.ends.2 c (List.getLast?_concat)).2.2.2
    rw [hcut.sentenceEnd] at hlast
    cases hlast
  · intro hinside
    by_cases hcut : ∃ before c rest, CutsAt (d ++ unquoteEnd after) before c rest
    · obtain ⟨before, c, rest, hcut⟩ := hcut
      obtain rfl := Option.some.inj (h.symm.trans (cutTail_of_cutsAt hcut))
      rcases List.append_eq_append_iff.mp hcut.eq with ⟨x, rfl, -⟩ | ⟨x, hx, hrest⟩
      · rw [List.append_assoc]
        exact List.prefix_append _ _
      · rcases x with _ | ⟨c', x⟩
        · rw [List.append_nil] at hx
          rw [hx]
          exact List.prefix_append _ _
        · obtain ⟨rfl, rfl⟩ := List.cons.inj hrest
          exact absurd ⟨before, c, x, hx, hcut⟩ hinside
    · rw [Option.some.inj (h.symm.trans (cutTail_of_not fun before c rest hno =>
        hcut ⟨before, c, rest, hno⟩))]
      exact List.prefix_append _ _

theorem cleanLine_eq {raw : String} {lead text : List Char} (h : Front raw.toList lead text) :
    cleanLine raw = (cutTail (unquote text)).map String.ofList := by
  obtain ⟨text', hstrip, hsame⟩ := h.trimmed
  unfold cleanLine
  rw [hstrip, Option.bind_eq_bind, Option.bind_some, hsame]
  cases cutTail (unquote text) <;> rfl

/-- Cleaning never panics and returns a part of the reply. -/
theorem exists_cleanLine (raw : String) :
    ∃ line, cleanLine raw = some line ∧ line.toList <:+: raw.toList := by
  obtain ⟨lead, text, h⟩ := exists_front raw.toList
  obtain ⟨line, hcut, hpre⟩ := exists_cutTail (unquote text)
  refine ⟨String.ofList line, by rw [cleanLine_eq h, hcut]; rfl, ?_⟩
  have hunquote : unquote text <:+: text :=
    ((Text.trimMatches_infix _ _).trans (Text.trimMatches_infix _ _)).trans
      (Text.trimMatches_infix _ _)
  rw [String.toList_ofList, h.eq]
  exact (hpre.isInfix.trans hunquote).trans (List.suffix_append lead text).isInfix

/-- The line begins with a stage direction exactly if the reply has one inside its quotation
marks. -/
theorem beginsWithDirection_iff {raw line : String} (hline : cleanLine raw = some line) :
    BeginsWithDirection line.toList ↔ Exposed raw.toList := by
  constructor
  · intro hbegins
    obtain ⟨lead, text, h⟩ := exists_front raw.toList
    obtain ⟨l, hcut, hpre⟩ := exists_cutTail (unquote text)
    rw [cleanLine_eq h, hcut] at hline
    obtain rfl := Option.some.inj hline
    rw [String.toList_ofList] at hbegins
    obtain ⟨d, r, rfl, hd⟩ := hbegins
    obtain ⟨after, hafter⟩ := ((List.prefix_append d r).trans hpre).trans
      (unquote_front text h.head)
    have hmarks : ∀ c ∈ text.takeWhile isQuotationMark, isQuotationMark c = true := fun c hc =>
      List.mem_takeWhile_imp hc
    have hwhite : ∀ c ∈ (text.dropWhile isQuotationMark).takeWhile isWhitespace,
        isWhitespace c = true := fun c hc => List.mem_takeWhile_imp hc
    have htext : text = text.takeWhile isQuotationMark ++
        ((text.dropWhile isQuotationMark).takeWhile isWhitespace ++ (d ++ after)) := by
      rw [hafter, List.takeWhile_append_dropWhile, List.takeWhile_append_dropWhile]
    -- without quotation marks the text itself would begin with the direction
    have hquotes : text.takeWhile isQuotationMark ≠ [] := by
      intro hnil
      have hnone : text.dropWhile isQuotationMark = text := by
        have := List.takeWhile_append_dropWhile (p := isQuotationMark) (l := text)
        rwa [hnil, List.nil_append] at this
      rw [hnone, Text.dropWhile_of_head h.head] at hafter
      exact h.none ⟨d, after, hafter.symm, hd⟩
    refine ⟨lead, _, _, d, after, h.eq.trans (congrArg (lead ++ ·) htext), h.directions, hquotes,
      hmarks, hwhite, hd, ?_⟩
    rw [htext, unquote_of_direction hquotes hmarks hwhite hd] at hcut
    exact (cutTail_direction_iff hd hcut).mp (List.prefix_append d r)
  · rintro ⟨lead, quotes, white, d, after, hraw, hlead, hquotes, hmarks, hwhite, hd, hinside⟩
    have hfirst : ∀ c ∈ (quotes ++ (white ++ (d ++ after))).head?, isQuotationMark c = true := by
      intro c hc
      rw [List.head?_append_of_ne_nil _ hquotes] at hc
      exact hmarks c (List.mem_of_mem_head? hc)
    have h : Front raw.toList lead (quotes ++ (white ++ (d ++ after))) := by
      refine ⟨hraw, hlead, fun c hc => not_isWhitespace_of_isQuotationMark (hfirst c hc), ?_⟩
      -- no direction begins with a quotation mark
      rintro ⟨d', rest, heq, hd'⟩
      obtain ⟨c, l, rfl⟩ := List.exists_cons_of_ne_nil hd'.ne_nil
      have hquote := hfirst c (by rw [heq]; rfl)
      rw [(hd'.ends.1 c rfl).2] at hquote
      cases hquote
    rw [cleanLine_eq h, unquote_of_direction hquotes hmarks hwhite hd] at hline
    obtain ⟨l, hcut, rfl⟩ := Option.map_eq_some_iff.mp hline
    rw [String.toList_ofList]
    obtain ⟨rest, hrest⟩ := (cutTail_direction_iff hd hcut).mpr hinside
    exact ⟨d, rest, hrest.symm, hd⟩

/-- Cleaning a reply returns a part of it that does not begin with a stage direction exactly if the
reply has none inside its quotation marks. -/
theorem cleanLine_spoken_iff (raw : String) :
    (∃ line, cleanLine raw = some line ∧ line.toList <:+: raw.toList ∧
      ¬BeginsWithDirection line.toList) ↔ ¬Exposed raw.toList := by
  obtain ⟨line, hline, hinfix⟩ := exists_cleanLine raw
  rw [← beginsWithDirection_iff hline]
  constructor
  · rintro ⟨line', hline', -, hno⟩
    rwa [← Option.some.inj (hline'.symm.trans hline)]
  · exact fun hno => ⟨line, hline, hinfix, hno⟩

/-- A direction inside the quotation marks is spoken. -/
theorem cleanLine_spoken_quoted : cleanLine "\"(sighs) Hello.\"" = some "(sighs) Hello." ∧
    BeginsWithDirection "(sighs) Hello.".toList := by
  have hdirection : IsDirection ['(', 's', 'i', 'g', 'h', 's', ')'] :=
    ⟨'(', ')', ['s', 'i', 'g', 'h', 's'], rfl, rfl, by simp⟩
  have hfront : Front "\"(sighs) Hello.\"".toList [] "\"(sighs) Hello.\"".toList := by
    refine ⟨rfl, .nil, fun c hc => ?_, ?_⟩
    · obtain rfl := Option.some.inj hc
      rfl
    · rintro ⟨d, rest, heq, c, close, inner, rfl, hclose, -⟩
      obtain rfl := (List.cons.inj heq).1
      cases hclose
  refine ⟨?_, _, [' ', 'H', 'e', 'l', 'l', 'o', '.'], rfl, hdirection⟩
  rw [cleanLine_eq hfront]
  rfl

end Pan
