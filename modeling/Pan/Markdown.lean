import Pan.Library.Text
import Mathlib.Data.List.Infix

namespace Pan

namespace Markdown

inductive Style where
  | plain
  | bold
  | italic
  | code
deriving DecidableEq

structure StyledText where
  content : List Char
  style : Style
deriving DecidableEq

def flush (buf : List Char) (spans : List StyledText) (style : Style) : List StyledText :=
  if buf.isEmpty then spans else spans ++ [⟨buf, style⟩]

/-- The text up to `**`, and what is left from there. The last character is not looked at on its
own. -/
def boldInner : List Char → List Char × List Char
  | c :: c' :: rest =>
    if c = '*' ∧ c' = '*' then ([], c :: c' :: rest)
    else ((c :: (boldInner (c' :: rest)).1), (boldInner (c' :: rest)).2)
  | rest => ([], rest)

/-- The text up to the delimiter, and what is left from there. -/
def innerUntil (delimiter : Char) (text : List Char) : List Char × List Char :=
  text.span (· ≠ delimiter)

theorem length_boldInner (text : List Char) : (boldInner text).2.length ≤ text.length := by
  fun_induction boldInner text with
  | case1 c c' rest h => exact le_rfl
  | case2 c c' rest h ih => exact ih.trans (Nat.le_succ _)
  | case3 rest h => exact le_rfl

theorem length_innerUntil (delimiter : Char) (text : List Char) :
    (innerUntil delimiter text).2.length ≤ text.length := by
  unfold innerUntil
  rw [List.span_eq_takeWhile_dropWhile]
  exact (List.dropWhile_suffix _).length_le

theorem length_drop_lt {l rest : List Char} (n : ℕ) (c : Char) (h : l.length ≤ rest.length) :
    (l.drop n).length < (c :: rest).length := by
  rw [List.length_drop, List.length_cons]
  omega

def parseLoop (spans : List StyledText) (buf : List Char) : List Char → List StyledText
  | [] => flush buf spans .plain
  | '*' :: '*' :: rest =>
    let scanned := boldInner rest
    parseLoop (flush buf spans .plain ++ [⟨scanned.1, .bold⟩]) [] (scanned.2.drop 2)
  | '*' :: rest =>
    let scanned := innerUntil '*' rest
    parseLoop (flush buf spans .plain ++ [⟨scanned.1, .italic⟩]) [] (scanned.2.drop 1)
  | '`' :: rest =>
    let scanned := innerUntil '`' rest
    parseLoop (flush buf spans .plain ++ [⟨scanned.1, .code⟩]) [] (scanned.2.drop 1)
  | c :: rest => parseLoop spans (buf ++ [c]) rest
termination_by text => text.length
decreasing_by
  · exact (length_drop_lt 2 '*' (length_boldInner rest)).trans (Nat.lt_succ_self _)
  · exact length_drop_lt 1 '*' (length_innerUntil '*' rest)
  · exact length_drop_lt 1 '`' (length_innerUntil '`' rest)
  · exact Nat.lt_succ_self _

/-- Simple inline markdown parser: `**bold**`, `*italic*` and code between backticks. -/
def parseMarkdown (text : String) : List StyledText := parseLoop [] [] text.toList

def contents (spans : List StyledText) : List Char := spans.flatMap StyledText.content

/-! ## Delimiters -/

inductive Delimiter where
  | bold
  | italic
  | code

def Delimiter.chars : Delimiter → List Char
  | bold => ['*', '*']
  | italic => ['*']
  | code => ['`']

/-- The delimiter at the front of a text, and what follows it. -/
def opening : List Char → Option (Delimiter × List Char)
  | '*' :: '*' :: rest => some (.bold, rest)
  | '*' :: rest => some (.italic, rest)
  | '`' :: rest => some (.code, rest)
  | _ => none

theorem append_of_opening {text rest : List Char} {d : Delimiter}
    (h : opening text = some (d, rest)) : text = d.chars ++ rest := by
  unfold opening at h
  split at h <;> cases h <;> rfl

theorem length_of_opening {text rest : List Char} {d : Delimiter}
    (h : opening text = some (d, rest)) : rest.length < text.length := by
  rw [append_of_opening h, List.length_append]
  cases d <;> simp [Delimiter.chars]

/-- A text from which the delimiters of its pairs are removed, and only these. A delimiter is paired
with the next of its kind after it. -/
def unpaired : List Char → List Char
  | [] => []
  | c :: text =>
    match _hopen : opening (c :: text) with
    | some (d, rest) =>
      match _hclose : Text.splitAround d.chars rest with
      | some (inner, after) => inner ++ unpaired after
      | none => d.chars ++ unpaired rest
    | none => c :: unpaired text
termination_by text => text.length
decreasing_by
  · exact (Text.length_of_splitAround _hclose).trans_lt (length_of_opening _hopen)
  · exact length_of_opening _hopen
  · exact Nat.lt_succ_self _

/-- From left to right, every delimiter that is not the second of a pair is the first of one. -/
inductive AllClosed : List Char → Prop
  | nil : AllClosed []
  | plain {c rest} : opening (c :: rest) = none → AllClosed rest → AllClosed (c :: rest)
  | pair {text d rest inner after} : opening text = some (d, rest) →
      Text.splitAround d.chars rest = some (inner, after) → AllClosed after → AllClosed text

theorem unpaired_of_opening {text rest : List Char} {d : Delimiter}
    (h : opening text = some (d, rest)) :
    unpaired text = match Text.splitAround d.chars rest with
      | some (inner, after) => inner ++ unpaired after
      | none => d.chars ++ unpaired rest := by
  cases text with
  | nil => cases h
  | cons c text =>
    rw [unpaired]
    split
    · rename_i d' rest' hopen
      rw [h] at hopen
      cases hopen
      split <;> rename_i hclose <;> rw [hclose]
    · rename_i hopen
      rw [h] at hopen
      cases hopen

theorem unpaired_of_not_opening {c : Char} {text : List Char} (h : opening (c :: text) = none) :
    unpaired (c :: text) = c :: unpaired text := by
  rw [unpaired]
  split
  · rename_i d rest hopen
    rw [h] at hopen
    cases hopen
  · rfl

/-! ## What the scanner shows -/

@[simp] theorem contents_nil : contents [] = [] := rfl

@[simp] theorem contents_flush (buf : List Char) (spans : List StyledText) (style : Style) :
    contents (flush buf spans style) = contents spans ++ buf := by
  unfold flush
  cases buf with
  | nil => exact (List.append_nil _).symm
  | cons c buf => exact List.flatMap_append.trans (congrArg _ (List.append_nil _))

@[simp] theorem contents_concat (spans : List StyledText) (s : StyledText) :
    contents (spans ++ [s]) = contents spans ++ s.content := by
  unfold contents
  rw [List.flatMap_append, List.flatMap_singleton]

/-- What is scanned behind a delimiter at the front: its inner text and what is left. -/
def Delimiter.scan : Delimiter → List Char → List Char × List Char
  | bold, rest => ((boldInner rest).1, (boldInner rest).2.drop 2)
  | italic, rest => ((innerUntil '*' rest).1, (innerUntil '*' rest).2.drop 1)
  | code, rest => ((innerUntil '`' rest).1, (innerUntil '`' rest).2.drop 1)

def Delimiter.style : Delimiter → Style
  | bold => .bold
  | italic => .italic
  | code => .code

theorem parseLoop_of_opening {text rest : List Char} {d : Delimiter}
    (h : opening text = some (d, rest)) (spans : List StyledText) (buf : List Char) :
    parseLoop spans buf text =
      parseLoop (flush buf spans .plain ++ [⟨(d.scan rest).1, d.style⟩]) [] (d.scan rest).2 := by
  unfold opening at h
  split at h
  · cases h
    rw [parseLoop]
    rfl
  · -- a single asterisk is only looked at where a second does not follow
    rename_i hnot
    cases h
    rw [parseLoop]
    · rfl
    · exact hnot
  · cases h
    rw [parseLoop]
    rfl
  · cases h

theorem parseLoop_of_not_opening {c : Char} {text : List Char} (h : opening (c :: text) = none)
    (spans : List StyledText) (buf : List Char) :
    parseLoop spans buf (c :: text) = parseLoop spans (buf ++ [c]) text := by
  unfold opening at h
  split at h
  · cases h
  · cases h
  · cases h
  · rename_i hbold hitalic hcode
    rw [parseLoop]
    · exact fun rest hc htext => hbold rest (by rw [hc, htext])
    · exact fun hc => hitalic text (by rw [hc])
    · exact fun hc => hcode text (by rw [hc])

theorem length_scan (d : Delimiter) (rest : List Char) :
    (d.scan rest).2.length ≤ rest.length := by
  have hdrop : ∀ (n : ℕ) {l : List Char}, l.length ≤ rest.length →
      (l.drop n).length ≤ rest.length := fun n l hl => by
    rw [List.length_drop]
    omega
  cases d with
  | bold => exact hdrop 2 (length_boldInner rest)
  | italic => exact hdrop 1 (length_innerUntil '*' rest)
  | code => exact hdrop 1 (length_innerUntil '`' rest)

def shown (text : List Char) : List Char := contents (parseLoop [] [] text)

theorem contents_parseLoop (spans : List StyledText) (buf text : List Char) :
    contents (parseLoop spans buf text) = contents spans ++ buf ++ shown text := by
  -- by the length, as the scanner goes on behind what it has scanned
  induction hn : text.length using Nat.strong_induction_on generalizing spans buf text with
  | _ n ih =>
    subst hn
    unfold shown
    cases text with
    | nil =>
      rw [parseLoop, parseLoop, contents_flush, contents_flush]
      exact (List.append_nil _).symm
    | cons c text =>
      rcases hopen : opening (c :: text) with _ | ⟨d, rest⟩
      · have hlt : text.length < (c :: text).length := Nat.lt_succ_self _
        rw [parseLoop_of_not_opening hopen, parseLoop_of_not_opening hopen,
          ih _ hlt _ _ _ rfl, ih _ hlt _ _ _ rfl]
        simp only [contents_nil, List.append_assoc, List.nil_append]
      · have hlt : (d.scan rest).2.length < (c :: text).length :=
          (length_scan d rest).trans_lt (length_of_opening hopen)
        rw [parseLoop_of_opening hopen, parseLoop_of_opening hopen, ih _ hlt _ _ _ rfl,
          ih _ hlt _ _ _ rfl]
        simp only [contents_concat, contents_flush, contents_nil, List.append_assoc,
          List.nil_append, List.append_nil]

theorem innerUntil_cons (delimiter c : Char) (text : List Char) :
    innerUntil delimiter (c :: text) = if c = delimiter then ([], c :: text)
      else (c :: (innerUntil delimiter text).1, (innerUntil delimiter text).2) := by
  unfold innerUntil
  rw [List.span_eq_takeWhile_dropWhile, List.span_eq_takeWhile_dropWhile]
  by_cases h : c = delimiter <;> simp [h]

section Inner

variable {c : Char} {rest inner after : List Char}

theorem innerUntil_of_closed (h : Text.splitAround [c] rest = some (inner, after)) :
    innerUntil c rest = (inner, c :: after) := by
  induction rest generalizing inner with
  | nil => cases h
  | cons a rest ih =>
    rw [innerUntil_cons]
    by_cases ha : a = c
    · subst ha
      have hfront := (Text.splitAround_append [a] rest).symm.trans h
      cases hfront
      exact if_pos rfl
    · have hno : ¬[c] <+: a :: rest := fun hpre =>
        ha (List.cons_prefix_cons.mp hpre).1.symm
      rw [Text.splitAround_cons hno] at h
      obtain ⟨⟨inner, after⟩, hsplit, hp⟩ := Option.map_eq_some_iff.mp h
      cases hp
      rw [if_neg ha, ih hsplit]

theorem innerUntil_of_unclosed (h : Text.splitAround [c] rest = none) :
    innerUntil c rest = (rest, []) := by
  induction rest with
  | nil => rfl
  | cons a rest ih =>
    have hno := Text.splitAround_eq_none.mp h
    rw [List.infix_cons_iff, not_or] at hno
    have ha : a ≠ c := fun heq =>
      hno.1 (List.cons_prefix_cons.mpr ⟨heq.symm, List.nil_prefix⟩)
    rw [innerUntil_cons, if_neg ha, ih (Text.splitAround_eq_none.mpr hno.2)]

theorem boldInner_of_closed (h : Text.splitAround ['*', '*'] rest = some (inner, after)) :
    boldInner rest = (inner, '*' :: '*' :: after) := by
  fun_induction boldInner rest generalizing inner with
  | case1 a b rest hab =>
    obtain ⟨rfl, rfl⟩ := hab
    have hfront := (Text.splitAround_append ['*', '*'] rest).symm.trans h
    cases hfront
    rfl
  | case2 a b rest hab ih =>
    have hno : ¬['*', '*'] <+: a :: b :: rest := fun hpre => by
      obtain ⟨ha, hpre⟩ := List.cons_prefix_cons.mp hpre
      exact hab ⟨ha.symm, (List.cons_prefix_cons.mp hpre).1.symm⟩
    rw [Text.splitAround_cons hno] at h
    obtain ⟨⟨inner, after⟩, hsplit, hp⟩ := Option.map_eq_some_iff.mp h
    cases hp
    rw [ih hsplit]
  | case3 rest hshort =>
    -- there is no room for two asterisks
    have hlength := congrArg List.length (Text.append_of_splitAround h)
    rcases rest with _ | ⟨a, _ | ⟨b, rest⟩⟩
    · simp at hlength
    · simp at hlength
      omega
    · exact absurd rfl (hshort a b rest)

/-- The scanner stops before the last character and steps over it. -/
theorem boldInner_of_unclosed (h : Text.splitAround ['*', '*'] rest = none) :
    (boldInner rest).1 <+: rest ∧ (boldInner rest).2.drop 2 = [] := by
  fun_induction boldInner rest with
  | case1 a b rest hab =>
    obtain ⟨rfl, rfl⟩ := hab
    have hfront := (Text.splitAround_append ['*', '*'] rest).symm.trans h
    cases hfront
  | case2 a b rest hab ih =>
    have hno := Text.splitAround_eq_none.mp h
    rw [List.infix_cons_iff, not_or] at hno
    obtain ⟨hpre, hdrop⟩ := ih (Text.splitAround_eq_none.mpr hno.2)
    exact ⟨List.cons_prefix_cons.mpr ⟨rfl, hpre⟩, hdrop⟩
  | case3 rest hshort =>
    refine ⟨List.nil_prefix, ?_⟩
    rcases rest with _ | ⟨a, _ | ⟨b, rest⟩⟩
    · rfl
    · rfl
    · exact absurd rfl (hshort a b rest)

end Inner

/-- A delimiter that is closed is scanned up to its second. -/
theorem scan_of_closed {d : Delimiter} {rest inner after : List Char}
    (h : Text.splitAround d.chars rest = some (inner, after)) : d.scan rest = (inner, after) := by
  cases d with
  | bold => rw [Delimiter.scan, boldInner_of_closed h]; rfl
  | italic => rw [Delimiter.scan, innerUntil_of_closed h]; rfl
  | code => rw [Delimiter.scan, innerUntil_of_closed h]; rfl

/-- Behind a delimiter that is not closed nothing is left. -/
theorem scan_of_unclosed {d : Delimiter} {rest : List Char}
    (h : Text.splitAround d.chars rest = none) :
    (d.scan rest).1 <+: rest ∧ (d.scan rest).2 = [] := by
  cases d with
  | bold => exact boldInner_of_unclosed h
  | italic | code =>
    rw [Delimiter.scan, innerUntil_of_unclosed h]
    exact ⟨List.prefix_rfl, rfl⟩

/-! ## What is lost -/

@[simp] theorem shown_nil : shown [] = [] := by
  unfold shown
  rw [parseLoop]
  rfl

theorem shown_of_opening {text rest : List Char} {d : Delimiter}
    (h : opening text = some (d, rest)) :
    shown text = (d.scan rest).1 ++ shown (d.scan rest).2 := by
  rw [shown, parseLoop_of_opening h, contents_parseLoop, contents_concat, contents_flush,
    contents_nil, List.append_nil, List.append_nil, List.nil_append]

theorem shown_of_not_opening {c : Char} {text : List Char} (h : opening (c :: text) = none) :
    shown (c :: text) = c :: shown text := by
  rw [shown, parseLoop_of_not_opening h, contents_parseLoop]
  rfl

theorem allClosed_of_opening {text rest : List Char} {d : Delimiter}
    (h : opening text = some (d, rest)) : AllClosed text ↔
      ∃ inner after, Text.splitAround d.chars rest = some (inner, after) ∧ AllClosed after := by
  refine ⟨fun hclosed => ?_, fun ⟨_, _, hsplit, hafter⟩ => .pair h hsplit hafter⟩
  cases hclosed with
  | nil => cases h
  | plain hnot =>
    rw [h] at hnot
    cases hnot
  | pair hpair hsplit hafter =>
    rw [h] at hpair
    cases hpair
    exact ⟨_, _, hsplit, hafter⟩

theorem allClosed_of_not_opening {c : Char} {text : List Char} (h : opening (c :: text) = none) :
    AllClosed (c :: text) ↔ AllClosed text := by
  refine ⟨fun hclosed => ?_, .plain h⟩
  cases hclosed with
  | plain _ hrest => exact hrest
  | pair hpair =>
    rw [h] at hpair
    cases hpair

/-- The text is shown without the delimiters of its pairs exactly if every delimiter is closed. An
unclosed one is never shown. -/
theorem shown_eq_unpaired_iff (text : List Char) : shown text = unpaired text ↔ AllClosed text := by
  induction hn : text.length using Nat.strong_induction_on generalizing text with
  | _ n ih =>
    subst hn
    cases text with
    | nil =>
      refine iff_of_true ?_ .nil
      rw [unpaired, shown_nil]
    | cons c text =>
      rcases hopen : opening (c :: text) with _ | ⟨d, rest⟩
      · rw [shown_of_not_opening hopen, unpaired_of_not_opening hopen, List.cons_inj_right,
          ih _ (Nat.lt_succ_self _) _ rfl, allClosed_of_not_opening hopen]
      · rw [shown_of_opening hopen, unpaired_of_opening hopen, allClosed_of_opening hopen]
        rcases hclose : Text.splitAround d.chars rest with _ | ⟨inner, after⟩
        · obtain ⟨hinner, hafter⟩ := scan_of_unclosed hclose
          refine iff_of_false (fun heq => ?_) fun ⟨_, _, hsplit, _⟩ => nomatch hsplit
          -- what is shown begins with the inner text, where the delimiter does not occur
          rw [hafter, shown_nil, List.append_nil] at heq
          have hpre : d.chars <+: (d.scan rest).1 := ⟨_, heq.symm⟩
          exact Text.splitAround_eq_none.mp hclose (hpre.trans hinner).isInfix
        · have hlt : after.length < (c :: text).length :=
            (Text.length_of_splitAround hclose).trans_lt (length_of_opening hopen)
          rw [scan_of_closed hclose]
          dsimp only
          rw [List.append_cancel_left_eq, ih _ hlt _ rfl]
          refine ⟨fun h => ⟨inner, after, rfl, h⟩, ?_⟩
          rintro ⟨_, _, hsplit, h⟩
          cases hsplit
          exact h

/-- A message is shown without the delimiters of its pairs, and with all else, exactly if every
delimiter is closed. -/
theorem contents_parseMarkdown_iff (text : String) :
    contents (parseMarkdown text) = unpaired text.toList ↔ AllClosed text.toList :=
  shown_eq_unpaired_iff text.toList

/-- A bold text that is not closed yet loses its delimiter and its last character. -/
theorem contents_parseMarkdown_unclosed : contents (parseMarkdown "**abc") = ['a', 'b'] ∧
    unpaired "**abc".toList = ['*', '*', 'a', 'b', 'c'] ∧
    contents (parseMarkdown "**abc") ≠ unpaired "**abc".toList := by
  have hshown : contents (parseMarkdown "**abc") = ['a', 'b'] := by
    show shown ['*', '*', 'a', 'b', 'c'] = _
    rw [shown_of_opening (d := .bold) rfl]
    exact congrArg (['a', 'b'] ++ ·) shown_nil
  have hunpaired : unpaired "**abc".toList = ['*', '*', 'a', 'b', 'c'] := by
    show unpaired ['*', '*', 'a', 'b', 'c'] = _
    rw [unpaired_of_opening (d := .bold) rfl]
    show ['*', '*'] ++ unpaired ['a', 'b', 'c'] = _
    rw [unpaired_of_not_opening rfl, unpaired_of_not_opening rfl, unpaired_of_not_opening rfl,
      unpaired]
    rfl
  exact ⟨hshown, hunpaired, by rw [hshown, hunpaired]; decide⟩

end Markdown

end Pan
