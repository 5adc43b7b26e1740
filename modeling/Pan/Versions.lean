import Pan.SnapshotFiles
import Pan.Transcript
import Mathlib.Data.List.Basic

namespace Pan

/-! ## Semantic versions -/

def isIdentifierChar (c : Char) : Bool := c.isAlphanum || c == '-'

/-- An identifier of a pre-release: a number, or a text that is none. -/
inductive PreRelease where
  | numeric (n : ℕ)
  | alphanumeric (chars : List Char) (allowed : chars.all isIdentifierChar = true)
      (nondigit : chars.any (fun c => !c.isDigit) = true)

structure BuildIdentifier where
  chars : List Char
  allowed : chars.all isIdentifierChar = true
  nonempty : chars ≠ []

structure Version where
  major : ℕ
  minor : ℕ
  patch : ℕ
  pre : List PreRelease
  build : List BuildIdentifier

def digits (n : ℕ) : List Char := (toString n).toList

def PreRelease.text : PreRelease → List Char
  | numeric n => digits n
  | alphanumeric chars _ _ => chars

/-- Numbers come before texts. -/
def PreRelease.precedence : PreRelease → PreRelease → Ordering
  | numeric m, numeric n => compare m n
  | numeric _, alphanumeric _ _ _ => .lt
  | alphanumeric _ _ _, numeric _ => .gt
  | alphanumeric s _ _, alphanumeric t _ _ => compare (s.map Char.toNat) (t.map Char.toNat)

/-- A pre-release comes before its release. -/
def preReleasePrecedence : List PreRelease → List PreRelease → Ordering
  | [], [] => .eq
  | [], _ :: _ => .gt
  | _ :: _, [] => .lt
  | x :: xs, y :: ys => List.compareLex PreRelease.precedence (x :: xs) (y :: ys)

theorem PreRelease.precedence_swap (x y : PreRelease) :
    (x.precedence y).swap = y.precedence x := by
  cases x <;> cases y
  · exact Std.OrientedOrd.eq_swap.symm
  · rfl
  · rfl
  · exact Std.OrientedOrd.eq_swap.symm

theorem preReleasePrecedence_swap (xs ys : List PreRelease) :
    (preReleasePrecedence xs ys).swap = preReleasePrecedence ys xs := by
  have : Std.OrientedCmp PreRelease.precedence := ⟨(PreRelease.precedence_swap _ _).symm⟩
  cases xs <;> cases ys
  · rfl
  · rfl
  · rfl
  · have hlists : Std.OrientedCmp (List.compareLex PreRelease.precedence) := inferInstance
    exact hlists.eq_swap.symm

namespace Version

def suffix (v : Version) : List Char :=
  (if v.pre = [] then [] else '-' :: List.intercalate ['.'] (v.pre.map PreRelease.text)) ++
    if v.build = [] then [] else '+' :: List.intercalate ['.'] (v.build.map BuildIdentifier.chars)

def text (v : Version) : String :=
  String.ofList (digits v.major ++ '.' :: (digits v.minor ++ '.' :: (digits v.patch ++ v.suffix)))

def core (v : Version) : List ℕ := [v.major, v.minor, v.patch]

/-- The precedence of versions. Build metadata does not count. -/
def precedence (v w : Version) : Ordering :=
  (compare v.core w.core).then (preReleasePrecedence v.pre w.pre)

end Version

/-! ## The comparison -/

/-- The numbers between the dots; what cannot be parsed is left out. -/
def parseVersion (v : String) : List ℕ := (v.toList.splitOn '.').filterMap parseU64

/-- The loop from the index `i`, with so many rounds to go. -/
def compareFrom (va vb : List ℕ) : ℕ → ℕ → ℤ
  | _, 0 => 0
  | i, n + 1 =>
    let na := va[i]?.getD 0
    let nb := vb[i]?.getD 0
    if na ≠ nb then if nb < na then 1 else -1
    else compareFrom va vb (i + 1) n

/-- Positive if `a` is the newer version, negative if `b` is. -/
def compareVersions (a b : String) : ℤ :=
  let va := parseVersion a
  let vb := parseVersion b
  compareFrom va vb 0 (max va.length vb.length)

/-- The tag that the check announces, from the answer for the latest release. -/
def versionCheck (current : String) (val : Value) : Option String :=
  (val.str "tag_name").bind fun tag =>
    let latest := String.ofList (tag.toList.dropWhile (· == 'v'))
    if 0 < compareVersions latest current then some tag else none

/-! ## Lists of numbers, padded with zeros -/

def compareNumbers (va vb : List ℕ) : ℤ := compareFrom va vb 0 (max va.length vb.length)

theorem compareFrom_tail (va vb : List ℕ) (i n : ℕ) :
    compareFrom va vb (i + 1) n = compareFrom va.tail vb.tail i n := by
  induction n generalizing i with
  | zero => rfl
  | succ n ih => simp only [compareFrom, ih, List.getElem?_tail]

@[simp] theorem compareNumbers_nil : compareNumbers [] [] = 0 := rfl

/-- Missing numbers are zeros. -/
theorem compareNumbers_eq (va vb : List ℕ) : compareNumbers va vb =
    if va.headD 0 = vb.headD 0 then compareNumbers va.tail vb.tail
    else if vb.headD 0 < va.headD 0 then 1 else -1 := by
  have hlength : max va.tail.length vb.tail.length = max va.length vb.length - 1 := by
    rw [List.length_tail, List.length_tail]
    omega
  have hhead : ∀ l : List ℕ, l[0]?.getD 0 = l.headD 0 := fun l => by cases l <;> rfl
  unfold compareNumbers
  rw [hlength]
  -- the round at the heads, and then the loop over the tails
  rcases hn : max va.length vb.length with _ | n
  · have hva : va = [] := List.length_eq_zero_iff.mp (by omega)
    have hvb : vb = [] := List.length_eq_zero_iff.mp (by omega)
    subst hva hvb
    rfl
  · rw [compareFrom, compareFrom_tail, hhead, hhead]
    by_cases h : va.headD 0 = vb.headD 0
    · rw [if_neg (not_not.mpr h), if_pos h]
      rfl
    · rw [if_pos h, if_neg h]

theorem compareNumbers_append (l va vb : List ℕ) :
    compareNumbers (l ++ va) (l ++ vb) = compareNumbers va vb := by
  induction l with
  | nil => rfl
  | cons n l ih => rw [compareNumbers_eq]; exact (if_pos rfl).trans ih

theorem compareNumbers_self (va : List ℕ) : compareNumbers va va = 0 := by
  simpa using compareNumbers_append va [] []

/-- What passes from the tails of two lists to the lists holds of all lists. -/
theorem tails_induction {P : List ℕ → List ℕ → Prop} (hnil : P [] [])
    (htails : ∀ va vb, P va.tail vb.tail → P va vb) (va vb : List ℕ) : P va vb := by
  induction va generalizing vb with
  | nil =>
    induction vb with
    | nil => exact hnil
    | cons n vb ih => exact htails [] (n :: vb) ih
  | cons n va ih => exact htails (n :: va) vb (ih vb.tail)

theorem compareNumbers_swap (va vb : List ℕ) : compareNumbers vb va = -compareNumbers va vb := by
  induction va, vb using tails_induction with
  | hnil => rfl
  | htails va vb ih =>
    rw [compareNumbers_eq, compareNumbers_eq va vb]
    rcases Nat.lt_trichotomy (va.headD 0) (vb.headD 0) with h | h | h
    · rw [if_neg h.ne', if_neg h.ne, if_pos h, if_neg h.not_gt]
      rfl
    · rw [if_pos h.symm, if_pos h, ih]
    · rw [if_neg h.ne, if_neg h.ne', if_neg h.not_gt, if_pos h]

/-- The first difference decides. -/
theorem compare_compareNumbers (l : List ℕ) {x y : ℕ} (h : x ≠ y) (va vb : List ℕ) :
    compare (compareNumbers (l ++ x :: va) (l ++ y :: vb)) 0 = compare x y := by
  rw [compareNumbers_append, compareNumbers_eq]
  show compare (if x = y then _ else if y < x then 1 else -1 : ℤ) 0 = _
  rw [if_neg h]
  rcases Nat.lt_or_gt_of_ne h with hlt | hlt
  · rw [if_neg hlt.not_gt, Nat.compare_eq_lt.mpr hlt]
    rfl
  · rw [if_pos hlt, Nat.compare_eq_gt.mpr hlt]
    rfl

/-- Zeros are never above what they are compared with. -/
theorem compareNumbers_nonpos {va : List ℕ} (h : ∀ n ∈ va, n = 0) (vb : List ℕ) :
    compareNumbers va vb ≤ 0 := by
  induction va, vb using tails_induction with
  | hnil => exact le_rfl
  | htails va vb ih =>
    have hhead : va.headD 0 = 0 := by
      cases va with
      | nil => rfl
      | cons n va => exact h n List.mem_cons_self
    rw [compareNumbers_eq, hhead]
    split_ifs with hsame hlt
    · exact ih fun n hn => h n (List.mem_of_mem_tail hn)
    · cases hlt
    · decide

/-! ## What is read of a version -/

theorem dot_notMem_digits (n : ℕ) : '.' ∉ digits n :=
  fun h => absurd (isDigit_of_mem_toString h) (by decide)

def fitsU64 (n : ℕ) : Bool := decide (n < 2 ^ 64)

theorem digits_ne_nil (n : ℕ) : digits n ≠ [] := by
  rw [digits, Nat.toString_eq_ofList_toDigits, String.toList_ofList]
  exact Nat.toDigits_ne_nil

theorem parseU64_eq_none {s : List Char} {c : Char} (hc : c ∈ s) (hdigit : c.isDigit = false)
    (hplus : c ≠ '+') : parseU64 s = none := by
  have hmem : ∀ l : List Char, c ∈ l → l.all Char.isDigit = false := by
    intro l hl
    rw [List.all_eq_false]
    exact ⟨c, hl, by simp [hdigit]⟩
  unfold parseU64
  split
  · rename_i rest
    simp [hmem rest ((List.mem_cons.mp hc).resolve_left hplus)]
  · simp [hmem s hc]

/-- Numbers are read as they are, unless they are too large. -/
theorem filterMap_digits (ns : List ℕ) :
    (ns.map digits).filterMap parseU64 = ns.filter fitsU64 := by
  induction ns with
  | nil => rfl
  | cons n ns ih =>
    have hnumber : parseU64 (digits n) = if n < 2 ^ 64 then some n else none :=
      parseU64_toString n
    rw [List.map_cons, List.filterMap_cons, hnumber, ih]
    by_cases hn : n < 2 ^ 64
    · rw [if_pos hn, List.filter_cons_of_pos (p := fitsU64) (decide_eq_true hn)]
    · rw [if_neg hn, List.filter_cons_of_neg (p := fitsU64) (by simpa [fitsU64] using hn)]

namespace Version

variable {v w : Version}

def patchParts (v : Version) : List (List Char) := (digits v.patch ++ v.suffix).splitOn '.'

theorem splitOn_text (v : Version) :
    v.text.toList.splitOn '.' = [v.major, v.minor].map digits ++ v.patchParts := by
  rw [text, String.toList_ofList, List.splitOn_append_cons_self, List.splitOn_append_cons_self,
    List.splitOn_eq_singleton (dot_notMem_digits _),
    List.splitOn_eq_singleton (dot_notMem_digits _)]
  rfl

theorem parseVersion_text (v : Version) : parseVersion v.text =
    [v.major, v.minor].filter fitsU64 ++ v.patchParts.filterMap parseU64 := by
  rw [parseVersion, splitOn_text, List.filterMap_append, filterMap_digits]

def Plain (v : Version) : Prop := v.pre = [] ∧ v.build = []

instance : Decidable v.Plain := inferInstanceAs (Decidable (_ ∧ _))

theorem parseVersion_of_plain (h : v.Plain) :
    parseVersion v.text = v.core.filter fitsU64 := by
  have hparts : v.patchParts = [v.patch].map digits := by
    rw [patchParts, suffix, h.1, h.2, if_pos rfl, if_pos rfl, List.append_nil, List.append_nil]
    exact List.splitOn_eq_singleton (dot_notMem_digits _)
  rw [parseVersion_text, hparts, filterMap_digits, ← List.filter_append]
  rfl

/-- The numbers that stand alone between dots, up to the first that is too large: what is read in
its place. -/
def readPart (v : Version) : List ℕ :=
  (if v.Plain then v.core else [v.major, v.minor]).takeWhile fitsU64

theorem readPart_prefix_core (v : Version) : v.readPart <+: v.core := by
  unfold readPart
  split
  · exact List.takeWhile_prefix _
  · exact (List.takeWhile_prefix _).trans ⟨[v.patch], rfl⟩

theorem filter_of_takeWhile (p : ℕ → Bool) (l : List ℕ) :
    ∃ rest, l.filter p = l.takeWhile p ++ rest := by
  have hall : (l.takeWhile p).filter p = l.takeWhile p :=
    List.filter_eq_self.mpr fun n hn => List.mem_takeWhile_imp hn
  refine ⟨(l.dropWhile p).filter p, ?_⟩
  conv_lhs => rw [← List.takeWhile_append_dropWhile (p := p) (l := l)]
  rw [List.filter_append, hall]

/-- What is read in its place comes first. -/
theorem readPart_prefix_parse (v : Version) : v.readPart <+: parseVersion v.text := by
  unfold readPart
  split
  case isTrue h =>
    obtain ⟨rest, hrest⟩ := filter_of_takeWhile fitsU64 v.core
    exact ⟨rest, by rw [parseVersion_of_plain h, hrest]⟩
  case isFalse =>
    obtain ⟨rest, hrest⟩ := filter_of_takeWhile fitsU64 [v.major, v.minor]
    refine ⟨rest ++ v.patchParts.filterMap parseU64, ?_⟩
    rw [parseVersion_text, hrest, List.append_assoc]

/-- A version is read completely if it is plain and no number is too large. -/
theorem complete_iff : v.readPart.length = 3 ↔ v.Plain ∧ ∀ n ∈ v.core, n < 2 ^ 64 := by
  unfold readPart
  split
  case isTrue h =>
    rw [and_iff_right h]
    constructor
    · intro hlength n hn
      have hsame := (List.takeWhile_prefix (p := fitsU64) (l := v.core)).eq_of_length hlength
      rw [← hsame] at hn
      exact of_decide_eq_true (List.mem_takeWhile_imp (p := fitsU64) hn)
    · intro hall
      have hfits : ∀ n ∈ v.core, fitsU64 n = true := fun n hn => decide_eq_true (hall n hn)
      rw [List.takeWhile_eq_self_iff.mpr hfits]
      rfl
  case isFalse h =>
    refine iff_of_false (fun hlength => ?_) fun hplain => h hplain.1
    have hle := (List.takeWhile_prefix (p := fitsU64) (l := [v.major, v.minor])).length_le
    rw [hlength] at hle
    simp at hle

theorem length_readPart_le (v : Version) : v.readPart.length ≤ 3 := v.readPart_prefix_core.length_le

theorem parse_of_complete (h : v.readPart.length = 3) :
    v.readPart = v.core ∧ parseVersion v.text = v.core := by
  obtain ⟨hplain, hall⟩ := complete_iff.mp h
  refine ⟨v.readPart_prefix_core.eq_of_length h, ?_⟩
  rw [parseVersion_of_plain hplain]
  exact List.filter_eq_self.mpr fun n hn => decide_eq_true (hall n hn)

/-! ## Comparisons that come out right -/

/-- The sign of the comparison is the precedence, and the check announces what is newer. -/
structure ComparedRight (v w : Version) : Prop where
  sign : compare (compareVersions v.text w.text) 0 = v.precedence w
  check : ∀ (k : ℕ) (val : Value), val.str "tag_name" =
      some (String.ofList (List.replicate k 'v') ++ v.text) →
    ((versionCheck w.text val).isSome = true ↔ v.precedence w = .gt)

/-- The numbers that are read in their places differ, or both versions are read completely. -/
def Readable (v w : Version) : Prop :=
  (¬v.readPart <+: w.readPart ∧ ¬w.readPart <+: v.readPart) ∨
    v.readPart.length = 3 ∧ w.readPart.length = 3

theorem compareVersions_eq (a b : String) :
    compareVersions a b = compareNumbers (parseVersion a) (parseVersion b) := rfl

/-- Lists that are not the front of one another have a first difference. -/
theorem exists_first_difference {l m : List ℕ} (h : ¬l <+: m) (h' : ¬m <+: l) :
    ∃ front x y l' m', x ≠ y ∧ l = front ++ x :: l' ∧ m = front ++ y :: m' := by
  induction l generalizing m with
  | nil => exact absurd List.nil_prefix h
  | cons a l ih =>
    rcases m with _ | ⟨b, m⟩
    · exact absurd List.nil_prefix h'
    · by_cases hab : a = b
      · subst hab
        rw [List.cons_prefix_cons, and_iff_right rfl] at h h'
        obtain ⟨front, x, y, l', m', hne, rfl, rfl⟩ := ih h h'
        exact ⟨a :: front, x, y, l', m', hne, rfl, rfl⟩
      · exact ⟨[], a, b, l, m, hab, rfl, rfl⟩

theorem compare_append_of_ne (front : List ℕ) {x y : ℕ} (h : x ≠ y) (l m : List ℕ) :
    compare (front ++ x :: l) (front ++ y :: m) = compare x y := by
  induction front with
  | nil =>
    rw [List.nil_append, List.nil_append, List.compare_cons_cons]
    rcases Nat.lt_or_gt_of_ne h with hlt | hlt
    · rw [Nat.compare_eq_lt.mpr hlt]
      rfl
    · rw [Nat.compare_eq_gt.mpr hlt]
      rfl
  | cons n front ih =>
    rw [List.cons_append, List.cons_append, List.compare_cons_cons, Nat.compare_eq_eq.mpr rfl, ih]
    rfl

/-- A first difference decides in the numbers that are read as in the precedence. -/
theorem sign_of_first_difference {front l m l' m' : List ℕ} {x y : ℕ} (h : x ≠ y) (o : Ordering) :
    compare (compareNumbers (front ++ x :: l) (front ++ y :: m)) 0 =
      (compare (front ++ x :: l') (front ++ y :: m')).then o := by
  rw [compare_compareNumbers front h, compare_append_of_ne front h]
  rcases Nat.lt_or_gt_of_ne h with hlt | hlt
  · rw [Nat.compare_eq_lt.mpr hlt]
    rfl
  · rw [Nat.compare_eq_gt.mpr hlt]
    rfl

theorem sign_of_readable (h : v.Readable w) :
    compare (compareVersions v.text w.text) 0 = v.precedence w := by
  rw [compareVersions_eq, precedence]
  rcases h with ⟨h, h'⟩ | ⟨h, h'⟩
  · obtain ⟨front, x, y, l, m, hne, hv, hw⟩ := exists_first_difference h h'
    obtain ⟨rest, hrest⟩ := v.readPart_prefix_parse
    obtain ⟨rest', hrest'⟩ := w.readPart_prefix_parse
    obtain ⟨core, hcore⟩ := v.readPart_prefix_core
    obtain ⟨core', hcore'⟩ := w.readPart_prefix_core
    rw [← hrest, ← hrest', ← hcore, ← hcore', hv, hw]
    simp only [List.append_assoc, List.cons_append]
    exact sign_of_first_difference hne _
  · obtain ⟨⟨hpre, -⟩, -⟩ := complete_iff.mp h
    obtain ⟨⟨hpre', -⟩, -⟩ := complete_iff.mp h'
    rw [(parse_of_complete h).2, (parse_of_complete h').2, hpre, hpre']
    by_cases hsame : v.core = w.core
    · rw [hsame, compareNumbers_self]
      exact congrArg (Ordering.then · .eq) Std.ReflCmp.compare_self.symm
    · obtain ⟨front, x, y, l, m, hne, hv, hw⟩ := exists_first_difference
        (fun hpre => hsame (hpre.eq_of_length rfl)) fun hpre => hsame (hpre.eq_of_length rfl).symm
      rw [hv, hw]
      exact sign_of_first_difference hne _

/-- The check looks at the sign only. -/
theorem comparedRight_iff :
    v.ComparedRight w ↔ compare (compareVersions v.text w.text) 0 = v.precedence w := by
  refine ⟨ComparedRight.sign, fun h => ⟨h, fun k val htag => ?_⟩⟩
  have hlatest : (String.ofList (List.replicate k 'v') ++ v.text).toList.dropWhile (· == 'v') =
      v.text.toList := by
    rw [String.toList_append, String.toList_ofList, List.dropWhile_append_of_pos (by simp)]
    refine Text.dropWhile_of_head fun c hc => ?_
    rw [text, String.toList_ofList, List.head?_append_of_ne_nil _ (digits_ne_nil _)] at hc
    have hdigit : c.isDigit = true := isDigit_of_mem_toString (List.mem_of_mem_head? hc)
    refine beq_eq_false_iff_ne.mpr fun heq => ?_
    subst heq
    cases hdigit
  unfold versionCheck
  rw [htag, Option.bind_some, hlatest, String.ofList_toList, ← h, Int.compare_eq_gt]
  dsimp only
  split_ifs with hnewer
  · exact iff_of_true rfl hnewer
  · exact iff_of_false Bool.false_ne_true hnewer

theorem precedence_swap (v w : Version) : (v.precedence w).swap = w.precedence v := by
  rw [precedence, precedence, Ordering.swap_then, preReleasePrecedence_swap]
  exact congrArg (Ordering.then · _) Std.OrientedCmp.eq_swap.symm

theorem ComparedRight.swap (h : v.ComparedRight w) : w.ComparedRight v := by
  rw [comparedRight_iff] at h ⊢
  rw [← precedence_swap, ← h, compareVersions_eq, compareVersions_eq, compareNumbers_swap]
  generalize compareNumbers (parseVersion v.text) (parseVersion w.text) = n
  rcases lt_trichotomy n 0 with hn | rfl | hn
  · rw [Int.compare_eq_lt.mpr hn, Int.compare_eq_gt.mpr (by omega)]
    rfl
  · rfl
  · rw [Int.compare_eq_gt.mpr hn, Int.compare_eq_lt.mpr (by omega)]
    rfl

/-! ## Comparisons that come out wrong -/

theorem lt_of_mem_readPart {n : ℕ} (h : n ∈ v.readPart) : n < 2 ^ 64 :=
  of_decide_eq_true (List.mem_takeWhile_imp (p := fitsU64) h)

/-- Numbers that are said to be at most zero above are not newer. -/
theorem not_comparedRight_of_gt
    (hle : compareNumbers (parseVersion v.text) (parseVersion w.text) ≤ 0)
    (hgt : v.precedence w = .gt) : ¬v.ComparedRight w := by
  intro h
  have hsign := h.sign
  rw [hgt, compareVersions_eq, Int.compare_eq_gt] at hsign
  omega

/-- Versions that are read alike are not told apart. -/
theorem not_comparedRight_of_lt (heq : parseVersion v.text = parseVersion w.text)
    (hlt : v.precedence w = .lt) : ¬v.ComparedRight w := by
  intro h
  have hsign := h.sign
  rw [hlt, compareVersions_eq, heq, compareNumbers_self] at hsign
  cases hsign

/-- A release with these numbers and then one that may be too large. -/
def overflowing : List ℕ → ℕ → Version
  | [], n => ⟨n, 0, 0, [], []⟩
  | major :: _, n => ⟨major, n, 0, [], []⟩

/-- A number that is too large is left out, and the zeros behind it are read in its place. -/
theorem overflowing_spec {l : List ℕ} (hl : ∀ n ∈ l, n < 2 ^ 64) (hlength : l.length < 2) {n : ℕ}
    (hn : 2 ^ 64 ≤ n) :
    (overflowing l n).core = l ++ n :: List.replicate (2 - l.length) 0 ∧
      (overflowing l n).readPart = l ∧
      parseVersion (overflowing l n).text = l ++ List.replicate (2 - l.length) 0 := by
  have hcore : (overflowing l n).core = l ++ n :: List.replicate (2 - l.length) 0 := by
    rcases l with _ | ⟨major, _ | ⟨minor, l⟩⟩
    · rfl
    · rfl
    · exact absurd hlength (by simp)
  have hplain : (overflowing l n).Plain := by cases l <;> exact ⟨rfl, rfl⟩
  have hsmall : ∀ m ∈ l, fitsU64 m = true := fun m hm => decide_eq_true (hl m hm)
  have hlarge : ¬fitsU64 n = true := by simpa [fitsU64] using hn
  have hzero : ∀ m ∈ List.replicate (2 - l.length) 0, fitsU64 m = true := fun m hm => by
    rw [List.eq_of_mem_replicate hm]
    rfl
  refine ⟨hcore, ?_, ?_⟩
  · rw [readPart, if_pos hplain, hcore, List.takeWhile_append_of_pos hsmall,
      List.takeWhile_cons_of_neg hlarge, List.append_nil]
  · rw [parseVersion_of_plain hplain, hcore, List.filter_append, List.filter_eq_self.mpr hsmall,
      List.filter_cons_of_neg hlarge, List.filter_eq_self.mpr hzero]

/-- If a number that stands before the patch number is too large, the version can be taken for one
that is not newer. -/
theorem exists_misread_of_overflow (h : v.readPart <+: w.readPart) (hpart : v.readPart.length < 2) :
    ∃ v' w' : Version, v'.readPart = v.readPart ∧ w'.readPart = w.readPart ∧
      ¬v'.ComparedRight w' := by
  obtain ⟨r, hr⟩ := h
  obtain ⟨n, hn⟩ : ∃ n : ℕ, 2 ^ 64 ≤ n := ⟨_, le_rfl⟩
  have hsmall : ∀ m ∈ v.readPart, m < 2 ^ 64 := fun m hm => lt_of_mem_readPart hm
  obtain ⟨hcore, hread, hparse⟩ := overflowing_spec hsmall hpart hn
  -- two numbers that are too large, or one against the number that is read in its place
  rcases r with _ | ⟨x, r⟩
  · obtain ⟨hcore', hread', hparse'⟩ := overflowing_spec hsmall hpart (hn.trans (Nat.le_succ n))
    rw [List.append_nil] at hr
    refine ⟨overflowing v.readPart n, overflowing v.readPart (n + 1), hread, hread'.trans hr,
      not_comparedRight_of_lt (hparse.trans hparse'.symm) ?_⟩
    rw [precedence, hcore, hcore', compare_append_of_ne _ (Nat.ne_of_lt (Nat.lt_succ_self n)),
      Nat.compare_eq_lt.mpr (Nat.lt_succ_self n)]
    rfl
  · refine ⟨overflowing v.readPart n, w, hread, rfl, not_comparedRight_of_gt ?_ ?_⟩
    · obtain ⟨rest, hrest⟩ := w.readPart_prefix_parse
      rw [hparse, ← hrest, ← hr, List.append_assoc, compareNumbers_append]
      exact compareNumbers_nonpos (fun n hn => List.eq_of_mem_replicate hn) _
    · obtain ⟨rest, hrest⟩ := w.readPart_prefix_core
      have hx : x < n := (lt_of_mem_readPart (v := w) (by rw [← hr]; simp)).trans_le hn
      rw [precedence, hcore, ← hrest, ← hr, List.append_assoc, List.cons_append,
        compare_append_of_ne _ hx.ne', Nat.compare_eq_gt.mpr hx]
      rfl

section Suffix

variable (hmajor : v.major < 2 ^ 64) (hminor : v.minor < 2 ^ 64)

include hmajor hminor

theorem fitsU64_major_minor : ∀ n ∈ [v.major, v.minor], fitsU64 n = true := by
  rw [List.forall_mem_cons, List.forall_mem_singleton]
  exact ⟨decide_eq_true hmajor, decide_eq_true hminor⟩

theorem readPart_of_not_plain (h : ¬v.Plain) : v.readPart = [v.major, v.minor] := by
  rw [readPart, if_neg h, List.takeWhile_eq_self_iff.mpr (fitsU64_major_minor hmajor hminor)]

theorem parseVersion_of_lt : parseVersion v.text =
    v.major :: v.minor :: v.patchParts.filterMap parseU64 := by
  rw [parseVersion_text, List.filter_eq_self.mpr (fitsU64_major_minor hmajor hminor)]
  rfl

end Suffix

/-- The pre-release identifier `x`. -/
def preX : PreRelease := .alphanumeric ['x'] rfl rfl

def buildX : BuildIdentifier := ⟨['x'], rfl, List.cons_ne_nil _ _⟩

/-- A part that ends with `-x` or `+x` is not read. -/
theorem parseU64_x (n : ℕ) (c : Char) : parseU64 (digits n ++ [c, 'x']) = none :=
  parseU64_eq_none (c := 'x') (by simp) rfl (by decide)

theorem patchParts_x (n : ℕ) {c : Char} (hc : c ≠ '.') :
    (digits n ++ [c, 'x']).splitOn '.' = [digits n ++ [c, 'x']] := by
  refine List.splitOn_eq_singleton fun hmem => ?_
  rw [List.mem_append] at hmem
  refine hmem.elim (dot_notMem_digits n) fun hmem => ?_
  simp [hc.symm] at hmem

/-- If only the patch number is not read in its place, a pre-release can be taken for a release. -/
theorem exists_misread_of_suffix (h : v.readPart <+: w.readPart) (hpart : v.readPart.length = 2) :
    ∃ v' w' : Version, v'.readPart = v.readPart ∧ w'.readPart = w.readPart ∧
      ¬v'.ComparedRight w' := by
  have hread : v.readPart = [v.major, v.minor] := by
    have hpre : [v.major, v.minor] <+: v.core := ⟨[v.patch], rfl⟩
    exact (List.prefix_of_prefix_length_le v.readPart_prefix_core hpre hpart.le).eq_of_length hpart
  have hmajor : v.major < 2 ^ 64 := lt_of_mem_readPart (v := v) (by rw [hread]; simp)
  have hminor : v.minor < 2 ^ 64 := lt_of_mem_readPart (v := v) (by rw [hread]; simp)
  obtain ⟨r, hr⟩ := h
  -- a pre-release against a build, or against the release whose patch number is behind its dot
  rcases r with _ | ⟨patch, r⟩
  · let v' : Version := ⟨v.major, v.minor, 0, [preX], []⟩
    let w' : Version := ⟨v.major, v.minor, 0, [], [buildX]⟩
    have hv : v'.patchParts = [digits 0 ++ ['-', 'x']] := patchParts_x 0 (by decide)
    have hw : w'.patchParts = [digits 0 ++ ['+', 'x']] := patchParts_x 0 (by decide)
    rw [List.append_nil] at hr
    refine ⟨v', w', ?_, ?_, not_comparedRight_of_lt ?_ ?_⟩
    · exact (readPart_of_not_plain (v := v') hmajor hminor fun h => nomatch h.1).trans hread.symm
    · exact (readPart_of_not_plain (v := w') hmajor hminor fun h => nomatch h.2).trans
        (hread.symm.trans hr)
    · rw [parseVersion_of_lt (v := v') hmajor hminor, parseVersion_of_lt (v := w') hmajor hminor,
        hv, hw, List.filterMap_cons, List.filterMap_cons, parseU64_x, parseU64_x]
    · have hsame : compare v'.core v'.core = .eq := Std.ReflCmp.compare_self
      show (compare v'.core v'.core).then .lt = .lt
      rw [hsame]
      rfl
  · let v' : Version := ⟨v.major, v.minor, patch, [preX, .numeric patch], []⟩
    have hlength := w.length_readPart_le
    rw [← hr, List.length_append, hpart, List.length_cons] at hlength
    obtain rfl : r = [] := List.length_eq_zero_iff.mp (by omega)
    have hcomplete : w.readPart.length = 3 := by
      rw [← hr, List.length_append, hpart]
      rfl
    obtain ⟨hcore, hparse⟩ := parse_of_complete hcomplete
    have hpatch : patch < 2 ^ 64 := lt_of_mem_readPart (v := w) (by rw [← hr]; simp)
    have hpre : w.pre = [] := (complete_iff.mp hcomplete).1.1
    have hcore' : w.core = v'.core := by rw [← hcore, ← hr, hread]; rfl
    have hv : v'.patchParts = [digits patch ++ ['-', 'x'], digits patch] := by
      have hsplit : digits patch ++ v'.suffix =
          digits patch ++ ['-', 'x'] ++ '.' :: digits patch := by
        simp [v', suffix, preX, PreRelease.text, List.intercalate]
      rw [patchParts, hsplit, List.splitOn_append_cons_self, patchParts_x _ (by decide),
        List.splitOn_eq_singleton (dot_notMem_digits _)]
      rfl
    have hnumber : parseU64 (digits patch) = some patch := by
      rw [digits, parseU64_toString, if_pos hpatch]
    refine ⟨v', w, ?_, rfl, not_comparedRight_of_lt ?_ ?_⟩
    · exact (readPart_of_not_plain (v := v') hmajor hminor fun h => nomatch h.1).trans hread.symm
    · rw [parseVersion_of_lt (v := v') hmajor hminor, hparse, hcore', hv, List.filterMap_cons,
        parseU64_x, List.filterMap_cons, hnumber]
      rfl
    · have hsame : compare v'.core v'.core = .eq := Std.ReflCmp.compare_self
      rw [precedence, hcore', hpre, hsame]
      rfl

/-- Versions of the same numbers, read in part, of which one is not compared right. -/
theorem exists_misread (h : v.readPart <+: w.readPart) (hpart : v.readPart.length < 3) :
    ∃ v' w' : Version, v'.readPart = v.readPart ∧ w'.readPart = w.readPart ∧
      ¬v'.ComparedRight w' := by
  by_cases hlength : v.readPart.length = 2
  · exact exists_misread_of_suffix h hlength
  · exact exists_misread_of_overflow h (by omega)

/-- Versions are compared right if what is read of them in its place differs or is all that there
is. Otherwise what is read does not tell: there are versions of which the same is read that are not
compared right. -/
theorem comparedRight_iff_readable (v w : Version) :
    (v.Readable w → v.ComparedRight w) ∧
      ((∀ v' w' : Version, v'.readPart = v.readPart → w'.readPart = w.readPart →
        v'.ComparedRight w') ↔ v.Readable w) := by
  refine ⟨fun h => comparedRight_iff.mpr (sign_of_readable h), ?_, ?_⟩
  · intro hright
    -- what is read of one is then the beginning of what is read of the other
    by_contra hno
    unfold Readable at hno
    have hle := v.length_readPart_le
    have hle' := w.length_readPart_le
    by_cases hvw : v.readPart <+: w.readPart
    · have hpart : v.readPart.length < 3 := by
        have := hvw.length_le
        omega
      obtain ⟨v', w', hv, hw, hwrong⟩ := exists_misread hvw hpart
      exact hwrong (hright v' w' hv hw)
    · have hwv : w.readPart <+: v.readPart := by
        by_contra hwv
        exact hno (Or.inl ⟨hvw, hwv⟩)
      have hpart : w.readPart.length < 3 := by
        have := hwv.length_le
        omega
      obtain ⟨w', v', hw, hv, hwrong⟩ := exists_misread hwv hpart
      exact hwrong (hright v' w' hv hw).swap
  · intro h v' w' hv hw
    rw [comparedRight_iff]
    refine sign_of_readable ?_
    unfold Readable
    rw [hv, hw]
    exact h

def firstRelease : Version := ⟨1, 0, 0, [], []⟩

def firstCandidate : Version := ⟨1, 0, 0, [.alphanumeric ['r', 'c'] rfl rfl, .numeric 1], []⟩

theorem text_firstRelease : firstRelease.text = "1.0.0" := by
  have hchars : digits 1 ++ '.' :: (digits 0 ++ '.' :: (digits 0 ++ firstRelease.suffix)) =
      ['1', '.', '0', '.', '0'] := by decide
  exact congrArg String.ofList hchars

theorem text_firstCandidate : firstCandidate.text = "1.0.0-rc.1" := by
  have hchars : digits 1 ++ '.' :: (digits 0 ++ '.' :: (digits 0 ++ firstCandidate.suffix)) =
      ['1', '.', '0', '.', '0', '-', 'r', 'c', '.', '1'] := by decide
  exact congrArg String.ofList hchars

/-- A release candidate is announced to those who run its release. -/
theorem comparedRight_candidate : firstCandidate.precedence firstRelease = .lt ∧
    compareVersions firstCandidate.text firstRelease.text = 1 ∧
    versionCheck firstRelease.text (.object [("tag_name", .string "v1.0.0-rc.1")]) =
      some "v1.0.0-rc.1" ∧ ¬firstCandidate.ComparedRight firstRelease := by
  have hresult : compareVersions "1.0.0-rc.1" "1.0.0" = 1 := by decide
  have htag : (Value.object [("tag_name", .string "v1.0.0-rc.1")]).str "tag_name" =
      some "v1.0.0-rc.1" := rfl
  have hlatest : String.ofList ("v1.0.0-rc.1".toList.dropWhile (· == 'v')) = "1.0.0-rc.1" := rfl
  refine ⟨rfl, ?_, ?_, fun h => ?_⟩
  · rw [text_firstCandidate, text_firstRelease, hresult]
  · rw [text_firstRelease, versionCheck, htag, Option.bind_some, hlatest]
    dsimp only
    rw [hresult]
    rfl
  · have hsign := h.sign
    rw [text_firstCandidate, text_firstRelease, hresult] at hsign
    cases hsign

end Version

end Pan
