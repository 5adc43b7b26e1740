import Pan.FileCaps
import Pan.Library.Glob

namespace Pan

open Glob

/-- The tokens of a pattern. Of two stars and a separator behind them one token is made. -/
def globTokens : List Char → List (Token Char)
  | [] => []
  | '*' :: '*' :: '/' :: pat => .any :: globTokens pat
  | '*' :: '*' :: pat => .any :: globTokens pat
  | '*' :: pat => .star :: globTokens pat
  | '?' :: pat => .one :: globTokens pat
  | c :: pat => .lit c :: globTokens pat

def GlobMatches (pattern path : String) : Prop :=
  Matches '/' (globTokens pattern.toList) path.toList

def StarBeforeSlash (pattern : String) : Prop :=
  [.star, .lit '/'] <:+: globTokens pattern.toList

instance (pattern : String) : Decidable (StarBeforeSlash pattern) :=
  inferInstanceAs (Decidable (_ <:+: _))

/-- A path for which it makes no difference whether lone stars are doubled. -/
def StarsHold (pattern path : String) : Prop :=
  Matches '/' (widen (globTokens pattern.toList)) path.toList → GlobMatches pattern path

/-! ## The loops -/

theorem matches_any_iff {tokens : List (Token Char)} {path : List Char} :
    Matches '/' (.any :: tokens) path ↔ ∃ rest, rest <:+ path ∧ Matches '/' tokens rest := by
  constructor
  · rintro ⟨w, v, rfl, hv⟩
    exact ⟨v, List.suffix_append w v, hv⟩
  · rintro ⟨rest, ⟨w, rfl⟩, hrest⟩
    exact ⟨w, rest, rfl, hrest⟩

theorem globTokens_cons {c : Char} (hc : c ≠ '*') (pat : List Char) :
    globTokens (c :: pat) = (if c = '?' then .one else .lit c) :: globTokens pat := by
  split_ifs with hquestion
  · rw [hquestion, globTokens]
  · rw [globTokens] <;> simp_all

/-- Behind a lone star nothing begins with a separator but where the pattern says so. -/
theorem head_ne_slash {pat rest : List Char} (hpat : pat.head? ≠ some '*')
    (hslash : (globTokens pat).head? ≠ some (.lit '/'))
    (hrest : Matches '/' (widen (globTokens pat)) rest) : rest.head? ≠ some '/' := by
  cases pat with
  | nil =>
    rw [show rest = [] from hrest]
    simp
  | cons c pat =>
    have hc : c ≠ '*' := fun h => hpat (congrArg some h)
    rw [globTokens_cons hc] at hslash hrest
    split_ifs at hslash hrest with hquestion
    · obtain ⟨d, v, rfl, hd, -⟩ := hrest
      simpa using hd
    · rw [Matches.head hrest]
      simpa using hslash

theorem infix_cons {token : Token Char} {tokens : List (Token Char)} :
    [.star, .lit '/'] <:+: token :: tokens ↔
      token = .star ∧ tokens.head? = some (.lit '/') ∨ [.star, .lit '/'] <:+: tokens := by
  rw [List.infix_cons_iff, List.cons_prefix_cons, List.singleton_prefix_iff_head?_eq_some,
    eq_comm (a := token)]

/-- What the code makes of a pattern: a lone star is a double one, and nothing begins with a
separator behind it. -/
def ReadAs (pat path : List Char) : Prop :=
  ¬[.star, .lit '/'] <:+: globTokens pat ∧ Matches '/' (widen (globTokens pat)) path

theorem readAs_any {p pat path : List Char} (hp : globTokens p = .any :: globTokens pat) :
    ReadAs p path ↔ ∃ rest, rest <:+ path ∧ ReadAs pat rest := by
  unfold ReadAs
  rw [hp, infix_cons]
  change _ ∧ Matches '/' (.any :: widen (globTokens pat)) path ↔ _
  rw [matches_any_iff]
  constructor
  · rintro ⟨hstar, rest, hrest, hmatch⟩
    exact ⟨rest, hrest, fun h => hstar (Or.inr h), hmatch⟩
  · rintro ⟨rest, hrest, hstar, hmatch⟩
    exact ⟨by simpa using hstar, rest, hrest, hmatch⟩

theorem readAs_star {pat path : List Char} (hpat : pat.head? ≠ some '*')
    (htokens : globTokens ('*' :: pat) = .star :: globTokens pat) :
    ReadAs ('*' :: pat) path ↔ ∃ rest, rest <:+ path ∧ rest.head? ≠ some '/' ∧ ReadAs pat rest := by
  unfold ReadAs
  rw [htokens, infix_cons]
  change _ ∧ Matches '/' (.any :: widen (globTokens pat)) path ↔ _
  rw [matches_any_iff]
  constructor
  · rintro ⟨hstar, rest, hrest, hmatch⟩
    rw [not_or] at hstar
    have hslash : (globTokens pat).head? ≠ some (.lit '/') := fun h => hstar.1 ⟨rfl, h⟩
    exact ⟨rest, hrest, head_ne_slash hpat hslash hmatch, hstar.2, hmatch⟩
  · rintro ⟨rest, hrest, hhead, hstar, hmatch⟩
    refine ⟨?_, rest, hrest, hmatch⟩
    rintro (⟨-, hslash⟩ | hinside)
    · obtain ⟨tokens, htokens⟩ := List.head?_eq_some_iff.mp hslash
      rw [htokens] at hmatch
      exact hhead (Matches.head hmatch)
    · exact hstar hinside

theorem readAs_cons {d : Char} (hd : d ≠ '*') {pat path : List Char} :
    ReadAs (d :: pat) path ↔ ∃ c rest, path = c :: rest ∧ GlobChar d c ∧ ReadAs pat rest := by
  have hinside : [.star, .lit '/'] <:+: globTokens (d :: pat) ↔
      [.star, .lit '/'] <:+: globTokens pat := by
    rw [globTokens_cons hd, infix_cons]
    split_ifs <;> simp
  unfold ReadAs GlobChar
  rw [hinside, globTokens_cons hd]
  split_ifs with hquestion
  · constructor
    · rintro ⟨hstar, c, rest, rfl, hc, hmatch⟩
      exact ⟨c, rest, rfl, hc, hstar, hmatch⟩
    · rintro ⟨c, rest, rfl, hc, hstar, hmatch⟩
      exact ⟨hstar, c, rest, rfl, hc, hmatch⟩
  · constructor
    · rintro ⟨hstar, rest, rfl, hmatch⟩
      exact ⟨d, rest, rfl, rfl, hstar, hmatch⟩
    · rintro ⟨c, rest, rfl, rfl, hstar, hmatch⟩
      exact ⟨hstar, rest, rfl, hmatch⟩

theorem globMatchRec_iff (pat path : List Char) :
    globMatchRec pat path = true ↔ ReadAs pat path := by
  induction pat using globTokens.induct generalizing path with
  | case1 => simp [ReadAs, globMatchRec, globTokens, widen, Matches]
  | case2 pat ih =>
    rw [readAs_any (globTokens.eq_2 pat), globMatchRec.eq_2, List.any_eq_true]
    simp only [List.mem_tails, ih]
  | case3 pat hslash ih =>
    rw [readAs_any (globTokens.eq_3 pat hslash), globMatchRec.eq_3 path pat hslash,
      List.any_eq_true]
    simp only [List.mem_tails, ih]
  | case4 pat hdouble hsingle ih =>
    have hpat : pat.head? ≠ some '*' := by
      intro h
      obtain ⟨pat', rfl⟩ := List.head?_eq_some_iff.mp h
      exact hsingle pat' rfl
    rw [readAs_star hpat (globTokens.eq_4 pat hdouble hsingle),
      globMatchRec.eq_4 path pat hdouble hsingle, List.any_eq_true]
    simp only [List.mem_tails, ih, Bool.and_eq_true, decide_eq_true_eq]
  | case5 pat ih =>
    rw [globMatchRec_cons (by decide), readAs_cons (by decide)]
    simp only [ih]
  | case6 c pat h1 h2 h3 h4 ih =>
    rw [globMatchRec_cons h3, readAs_cons h3]
    simp only [ih]

/-! ## Agreement -/

/-- Both copies of the code decide what the pattern is meant for. -/
def GlobsAgree (pattern path : String) : Prop :=
  (globMatchSimple pattern path = true ↔ GlobMatches pattern path) ∧
    (globMatch pattern path = true ↔ GlobMatches pattern path)

/-- Where the loop for a lone star does no harm. A star before a separator keeps the pattern from
all paths, and elsewhere a star is one that could as well be doubled. -/
def Harmless (pattern path : String) : Prop :=
  (StarBeforeSlash pattern → ¬GlobMatches pattern path) ∧
    (¬StarBeforeSlash pattern → StarsHold pattern path)

theorem globsAgree_iff_harmless (pattern path : String) :
    GlobsAgree pattern path ↔ Harmless pattern path := by
  unfold GlobsAgree Harmless globMatchSimple globMatch StarsHold
  rw [and_self_iff, globMatchRec_iff]
  change (¬StarBeforeSlash pattern ∧ _ ↔ _) ↔ _
  have hwiden : GlobMatches pattern path → _ := Matches.widen
  constructor
  · intro h
    exact ⟨fun hstar hmatch => (h.mpr hmatch).1 hstar, fun hstar hmatch => h.mp ⟨hstar, hmatch⟩⟩
  · rintro ⟨hbefore, hhold⟩
    exact ⟨fun h => hhold h.1 h.2,
      fun hmatch => ⟨fun hstar => hbefore hstar hmatch, hwiden hmatch⟩⟩

/-- A path without separators is never mistaken. -/
theorem harmless_of_no_slash {path : String} (hpath : '/' ∉ path.toList) (pattern : String) :
    Harmless pattern path := by
  refine ⟨fun hstar hmatch => hpath ?_, fun _ => matches_of_widen hpath⟩
  exact hmatch.mem (hstar.subset (List.mem_cons_of_mem _ List.mem_cons_self))

/-- A pattern is never mistaken whose lone stars come directly behind double ones. -/
theorem globsAgree_of_anchored {pattern : String} (hstar : ¬StarBeforeSlash pattern)
    (hanchored : Anchored (globTokens pattern.toList)) (path : String) : GlobsAgree pattern path :=
  (globsAgree_iff_harmless pattern path).mpr
    ⟨fun h => absurd h hstar, fun _ => hanchored.matches_of_widen⟩

/-- The copies agree with what a pattern is meant for where stars do no harm, and for every pattern
exactly if the path has no separators. -/
theorem globs_agree_iff (path : String) :
    (∀ pattern, GlobsAgree pattern path ↔ Harmless pattern path) ∧
      ((∀ pattern, GlobsAgree pattern path) ↔ '/' ∉ path.toList) := by
  refine ⟨fun pattern => globsAgree_iff_harmless pattern path, fun h => ?_, fun hpath pattern =>
    (globsAgree_iff_harmless pattern path).mpr (harmless_of_no_slash hpath pattern)⟩
  -- a star by itself is enough
  have hstar : ¬StarBeforeSlash "*" := by decide
  have hdouble : Matches '/' [.any] path.toList := ⟨path.toList, [], (List.append_nil _).symm, rfl⟩
  obtain ⟨w, v, hw, hslash, rfl⟩ :=
    ((globsAgree_iff_harmless "*" path).mp (h "*")).2 hstar hdouble
  rwa [hw, List.append_nil]

/-- A star passes over separators, and not even `*/b` can be matched. -/
theorem star_crosses_slash : ¬GlobsAgree "*" "a/b" ∧ ¬GlobsAgree "*/b" "a/b" := by
  constructor
  · rintro ⟨hsimple, -⟩
    have hcode : globMatchSimple "*" "a/b" = true := by decide
    obtain ⟨w, v, hw, hslash, rfl⟩ := hsimple.mp hcode
    rw [List.append_nil] at hw
    exact hslash (hw ▸ by decide)
  · rintro ⟨hsimple, -⟩
    have hcode : globMatchSimple "*/b" "a/b" = false := by decide
    have hmatch : GlobMatches "*/b" "a/b" :=
      ⟨['a'], ['/', 'b'], rfl, by decide, ['b'], rfl, [], rfl, rfl⟩
    rw [hsimple.mpr hmatch] at hcode
    cases hcode

end Pan
