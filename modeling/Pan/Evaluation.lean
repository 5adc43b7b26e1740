import Mathlib.Data.List.Infix
import Pan.Control
import Pan.FileSystem
import Pan.Plugins
import Pan.Transcript

namespace Pan

/-- `contains(pat)` -/
def containsText (s pat : String) : Bool :=
  s.toList.tails.any fun rest => pat.toList.isPrefixOf rest

theorem containsText_iff {s pat : String} :
    containsText s pat = true ↔ pat.toList <:+: s.toList := by
  rw [containsText, List.any_eq_true, List.infix_iff_prefix_suffix]
  apply exists_congr
  intro rest
  rw [List.mem_tails, List.isPrefixOf_iff_prefix, and_comm]

/-- `to_lowercase()`. What becomes of a character beyond ASCII is for `special` to say, from what
stands before it, backwards, and behind it. -/
def lowerFrom (special : List Char → Char → List Char → List Char) :
    List Char → List Char → List Char
  | _, [] => []
  | before, c :: s =>
    (if c.toNat < 128 then [c.toLower] else special before c s) ++ lowerFrom special (c :: before) s

def toLowercase (special : List Char → Char → List Char → List Char) (s : String) : String :=
  String.ofList (lowerFrom special [] s.toList)

structure LlmEvaluator where
  base : String
  model : String
  apiKey : Option String

namespace LlmEvaluator

def resultsText (J : JsonText) (report : RunReport) : String :=
  String.join (report.results.map fun (cap, val) => s!"  {cap}: {J.write val}\n")

def prompt (J : JsonText) (goal : Goal) (report : RunReport) : String :=
  let expressed := "\n".intercalate report.expressed
  "You are a strict goal evaluator. Determine if the goal was SATISFIED or UNSATISFIED.\n\n" ++
    s!"Goal: {goal.objective}\n\n" ++
    s!"Assistant's response:\n{expressed}\n\n" ++
    s!"Tool results:\n{resultsText J report}\n\n" ++
    "Answer with SATISFIED or UNSATISFIED on the first line, " ++
    "then a brief reason on the second line.\n" ++
    "If you are unsure, answer UNSATISFIED."

/-- The body of the request; the temperature is `0.1`. -/
def request (E : LlmEvaluator) (J : JsonText) (goal : Goal) (report : RunReport) : Value :=
  let message := Value.ofFields
    [("role", .string "user"), ("content", .string (prompt J goal report))]
  Value.ofFields [("model", .string E.model), ("messages", .array [message]),
    ("max_tokens", .number (.posInt 64)),
    ("temperature", .number (.float ⟨0x3FB999999999999A⟩))]

def replyText (body : Value) : String :=
  let first := ((body.get "choices").bind Value.asArray).bind List.head?
  let message := first.bind fun c => c.get "message"
  ((message.bind fun m => m.get "content").bind Value.asStr).getD ""

def verdict (special : List Char → Char → List Char → List Char) (reply : String) : GoalEval :=
  let text := toLowercase special (trim reply)
  if containsText text "satisfied" then .satisfied
  else if containsText text "unsatisfied" then
    .unsatisfied ((lines text)[1]?.getD "no reason given")
  else .cannotJudge s!"unexpected response: {text}"

def judge (special : List Char → Char → List Char → List Char) :
    Except String Value → GoalEval
  | .ok body => verdict special (replyText body)
  | .error e => .cannotJudge s!"evaluator request failed: {e}"

/-- `post` sends a body to a path under a base, with a key and for so many seconds. -/
def evaluate {W : Type} (E : LlmEvaluator) (J : JsonText)
    (special : List Char → Char → List Char → List Char)
    (post : String → String → Option String → Value → ℕ → Call W (Except String Value))
    (goal : Goal) (_ctx : Context) (report : RunReport) : Call W GoalEval := fun w =>
  (post E.base "/chat/completions" E.apiKey (E.request J goal report) 15 w).map fun r =>
    (judge special r.1, r.2)

def evaluator {W : Type} (E : LlmEvaluator) (J : JsonText)
    (special : List Char → Char → List Char → List Char)
    (post : String → String → Option String → Value → ℕ → Call W (Except String Value)) :
    GoalEvaluator W :=
  ⟨E.evaluate J special post⟩

/-! ## Verdicts -/

/-- The first line of a reply is the word, in any letter case. -/
def FirstLineIs (word reply : String) : Prop :=
  ∃ line, (lines reply).head? = some line ∧ line.toList.map Char.toLower = word.toList

structure RightVerdict (reply : String) (eval : GoalEval) : Prop where
  unsatisfied : FirstLineIs "unsatisfied" reply →
    eval = .unsatisfied ((lines reply)[1]?.getD "no reason given")
  satisfied : FirstLineIs "satisfied" reply → eval = .satisfied

theorem prefix_of_head_lines {s line : String} (h : (lines s).head? = some line) :
    line.toList <+: s.toList := by
  -- the first line is the first segment, or that without a carriage return
  have hfront : ∀ segments : List (List Char), segments.head?.getD [] <+:
      ['\n'].intercalate segments := by
    rintro (_ | ⟨segment, _ | ⟨segment', rest⟩⟩)
    · exact List.nil_prefix
    · simp
    · simp [List.intercalate_cons_cons]
  have hs : (s.toList.splitOn '\n').head?.getD [] <+: s.toList := by
    simpa only [List.intercalate_splitOn] using hfront (s.toList.splitOn '\n')
  unfold lines at h
  rw [List.head?_map, Option.map_eq_some_iff] at h
  obtain ⟨l, hl, rfl⟩ := h
  rw [String.toList_ofList]
  refine List.IsPrefix.trans ?_ hs
  cases hsegments : s.toList.splitOn '\n' with
  | nil => exact absurd hsegments (List.splitOn_ne_nil _ _)
  | cons segment rest =>
    rw [hsegments] at hl
    cases rest with
    | nil =>
      have hsame : segment ≠ [] ∧ segment = l := by simpa [Option.filter] using hl
      rw [hsame.2]
      exact List.prefix_rfl
    | cons segment' rest =>
      rw [List.dropLast_cons_cons, List.map_cons, List.cons_append, List.head?_cons] at hl
      obtain rfl := Option.some.inj hl
      rw [List.head?_cons, Option.getD_some]
      split_ifs
      · exact List.dropLast_prefix segment
      · exact List.prefix_rfl

/-- A front that begins and ends with what is not white space is still there when the rest is
trimmed. -/
theorem prefix_trim {s : String} {l : List Char} (h : l <+: s.toList) (hne : l ≠ [])
    (hl : ∀ c ∈ l, isWhitespace c = false) : l <+: (trim s).toList := by
  obtain ⟨rest, hrest⟩ := h
  obtain ⟨c, l', rfl⟩ := List.exists_cons_of_ne_nil hne
  have hstart : (s.toList.dropWhile isWhitespace) = (c :: l') ++ rest := by
    rw [← hrest, List.cons_append, List.dropWhile_cons_of_neg]
    simp [hl c (List.mem_cons_self ..)]
  have hend : (c :: l').reverse.dropWhile isWhitespace = (c :: l').reverse := by
    rw [List.dropWhile_eq_self_iff]
    intro hlength
    have hlast := hl _ (List.mem_reverse.mp (List.getElem_mem hlength))
    exact Bool.eq_false_iff.mp hlast
  unfold trim
  rw [String.toList_ofList, hstart, List.rdropWhile, List.reverse_append, List.dropWhile_append]
  split_ifs
  · rw [hend, List.reverse_reverse]
  · rw [List.reverse_append, List.reverse_reverse]
    exact List.prefix_append _ _

theorem prefix_lowerFrom (special : List Char → Char → List Char → List Char)
    {before l s : List Char} (h : l <+: s) (hl : ∀ c ∈ l, c.toNat < 128) :
    l.map Char.toLower <+: lowerFrom special before s := by
  induction l generalizing before s with
  | nil => exact List.nil_prefix
  | cons c l ih =>
    obtain ⟨rest, rfl⟩ := h
    obtain ⟨hc, hl⟩ := List.forall_mem_cons.mp hl
    rw [List.cons_append, lowerFrom, if_pos hc, List.map_cons, List.singleton_append,
      List.cons_prefix_cons]
    exact ⟨rfl, ih (List.prefix_append _ _) hl⟩

/-- What has a small letter for its lower case is a letter of ASCII. -/
theorem ascii_of_isLower_toLower {c : Char} (h : c.toLower.isLower = true) :
    c.toNat < 128 ∧ isWhitespace c = false := by
  have hbounds : 65 ≤ c.toNat ∧ c.toNat ≤ 122 := by
    unfold Char.toLower at h
    split_ifs at h with hupper
    · have h1 : 65 ≤ c.val.toNat := UInt32.le_iff_toNat_le.mp hupper.1
      have h2 : c.val.toNat ≤ 90 := UInt32.le_iff_toNat_le.mp hupper.2
      exact ⟨h1, h2.trans (by decide)⟩
    · change (decide (97 ≤ c.val) && decide (c.val ≤ 122)) = true at h
      simp only [Bool.and_eq_true, decide_eq_true_eq] at h
      have h1 : 97 ≤ c.val.toNat := UInt32.le_iff_toNat_le.mp h.1
      have h2 : c.val.toNat ≤ 122 := UInt32.le_iff_toNat_le.mp h.2
      exact ⟨le_trans (by decide) h1, h2⟩
  refine ⟨by omega, ?_⟩
  simp only [isWhitespace, Bool.or_eq_false_iff, Bool.and_eq_false_iff, decide_eq_false_iff_not,
    beq_eq_false_iff_ne]
  omega

variable {special : List Char → Char → List Char → List Char}

variable (special) in
/-- A reply that begins with the word contains it. -/
theorem containsText_of_firstLineIs {word reply : String} (hword : word ≠ "")
    (hlower : ∀ c ∈ word.toList, c.isLower = true) (h : FirstLineIs word reply) :
    containsText (toLowercase special (trim reply)) word = true := by
  obtain ⟨line, hline, hsame⟩ := h
  have hascii : ∀ c ∈ line.toList, c.toNat < 128 ∧ isWhitespace c = false := by
    intro c hc
    apply ascii_of_isLower_toLower
    apply hlower
    rw [← hsame]
    exact List.mem_map_of_mem hc
  have hne : line.toList ≠ [] := by
    intro hnil
    rw [hnil, List.map_nil] at hsame
    exact hword (String.toList_inj.mp (by simpa using hsame.symm))
  have htrim := prefix_trim (prefix_of_head_lines hline) hne fun c hc => (hascii c hc).2
  have hfront : _ <+: lowerFrom special [] (trim reply).toList :=
    prefix_lowerFrom special htrim fun c hc => (hascii c hc).1
  rw [hsame] at hfront
  rw [containsText_iff, toLowercase, String.toList_ofList]
  exact hfront.isInfix

/-- The second test is never reached with success. -/
theorem verdict_ne_unsatisfied (reply reason : String) :
    verdict special reply ≠ .unsatisfied reason := by
  unfold verdict
  dsimp only
  split_ifs with hsat hunsat
  · simp
  · -- the shorter word is the end of the longer one
    have hword : "satisfied".toList <:+: "unsatisfied".toList := ⟨"un".toList, [], by decide⟩
    exact absurd (containsText_iff.mpr (hword.trans (containsText_iff.mp hunsat))) hsat
  · simp

theorem verdict_right_iff (reply : String) :
    RightVerdict reply (verdict special reply) ↔ ¬FirstLineIs "unsatisfied" reply := by
  constructor
  · intro h hfirst
    exact verdict_ne_unsatisfied reply _ (h.unsatisfied hfirst)
  · intro hfirst
    refine ⟨fun h => absurd h hfirst, fun h => ?_⟩
    have hcontains := containsText_of_firstLineIs special (by decide) (by simp) h
    unfold verdict
    rw [if_pos hcontains]

end LlmEvaluator

/-! ## Spans that are judged -/

namespace Loop

open Eff

variable {W O : Type} {L : Loop W} {obs : Observations W O} {ctx : Context}

variable (L) in
def Refuses (reason : String) : Prop :=
  ∃ evaluator goal ctx report w w', L.evaluator = some evaluator ∧
    evaluator.evaluate goal ctx report w = some (.unsatisfied reason, w')

variable (L) in
/-- Where a report ends unsatisfied, the evaluator gave the reason. -/
def Judged (report : RunReport) : Prop :=
  ∀ reason, report.runEnd = some (.unsatisfied reason) → L.Refuses reason

variable (L) in
/-- A pass that ends the span ends it with a report that is judged. -/
def PassJudged (r : State ⊕ RunReport) : Prop := ∀ report, r = .inr report → L.Judged report

theorem passJudged_inr {report : RunReport}
    (h : ∀ reason, report.runEnd ≠ some (.unsatisfied reason)) : L.PassJudged (.inr report) := by
  intro report' hr
  cases hr
  exact fun reason hreason => absurd hreason (h reason)

theorem conclude_judged (s : State) (report : RunReport) (o : Outcome) :
    Triple (fun _ _ => True) (L.conclude s report o) (fun r _ _ => L.Judged r)
      fun _ => True := by
  unfold conclude
  refine Triple.bind (m := fun eval _ _ => ∀ reason, eval = .unsatisfied reason →
    L.Refuses reason) ?_ fun eval => ?_
  · unfold evaluate
    split
    · rename_i evaluator hevaluator
      refine Triple.call ?_ fun _ _ _ => trivial
      rintro _ w eval w' - hcall reason rfl
      exact ⟨evaluator, s.current, s.workingCtx, report, w, w', hevaluator, hcall⟩
    · exact Triple.pure fun _ _ _ reason h => by cases h
  refine Triple.bind (m := fun _ _ _ => ∀ reason, eval = .unsatisfied reason → L.Refuses reason)
    (Triple.emit fun _ _ h => h) fun _ => ?_
  cases eval with
  | unsatisfied reason =>
    refine Triple.pure fun _ _ h reason' hreason => ?_
    obtain rfl : reason = reason' := by simpa using hreason
    exact h reason rfl
  | satisfied => exact Triple.pure fun _ _ _ reason h => by simp at h
  | cannotJudge reason => exact Triple.pure fun _ _ _ reason h => by simp at h

theorem feedBack_judged (s : State) (e : Enacting) :
    Triple (fun _ _ => True) (L.feedBack s e) (fun r _ _ => L.PassJudged r) fun _ => True := by
  unfold feedBack
  split
  · exact Triple.bind (Triple.unknown _) fun _ =>
      Triple.pure fun _ _ _ => passJudged_inr fun _ => by simp
  · exact Triple.bind (Triple.unknown _) fun _ =>
      Triple.pure fun _ _ _ report hr => by cases hr

theorem afterDecide_judged (s : State) (d : Decision) :
    Triple (fun _ _ => True) (L.afterDecide obs ctx s d) (fun r _ _ => L.PassJudged r)
      fun _ => True := by
  unfold afterDecide
  refine Triple.bind (Triple.unknown _) fun _ => Triple.bind (Triple.unknown _) fun _ =>
    Triple.bind (Triple.unknown _) fun e => Triple.bind (Triple.unknown _) fun _ => ?_
  split
  · rename_i o _
    refine Triple.bind (m := fun r _ _ => L.Judged r)
      (Triple.onFst fun _ => conclude_judged s e.report o) fun report =>
        Triple.pure fun _ _ h report' hr => ?_
    cases hr
    exact h
  split
  · unfold advance
    refine Triple.bind (Triple.unknown _) fun r => ?_
    cases r with
    | some goal =>
      exact Triple.bind (Triple.unknown _) fun _ =>
        Triple.pure fun _ _ _ report hr => by cases hr
    | none => exact Triple.pure fun _ _ _ => passJudged_inr fun _ => by simp
  · exact Triple.onFst fun _ => feedBack_judged s e

theorem iteration_judged (rounds : ℕ) (s : State) :
    Triple (fun _ _ => True) (L.iteration obs ctx rounds s) (fun r _ _ => L.PassJudged r)
      fun _ => True := by
  unfold iteration
  refine Triple.bind (Triple.unknown _) fun _ => Triple.bind (Triple.unknown _) fun _ =>
    Triple.bind (Triple.unknown _) fun r => ?_
  cases r with
  | superseded newer =>
    refine Triple.bind (Triple.unknown _) fun _ => Triple.bind (Triple.unknown _) fun _ =>
      Triple.bind (Triple.unknown _) fun _ => Triple.pure fun _ _ _ report hr => ?_
    cases hr
  | vetoed reason =>
    refine Triple.bind (Triple.unknown _) fun _ => Triple.bind (Triple.unknown _) fun _ => ?_
    exact Triple.pure fun _ _ _ => passJudged_inr fun _ => by simp
  | decided d => exact afterDecide_judged s d

theorem iterate_judged (rounds n : ℕ) (s : State) :
    Triple (fun _ _ => True) (L.iterate obs ctx rounds n s) (fun r _ _ => L.Judged r)
      fun _ => True := by
  induction n generalizing s with
  | zero => exact Triple.never fun _ _ _ => trivial
  | succ n ih =>
    unfold iterate
    refine Triple.bind (iteration_judged rounds s) fun r => ?_
    cases r with
    | inl s' => exact (ih s').strengthen_pre fun _ _ _ => trivial
    | inr report => exact Triple.pure fun _ _ h => h report rfl

/-- A span ends unsatisfied only on the word of its evaluator. -/
theorem runSpan_judged {fuel : ℕ} {w w' : W × O} {report : RunReport}
    (h : (L.runSpan obs ctx fuel w).2 = some (report, w')) : L.Judged report := by
  have hspan : Triple (fun _ _ => True) (L.runSpan obs ctx fuel) (fun r _ _ => L.Judged r)
      fun _ => True := by
    unfold runSpan
    refine Triple.bind (Triple.unknown _) fun r => ?_
    cases r with
    | some goal => exact Triple.bind (Triple.unknown _) fun s => iterate_judged fuel fuel s
    | none =>
      refine Triple.pure fun _ _ _ reason hreason => ?_
      simp at hreason
  exact hspan.returns (h := []) trivial h

end Loop

namespace LlmEvaluator

open Loop

variable {W O : Type} {E : LlmEvaluator} {J : JsonText}
  {special : List Char → Char → List Char → List Char}
  {post : String → String → Option String → Value → ℕ → Call W (Except String Value)}

theorem evaluate_of_ok {goal : Goal} (ctx : Context) {report : RunReport} {w w' : W}
    {body : Value}
    (hpost : post E.base "/chat/completions" E.apiKey (E.request J goal report) 15 w =
      some (.ok body, w')) :
    E.evaluate J special post goal ctx report w =
      some (verdict special (replyText body), w') := by
  unfold evaluate
  rw [hpost, Option.map_some, judge]

theorem judge_ne_unsatisfied (response : Except String Value) (reason : String) :
    judge special response ≠ .unsatisfied reason := by
  cases response with
  | ok body =>
    rw [judge]
    exact verdict_ne_unsatisfied (replyText body) reason
  | error e =>
    rw [judge]
    exact fun h => GoalEval.noConfusion h

theorem evaluate_ne_unsatisfied {goal : Goal} (ctx : Context) {report : RunReport} {w w' : W}
    {reason : String} :
    E.evaluate J special post goal ctx report w ≠ some (.unsatisfied reason, w') := by
  intro h
  unfold evaluate at h
  obtain ⟨r, -, hresponse⟩ := Option.map_eq_some_iff.mp h
  exact judge_ne_unsatisfied r.1 reason (Prod.mk.inj hresponse).1

/-- How a span ends that concludes and gets a reply. -/
theorem conclude_eq {L : Loop W} (hL : L.evaluator = some (E.evaluator J special post)) (s : State)
    (report : RunReport) {w w' : W} {body : Value}
    (hpost : post E.base "/chat/completions" E.apiKey (E.request J s.current report) 15 w =
      some (.ok body, w')) :
    (L.conclude s report .achieved w).2 =
      some ({ report with runEnd := some (.concluded .achieved) }, w') := by
  have heval : (L.evaluate s report .achieved w).2 =
      some (verdict special (replyText body), w') := by
    unfold Loop.evaluate
    rw [hL]
    exact evaluate_of_ok s.workingCtx hpost
  unfold conclude
  rw [Eff.bind_of_some heval]
  cases h : verdict special (replyText body) with
  | unsatisfied reason => exact absurd h (verdict_ne_unsatisfied _ reason)
  | satisfied => rfl
  | cannotJudge reason => rfl

/-- Each reply is taken for what it is meant for exactly if its first line is not UNSATISFIED, in
whatever letters; and so it is with the end of a span that such a reply judges, for no span ends
unsatisfied. -/
theorem evaluate_right_iff (L : Loop W) (hL : L.evaluator = some (E.evaluator J special post)) :
    (∀ goal ctx report w body w',
      post E.base "/chat/completions" E.apiKey (E.request J goal report) 15 w =
        some (.ok body, w') →
      ∃ eval, E.evaluate J special post goal ctx report w = some (eval, w') ∧
        (RightVerdict (replyText body) eval ↔ ¬FirstLineIs "unsatisfied" (replyText body))) ∧
    (∀ s report w body w',
      post E.base "/chat/completions" E.apiKey (E.request J s.current report) 15 w =
        some (.ok body, w') →
      ∃ report', (L.conclude s report .achieved w).2 = some (report', w') ∧
        ((FirstLineIs "unsatisfied" (replyText body) →
            (∃ reason, report'.runEnd = some (.unsatisfied reason)) ∧
              report'.runEnd ≠ some (.concluded .achieved)) ↔
          ¬FirstLineIs "unsatisfied" (replyText body))) ∧
    ∀ (obs : Observations W O) ctx fuel w report w',
      (L.runSpan obs ctx fuel w).2 = some (report, w') →
      ∀ reason, report.runEnd ≠ some (.unsatisfied reason) := by
  refine ⟨?_, ?_, ?_⟩
  · intro goal ctx report w body w' hpost
    exact ⟨_, evaluate_of_ok ctx hpost, verdict_right_iff (replyText body)⟩
  · intro s report w body w' hpost
    refine ⟨_, conclude_eq hL s report hpost, ?_⟩
    constructor
    · intro h hfirst
      exact (h hfirst).2 rfl
    · exact fun hfirst h => absurd h hfirst
  · intro obs ctx fuel w report w' hrun reason hreason
    obtain ⟨evaluator, goal, ctx', report', w₁, w₂, hevaluator, heval⟩ :=
      runSpan_judged hrun reason hreason
    obtain rfl := Option.some.inj (hL.symm.trans hevaluator)
    exact evaluate_ne_unsatisfied ctx' heval

def doubt : String := "UNSATISFIED\nno test was run"

def chatResponse (words : String) : Value :=
  Value.ofFields [("choices",
    .array [Value.ofFields [("message", Value.ofFields [("content", .string words)])]])]

/-- A loop that calls every goal achieved, before a model that doubts it each time. -/
def doubtedLoop : Loop Unit :=
  { echoLoop with
    evaluator := some (LlmEvaluator.evaluator ⟨"http://localhost", "small", none⟩
      ⟨fun _ => "", fun _ => none⟩ (fun _ c _ => [c])
      fun _ _ _ _ _ w => some (.ok (chatResponse doubt), w)) }

theorem evaluate_right_iff_doubted :
    ∃ report',
      (doubtedLoop.conclude ⟨tickGoal "g" 0, ⟨[]⟩, 0, .empty, none⟩ .empty .achieved ()).2 =
        some (report', ()) ∧
      ((FirstLineIs "unsatisfied" (replyText (chatResponse doubt)) →
          (∃ reason, report'.runEnd = some (.unsatisfied reason)) ∧
            report'.runEnd ≠ some (.concluded .achieved)) ↔
        ¬FirstLineIs "unsatisfied" (replyText (chatResponse doubt))) :=
  (evaluate_right_iff (O := Unit) doubtedLoop rfl).2.1 _ _ () _ () rfl

/-- The doubt is taken for consent, and the span ends as achieved. -/
theorem doubt_not_refused :
    FirstLineIs "unsatisfied" (replyText (chatResponse doubt)) ∧
      ¬RightVerdict doubt (verdict (fun _ c _ => [c]) doubt) ∧
      (doubtedLoop.runSpan (Once Unit) ⟨[]⟩ 2 ((), some (tickGoal "g" 0))).2.map
        (fun r => r.1.runEnd) = some (some (.concluded .achieved)) := by
  have hfirst : FirstLineIs "unsatisfied" doubt := ⟨"UNSATISFIED", by decide, by decide⟩
  refine ⟨hfirst, ?_, by decide⟩
  intro h
  exact verdict_ne_unsatisfied doubt _ (h.unsatisfied hfirst)

end LlmEvaluator

end Pan
