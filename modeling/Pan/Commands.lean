import Pan.DelegatedGrants
import Pan.Gateway
import Pan.Transcript
import Pan.Tui

namespace Pan

open Eff

namespace CommandProvider

def HELP : String :=
  "commands: `run <program> [args…]`, `remember <key> <value…>`, `recall <key>`, " ++
    "`write <path> <content…>`"

def say (body : String) : Decision := ⟨[.express body, .conclude .achieved]⟩

def act (narration capability : String) (args : Value) : Decision :=
  ⟨[.express narration, .invoke capability args none, .conclude .achieved]⟩

/-- `trim_end()` -/
def trimEnd (s : String) : String := String.ofList (s.toList.rdropWhile isWhitespace)

/-- `join(" ")` -/
def joined (parts : List String) : String := " ".intercalate parts

def interpretWords (words : List String) : Decision :=
  match words with
  | [] => say HELP
  | command :: parts =>
    match command, parts with
    | "run", program :: args =>
      act (trimEnd s!"$ {program} {joined args}") "cap.shell.run"
        (.ofFields [("program", .string program), ("args", .array (args.map .string))])
    | "run", [] => say "usage: run <program> [args…]"
    | "remember", key :: rest =>
      act s!"remembered `{key}`" "cap.state.set"
        (.ofFields [("key", .string key), ("value", .string (joined rest))])
    | "remember", [] => say "usage: remember <key> <value…>"
    | "recall", key :: _ =>
      act s!"recalling `{key}`:" "cap.state.get" (.ofFields [("key", .string key)])
    | "recall", [] => say "usage: recall <key>"
    | "write", path :: rest =>
      act s!"wrote `{path}`" "cap.fs.write"
        (.ofFields [("path", .string path), ("content", .string (joined rest))])
    | "write", [] => say "usage: write <path> <content…>"
    | "help", _ => say HELP
    | other, _ => say s!"unknown command `{other}`. {HELP}"

def decision (goal : Goal) : Decision :=
  match goal.trigger with
  | .utterance _ content => interpretWords (splitWhitespace (trim content))
  | _ => say HELP

end CommandProvider

def CommandProvider (W : Type) : Provider W where
  id := "provider.command"
  decide goal _ _ _ w := (some (CommandProvider.decision goal), w)

/-! ## Words -/

section Words

variable {α : Type*} {p : α → Bool}

/-- The words of a text do not change with what is trimmed. -/
theorem words_dropWhile (l : List α) :
    ((l.dropWhile p).splitOnP p).filter (fun l => !l.isEmpty) =
      (l.splitOnP p).filter fun l => !l.isEmpty := by
  induction l with
  | nil => rfl
  | cons a l ih =>
    by_cases ha : p a = true
    · rw [List.dropWhile_cons_of_pos ha, ih, List.splitOnP_cons_eq_if_modifyHead, if_pos ha]
      rfl
    · rw [List.dropWhile_cons_of_neg ha]

theorem words_rdropWhile (l : List α) :
    ((l.rdropWhile p).splitOnP p).filter (fun l => !l.isEmpty) =
      (l.splitOnP p).filter fun l => !l.isEmpty := by
  induction l using List.reverseRecOn with
  | nil => rfl
  | append_singleton l a ih =>
    by_cases ha : p a = true
    · rw [List.rdropWhile_concat_pos _ _ _ ha, ih, List.splitOnP_append_cons _ _ ha,
        List.filter_append]
      exact (List.append_nil _).symm
    · rw [List.rdropWhile_concat_neg _ _ _ ha]

theorem splitWhitespace_trim (s : String) : splitWhitespace (trim s) = splitWhitespace s := by
  unfold splitWhitespace trim
  rw [String.toList_ofList, words_rdropWhile, words_dropWhile]

theorem not_of_mem_splitOnP {l part : List α} (h : part ∈ l.splitOnP p) :
    ∀ a ∈ part, p a = false := by
  induction l generalizing part with
  | nil =>
    rw [List.splitOnP_nil, List.mem_singleton] at h
    simp [h]
  | cons b l ih =>
    rw [List.splitOnP_cons_eq_if_modifyHead] at h
    split at h
    · obtain rfl | h := List.mem_cons.mp h
      · simp
      · exact ih h
    · obtain ⟨first, rest, hl⟩ := List.exists_cons_of_ne_nil (List.splitOnP_ne_nil p l)
      rw [hl] at h ih
      obtain rfl | h := List.mem_cons.mp h
      · intro a ha
        obtain rfl | ha := List.mem_cons.mp ha
        · simpa using ‹¬p a = true›
        · exact ih List.mem_cons_self a ha
      · exact ih (List.mem_cons_of_mem _ h)

def IsWord (word : String) : Prop := word ≠ "" ∧ ∀ c ∈ word.toList, isWhitespace c = false

theorem isWord_of_mem {s word : String} (h : word ∈ splitWhitespace s) : IsWord word := by
  obtain ⟨chars, hchars, rfl⟩ := List.mem_map.mp h
  obtain ⟨hmem, hfull⟩ := List.mem_filter.mp hchars
  refine ⟨fun hempty => ?_, ?_⟩
  · have hnil : chars = [] := by simpa using congrArg String.toList hempty
    simp [hnil] at hfull
  · rw [String.toList_ofList]
    exact not_of_mem_splitOnP hmem

end Words

namespace CommandProvider

def EndsPlain (s : String) : Prop :=
  ∃ front c, s.toList = front ++ [c] ∧ isWhitespace c = false

theorem EndsPlain.prepend {s : String} (h : EndsPlain s) (t : String) : EndsPlain (t ++ s) := by
  obtain ⟨front, c, hs, hc⟩ := h
  exact ⟨t.toList ++ front, c, by rw [String.toList_append, hs, List.append_assoc], hc⟩

theorem EndsPlain.trimEnd_append_space {s : String} (h : EndsPlain s) :
    trimEnd (s ++ " ") = s := by
  obtain ⟨front, c, hs, hc⟩ := h
  unfold trimEnd
  rw [String.toList_append, show (" " : String).toList = [' '] from rfl,
    List.rdropWhile_concat_pos _ _ _ (by decide), hs,
    List.rdropWhile_concat_neg _ _ _ (by simp [hc]), ← hs, String.ofList_toList]

theorem EndsPlain.trimEnd_eq {s : String} (h : EndsPlain s) : trimEnd s = s := by
  obtain ⟨front, c, hs, hc⟩ := h
  unfold trimEnd
  rw [hs, List.rdropWhile_concat_neg _ _ _ (by simp [hc]), ← hs, String.ofList_toList]

theorem endsPlain_of_isWord {word : String} (h : IsWord word) : EndsPlain word := by
  obtain ⟨hne, hplain⟩ := h
  obtain hnil | ⟨front, c, hlast⟩ := List.eq_nil_or_concat' word.toList
  · exact absurd (String.toList_eq_nil_iff.mp hnil) hne
  · refine ⟨front, c, hlast, hplain c ?_⟩
    rw [hlast]
    exact List.mem_append_right _ List.mem_cons_self

theorem endsPlain_joined {word : String} {words : List String}
    (h : ∀ w ∈ word :: words, IsWord w) : EndsPlain (joined (word :: words)) := by
  induction words generalizing word with
  | nil =>
    rw [joined, String.intercalate_singleton]
    exact endsPlain_of_isWord (h word List.mem_cons_self)
  | cons next rest ih =>
    rw [joined, String.intercalate_cons_cons]
    exact (ih fun w hw => h w (List.mem_cons_of_mem _ hw)).prepend _

/-- The narration of a program that is run is its command line. -/
theorem trimEnd_commandLine {program : String} {args : List String}
    (h : ∀ w ∈ program :: args, IsWord w) :
    trimEnd s!"$ {program} {joined args}" = "$ " ++ joined (program :: args) := by
  have hends := (endsPlain_joined h).prepend "$ "
  cases args with
  | nil =>
    have hone : joined [program] = program := String.intercalate_singleton
    have hline : (s!"$ {program} {joined []}" : String) = "$ " ++ program ++ " " := by
      simp [joined, toString]
    rw [hone] at hends ⊢
    rw [hline]
    exact hends.trimEnd_append_space
  | cons next rest =>
    have hline : (s!"$ {program} {joined (next :: rest)}" : String) =
        "$ " ++ joined (program :: next :: rest) := by
      rw [joined, joined, String.intercalate_cons_cons]
      simp [toString, String.append_assoc]
    rw [hline]
    exact hends.trimEnd_eq

end CommandProvider

/-! ## What comes of a dispatch -/

namespace Pipeline

variable {W : Type} {P : Pipeline W} {request : EffectRequest} {invoker : ScopedInvoker W} {w : W}

/-- A request that the governor denies fails, and nothing has happened. -/
theorem dispatchWithInvoker_of_denied {verdict : Verdict}
    (hgovern : P.governor.govern request.scope request.capability request.args w =
      some (verdict, w)) (hverdict : verdict ≠ .allow) :
    ∃ e, (P.dispatchWithInvoker request invoker w).2 = some (.error e, w) := by
  unfold dispatchWithInvoker clear
  rw [emit_bind_apply]
  dsimp only
  rcases hlookup : P.registry.lookup request.capability with _ | cap
  · refine ⟨.unresolved request.capability, ?_⟩
    rw [resolve_of_none hlookup]
    simp [Eff.andThen, bind_eq, record]
  · rw [resolve_of_some hlookup]
    rcases hcheck : minimalSchemaCheck cap.argsSchema request.args with reason | _
    · refine ⟨.invalid request.capability reason, ?_⟩
      have hvalidate := validate_of_error (P := P) ⟨request, cap.argsSchema, cap, hlookup, rfl⟩
        hcheck
      simp [Eff.andThen, bind_eq, hvalidate, record]
    · refine ⟨.rejected ⟨request.capability, verdict⟩, ?_⟩
      have hvalidate := validate_of_ok (P := P) ⟨request, cap.argsSchema, cap, hlookup, rfl⟩
        ⟨cap, hlookup, hcheck⟩ hcheck
      cases verdict with
      | allow => exact absurd rfl hverdict
      | deny reason => simp [Eff.andThen, bind_eq, hvalidate, record, govern, hgovern]
      | requireApproval reason => simp [Eff.andThen, bind_eq, hvalidate, record, govern, hgovern]

def performed (request : EffectRequest) (r : Except ExecError Value × W) :
    Except PipelineError Effected × W :=
  (match r.1 with
    | .ok value => .ok ⟨request.capability, value⟩
    | .error e => .error (.execution request.capability e.message), r.2)

theorem perform_of_no_hooks (hhooks : P.hooks = [])
    (run : Eff Action W (Except ExecError Value)) (w : W) :
    (P.perform request run w).2 = (run w).2.map (performed request) := by
  have hpre : (preInvokeAll request P.hooks w) = ([], some (.ok (), w)) := by
    rw [hhooks]
    rfl
  unfold perform
  rw [bind_of_some (by rw [hpre]), hpre, hhooks]
  dsimp only
  rw [bind_eq]
  rcases run w with ⟨t, _ | ⟨e | value, w'⟩⟩ <;> rfl

/-- What comes of a request that conforms and is allowed is what the executor makes of it. -/
theorem dispatchWithInvoker_of_allowed {w' : W}
    (hconforms : P.registry.Conforms request.capability request.args) (hhooks : P.hooks = [])
    (hgovern : P.governor.govern request.scope request.capability request.args w =
      some (.allow, w')) :
    (P.dispatchWithInvoker request invoker w).2 =
      ((P.executor.executeWithInvoker request.capability request.args w').run invoker).2.map
        (performed request) := by
  have hclear : ((P.clear request).andThen fun governed =>
      P.executeWithInvoker governed invoker) w = _ :=
    bind_of_some (clear_of_allow hconforms hgovern)
  unfold dispatchWithInvoker
  rw [emit_bind_apply, hclear]
  exact perform_of_no_hooks hhooks _ w'

end Pipeline

/-! ## A span of one decision -/

section Span

variable {W : Type} {agent : AssembledAgent W} {formats : Formats} {stream : Bool} {goal : Goal}
  {ctx : Context} {d : Decision}

def achieved (r : Enacting × W) : RunReport × W :=
  ({ r.1.report with runEnd := some (.concluded .achieved) }, r.2)

/-- A provider that decides at once, and always concludes, is asked once. -/
theorem serve_of_decides (hdecide : ∀ ctx caps n w, agent.provider.decide goal ctx caps n w =
      (some d, w)) (w : W) (henact : ∀ r, ((agent.served formats stream).enact
      ⟨none, [], .empty, none⟩ d.intents w).2 = some r → r.1.outcome = some .achieved)
    (fuel : ℕ) : (agent.serve formats stream goal ctx (fuel + 1) w).2 =
      ((agent.served formats stream).enact ⟨none, [], .empty, none⟩
        d.intents w).2.map achieved := by
  -- the one round: nothing rivals the goal, so the decision is taken
  have hselect : ∀ (s : Loop.State) (w : W), s.current = goal →
      (agent.served formats stream).select (Once W) s.current s.workingCtx
        (agent.served formats stream).pipeline.registry.all (fuel + 1) 0 (w, none) =
        ([], some (.decided d, (w, none))) := by
    rintro s w rfl
    simp [Loop.select, bind_eq, AssembledAgent.served, AssembledAgent.loop, Once, NoVeto, onFst,
      hdecide]
  -- every path through `enact` ends in `Achieved`, so there is no second round
  have hafter : ∀ (s : Loop.State), s.report = .empty → s.stallDetector = none →
      ((agent.served formats stream).afterDecide (Once W) ctx s d (w, none)).2 =
        ((agent.served formats stream).enact ⟨none, [], .empty, none⟩ d.intents w).2.map
          fun r => (.inr (achieved r).1, ((achieved r).2, none)) := by
    intro s hreport hstall
    unfold Loop.afterDecide
    rw [emit_bind_apply, emit_bind_apply, hreport, hstall, bind_eq, onFst]
    rcases henacted : (agent.served formats stream).enact ⟨none, [], .empty, none⟩ d.intents w with
      ⟨t, _ | ⟨e, w'⟩⟩
    · rfl
    · obtain ⟨outcome, toolResults, report, stall⟩ := e
      obtain rfl : outcome = some .achieved := henact _ (by rw [henacted])
      rfl
  have hiteration : ∀ (s : Loop.State), s.current = goal → s.report = .empty →
      s.stallDetector = none →
      ((agent.served formats stream).iteration (Once W) ctx (fuel + 1) s (w, none)).2 =
        ((agent.served formats stream).enact ⟨none, [], .empty, none⟩ d.intents w).2.map
          fun r => (.inr (achieved r).1, ((achieved r).2, none)) := by
    intro s hs hreport hstall
    unfold Loop.iteration
    rw [emit_bind_apply, emit_bind_apply, bind_of_some (by rw [hselect s w hs])]
    exact hafter s hreport hstall
  have htakeUp : ((agent.served formats stream).takeUp ctx goal .empty none w).2 =
      some (⟨goal, ctx, 0, .empty, none⟩, w) := rfl
  have hspan : ((agent.served formats stream).runSpan (Once W) ctx (fuel + 1) (w, some goal)).2 =
      ((agent.served formats stream).enact ⟨none, [], .empty, none⟩ d.intents w).2.map
        fun r => ((achieved r).1, ((achieved r).2, none)) := by
    unfold Loop.runSpan
    rw [bind_of_some rfl]
    dsimp only
    rw [bind_of_some (a := (⟨goal, ctx, 0, .empty, none⟩ : Loop.State)) rfl,
      Loop.iterate, bind_eq, hiteration _ rfl rfl rfl]
    rcases ((agent.served formats stream).enact ⟨none, [], .empty, none⟩ d.intents w).2 with
      _ | r <;> rfl
  unfold AssembledAgent.serve
  dsimp only
  rw [hspan, Option.map_map]
  rfl

section Enact

variable {w : W}

/-- What an invoke makes of what comes of its dispatch. -/
theorem enactInvoke_outcome (L : Loop W) (s : Enacting) (capability : String) (args : Value)
    (correlation : Option String) : (L.enactInvoke s capability args correlation w).2 =
      (L.dispatchInvoke capability args correlation w).2.map fun r => (match r.1 with
        | .ok eff => (L.feedStall s capability args).effected L.formats correlation args eff
        | .error err => (L.feedStall s capability args).failed L.formats capability correlation
            args (pipelineErrorMessage L.formats err), r.2) := by
  unfold Loop.enactInvoke
  rw [bind_eq, ← Loop.dispatchInvoke]
  rcases (L.dispatchInvoke capability args correlation w).2 with _ | ⟨e | eff, w'⟩ <;> rfl

theorem enact_say (body : String) : ((agent.served formats stream).enact ⟨none, [], .empty, none⟩
    (CommandProvider.say body).intents w).2 =
      some (⟨some .achieved, [], { RunReport.empty with expressed := [body] }, none⟩, w) := by
  cases stream <;> rfl

def acted (narration capability : String) : Except PipelineError Effected → RunReport
  | .ok eff => ⟨[eff.capability], [(eff.capability, eff.result)], [], [narration],
      some (.concluded .achieved)⟩
  | .error _ => ⟨[], [], [capability], [narration], some (.concluded .achieved)⟩

theorem serve_say (hdecide : ∀ ctx caps n w, agent.provider.decide goal ctx caps n w =
      (some (CommandProvider.say body), w)) (fuel : ℕ) :
    (agent.serve formats stream goal ctx (fuel + 1) w).2 = some (⟨[], [], [], [body],
      some (.concluded .achieved)⟩, w) := by
  rw [serve_of_decides hdecide w, enact_say]
  · rfl
  · rintro r hr
    rw [enact_say] at hr
    cases hr
    rfl

theorem serve_act {narration capability : String} {args : Value}
    (hdecide : ∀ ctx caps n w, agent.provider.decide goal ctx caps n w =
      (some (CommandProvider.act narration capability args), w)) (fuel : ℕ) :
    (agent.serve formats stream goal ctx (fuel + 1) w).2 =
      ((agent.served formats stream).dispatchInvoke capability args none w).2.map
        fun r => (acted narration capability r.1, r.2) := by
  -- the narration is expressed first, then the capability is called
  have hexpress : ((agent.served formats stream).enactIntent ⟨none, [], .empty, none⟩
      (.express narration) w).2 =
      some ((Enacting.mk none [] .empty none).expressed narration, w) := by
    cases stream <;> rfl
  have henact : ((agent.served formats stream).enact ⟨none, [], .empty, none⟩
      (CommandProvider.act narration capability args).intents w).2 =
      ((agent.served formats stream).dispatchInvoke capability args none w).2.map fun r =>
        (let e := (Enacting.mk none [] .empty none).expressed narration
        { (match r.1 with
          | .ok eff => e.effected formats none args eff
          | .error err => e.failed formats capability none args
              (pipelineErrorMessage formats err)) with outcome := some .achieved }, r.2) := by
    unfold CommandProvider.act
    rw [Loop.enact, bind_of_some hexpress]
    dsimp only
    rw [Loop.enact, Loop.enactIntent, bind_eq, enactInvoke_outcome]
    rcases ((agent.served formats stream).dispatchInvoke capability args none w).2 with
      _ | ⟨e | eff, w'⟩ <;> rfl
  rw [serve_of_decides hdecide w, henact, Option.map_map]
  · rcases ((agent.served formats stream).dispatchInvoke capability args none w).2 with
      _ | ⟨e | eff, w'⟩ <;> rfl
  · rintro r hr
    rw [henact] at hr
    obtain ⟨q, -, rfl⟩ := Option.map_eq_some_iff.mp hr
    rfl

end Enact

end Span

end Pan
