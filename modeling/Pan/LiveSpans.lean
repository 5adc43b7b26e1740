import Pan.Steps
import Pan.Tui

namespace Pan

variable {W : Type}

/-- Ctrl+C. -/
def TuiStep.isCancel : TuiStep W → Bool
  | .key (.char c) control _ => control && (c == 'c' || c == 'C')
  | _ => false

/-- The flag and the completion channel are as they were. -/
def App.SameSpans (app app' : App) : Prop :=
  app'.running = app.running ∧ app'.completionRx = app.completionRx

theorem App.SameSpans.trans {app app' app'' : App} (h : app.SameSpans app')
    (h' : app'.SameSpans app'') : app.SameSpans app'' :=
  ⟨h'.1.trans h.1, h'.2.trans h.2⟩

namespace TuiState

variable (s : TuiState W)

def Live (i : ℕ) : Prop := ∃ span, s.spans[i]? = some span ∧ span.report = none

/-- No span lives unless `running`, and there are never two. -/
structure OneLiveSpan : Prop where
  idle : s.app.running = false → ∀ i, ¬s.Live i
  atMostOne : ∀ i j, s.Live i → s.Live j → i = j

/-- The step is no Ctrl+C that is handled while a span lives. -/
def LeavesSpansAlone (e : TuiStep W) : Prop :=
  s.isOpen = true → e.isCancel = true → ∀ i, ¬s.Live i

structure Awaits : Prop where
  idle : s.app.running = false → ∀ i, ¬s.Live i
  busy : s.app.running = true → ∃ j, s.app.completionRx = some j ∧ ∀ i, s.Live i → i = j

variable {s} {s' : TuiState W}

theorem Awaits.oneLiveSpan (h : s.Awaits) : s.OneLiveSpan := by
  refine ⟨h.idle, fun i j hi hj => ?_⟩
  cases hrunning : s.app.running with
  | false => exact absurd hi (h.idle hrunning i)
  | true =>
    obtain ⟨k, -, honly⟩ := h.busy hrunning
    rw [honly i hi, honly j hj]

/-- The flag and the channel are as they were, and no span has come to life. -/
theorem Awaits.of_live (h : s.Awaits) (hsame : s.app.SameSpans s'.app)
    (hlive : ∀ i, s'.Live i → s.Live i) : s'.Awaits := by
  obtain ⟨hrunning, hrx⟩ := hsame
  refine ⟨fun h' i hi => h.idle (hrunning ▸ h') i (hlive i hi), fun h' => ?_⟩
  obtain ⟨j, hj, honly⟩ := h.busy (hrunning ▸ h')
  exact ⟨j, hrx.trans hj, fun i hi => honly i (hlive i hi)⟩

theorem Awaits.of_app (h : s.Awaits) {app : App} (hsame : s.app.SameSpans app) :
    Awaits { s with app := app } :=
  h.of_live hsame fun _ hi => hi

theorem Awaits.of_noneLive (h : ∀ i, ¬s.Live i) (hrunning : s.app.running = false) : s.Awaits :=
  ⟨fun _ => h, fun h' => by rw [hrunning] at h'; cases h'⟩

/-- A step of one span, which does not take back its report. -/
theorem live_of_modify {f : SpanTask W → SpanTask W} {j : ℕ}
    (hf : ∀ span, (f span).report = none → span.report = none) {i : ℕ}
    (h : Live { s with spans := s.spans.modify j f } i) : s.Live i := by
  obtain ⟨span', hspan', hreport⟩ := h
  rw [List.getElem?_modify] at hspan'
  cases hspan : s.spans[i]? with
  | none =>
    rw [hspan] at hspan'
    split_ifs at hspan' <;> cases hspan'
  | some span =>
    rw [hspan] at hspan'
    refine ⟨span, hspan, ?_⟩
    split_ifs at hspan'
    · obtain rfl := Option.some.inj hspan'
      exact hf span hreport
    · obtain rfl := Option.some.inj hspan'
      exact hreport

end TuiState

theorem SpanTask.report_act (span : SpanTask W) : span.act.report = span.report := by
  unfold act
  split <;> rfl

theorem SpanTask.report_of_finish (span : SpanTask W) (h : span.finish.report = none) :
    span.report = none := by
  unfold finish at h
  split_ifs at h
  · exact (Option.or_eq_none_iff.mp h).1
  · exact h

/-! ## Keys and the flag -/

namespace App

variable {app : App}

theorem sameSpans_undoList (path : String) (answer : String → Value → Except String Value) :
    app.SameSpans (app.undoList path answer) := by
  unfold undoList
  split_ifs
  · exact ⟨rfl, rfl⟩
  · dsimp only
    split <;> exact ⟨rfl, rfl⟩

theorem sameSpans_undo (formats : Formats) (path : String) (snapshotId : Option String)
    (answer : String → Value → Except String Value) :
    app.SameSpans (app.undo formats path snapshotId answer) := by
  unfold undo
  split_ifs
  · exact ⟨rfl, rfl⟩
  · dsimp only
    split <;> exact ⟨rfl, rfl⟩

theorem sameSpans_handleSlashCommand (formats : Formats) (input : String)
    (answer : String → Value → Except String Value) :
    app.SameSpans (app.handleSlashCommand formats input answer) := by
  unfold handleSlashCommand
  split
  case h_2 =>
    dsimp only
    split_ifs
    · exact sameSpans_undoList _ answer
    · exact sameSpans_undo formats _ _ answer
  all_goals exact ⟨rfl, rfl⟩

theorem sameSpans_historyUp : app.SameSpans app.historyUp := by
  unfold historyUp
  split <;> exact ⟨rfl, rfl⟩

theorem sameSpans_historyDown : app.SameSpans app.historyDown := by
  unfold historyDown
  split
  · exact ⟨rfl, rfl⟩
  · split <;> exact ⟨rfl, rfl⟩

theorem sameSpans_toggleMode (planGovernor : Option Grants) :
    app.SameSpans (app.toggleMode planGovernor) := by
  unfold toggleMode
  split_ifs <;> exact ⟨rfl, rfl⟩

theorem sameSpans_receive (token : String) : app.SameSpans (app.receive token) := by
  unfold receive
  split
  · split_ifs <;> exact ⟨rfl, rfl⟩
  · exact ⟨rfl, rfl⟩

end App

namespace Tui

variable {tui : Tui W} {s : TuiState W}

/-- A span that is spawned is the one that is awaited. -/
theorem awaits_runAgent (hs : ∀ i, ¬s.Live i) (input : String) (outside : Outside W) :
    (tui.runAgent s input outside).Awaits := by
  refine ⟨fun h => absurd h (by simp [runAgent]), fun _ => ⟨s.spans.length, rfl, fun i hi => ?_⟩⟩
  obtain ⟨span, hspan, hreport⟩ := hi
  by_contra hne
  apply hs i
  refine ⟨span, ?_, hreport⟩
  have hlt : i < s.spans.length := by
    have hlt' := (List.getElem?_eq_some_iff.mp hspan).1
    simp only [runAgent, List.length_append, List.length_singleton] at hlt'
    omega
  rwa [runAgent, List.getElem?_append_left hlt] at hspan

/-- Enter: a command leaves the spans alone, and a message spawns one. -/
theorem awaits_submit (hs : s.Awaits) (hrunning : s.app.running = false) (outside : Outside W) :
    (tui.submit s outside).Awaits := by
  have hidle := hs.idle hrunning
  unfold submit
  dsimp only
  split_ifs with hcommand
  · exact hs.of_app (App.SameSpans.trans ⟨rfl, rfl⟩ (App.sameSpans_handleSlashCommand _ _ _))
  · refine awaits_runAgent ?_ _ outside
    exact hidle

theorem awaits_handleKey (hs : s.Awaits) {code : KeyCode} {control : Bool} {outside : Outside W}
    (hcancel : (TuiStep.key code control outside).isCancel = true → ∀ i, ¬s.Live i) :
    (tui.handleKey s code control outside).Awaits := by
  unfold handleKey
  cases code with
  | char c =>
    dsimp only
    split_ifs with hc hl hrunning
    · refine .of_noneLive (s := cancel s) (hcancel ?_) rfl
      simpa [TuiStep.isCancel] using hc
    · exact hs.of_app ⟨rfl, rfl⟩
    · exact hs
    · exact hs.of_app ⟨rfl, rfl⟩
  | tab => exact hs.of_app (App.sameSpans_toggleMode _)
  | up => exact hs.of_app App.sameSpans_historyUp
  | down => exact hs.of_app App.sameSpans_historyDown
  | pageUp => exact hs.of_app ⟨rfl, rfl⟩
  | pageDown => exact hs.of_app ⟨rfl, rfl⟩
  | backspace => exact hs.of_app ⟨rfl, rfl⟩
  | enter =>
    dsimp only
    split_ifs with henter
    · exact awaits_submit hs henter.1 outside
    · exact hs
  | esc => exact hs.of_live ⟨rfl, rfl⟩ fun _ hi => hi
  | other => exact hs

end Tui

namespace TuiState

variable {s : TuiState W}

theorem Awaits.receiveToken (hs : s.Awaits) : s.receiveToken.Awaits := by
  unfold TuiState.receiveToken
  split
  · exact hs
  · split
    · rename_i token tokens _
      refine (hs.of_app (App.sameSpans_receive token)).of_live ⟨rfl, rfl⟩ fun i hi => ?_
      exact live_of_modify (f := fun span => { span with tokens := tokens }) (fun _ h => h) hi
    · exact hs

/-- A span whose report is received does not live. -/
theorem Awaits.receiveCompletion (hs : s.Awaits) : s.receiveCompletion.Awaits := by
  unfold TuiState.receiveCompletion
  split
  · rename_i report hreport
    obtain ⟨span, hspan, hspanReport⟩ := Option.bind_eq_some_iff.mp hreport
    obtain ⟨j, hj, hget⟩ := Option.bind_eq_some_iff.mp hspan
    refine .of_noneLive (fun i hi => ?_) rfl
    have hlive : s.Live i := hi
    cases hrunning : s.app.running with
    | false => exact hs.idle hrunning i hlive
    | true =>
      obtain ⟨k, hk, honly⟩ := hs.busy hrunning
      obtain rfl := honly i hlive
      obtain rfl := Option.some.inj (hk.symm.trans hj)
      obtain ⟨span', hspan', hnone⟩ := hlive
      obtain rfl := Option.some.inj (hspan'.symm.trans hget)
      rw [hnone] at hspanReport
      cases hspanReport
  · exact hs

end TuiState

namespace Tui

variable (tui : Tui W)

theorem awaits_step {s : TuiState W} (hs : s.Awaits) {e : TuiStep W} (he : s.LeavesSpansAlone e) :
    (tui.terminal.step s e).Awaits := by
  unfold terminal
  cases e with
  | key code control outside =>
    dsimp only
    split_ifs with hopen
    · exact awaits_handleKey hs fun hcancel => he hopen hcancel
    · exact hs
  | token =>
    dsimp only
    split_ifs
    · exact hs.receiveToken
    · exact hs
  | completion =>
    dsimp only
    split_ifs
    · exact hs.receiveCompletion
    · exact hs
  | act i =>
    exact hs.of_live ⟨rfl, rfl⟩ fun _ hi =>
      TuiState.live_of_modify (fun span h => (SpanTask.report_act span).symm.trans h) hi
  | finish i =>
    exact hs.of_live ⟨rfl, rfl⟩ fun _ hi =>
      TuiState.live_of_modify (fun span h => SpanTask.report_of_finish span h) hi

/-- A run that cancels no live span keeps the flag true to the spans. -/
theorem awaits_reached {es : List (TuiStep W)}
    (h : tui.terminal.Guarded TuiState.LeavesSpansAlone es) : (tui.terminal.reached es).Awaits :=
  Machine.invariant_of_guarded (I := fun _ s => s.Awaits)
    (TuiState.Awaits.of_noneLive (by rintro i ⟨span, hspan, -⟩; cases hspan) rfl)
    (fun _ _ _ hs he => tui.awaits_step hs he) h

/-! ## Runs -/

/-- Once Ctrl+C has been handled while a span lived, the span takes no decision. -/
def VetoesCancelled (es : List (TuiStep W)) : Prop :=
  ∀ pre cancel mid i post, es = pre ++ cancel :: (mid ++ .act i :: post) →
    (tui.terminal.reached pre).isOpen = true → cancel.isCancel = true →
    (tui.terminal.reached pre).Live i →
    ∀ goal d, (((tui.terminal.reached (pre ++ cancel :: mid)).spans[i]?).bind
      SpanTask.nextAction) ≠ some (.decided goal d)

/-- The flag is true to the spans in every state, and what is cancelled is vetoed, exactly if no
Ctrl+C is handled while a span lives. -/
theorem one_live_span_iff (es : List (TuiStep W)) :
    ((∀ pre, pre <+: es → (tui.terminal.reached pre).OneLiveSpan) ∧ tui.VetoesCancelled es) ↔
      tui.terminal.Guarded TuiState.LeavesSpansAlone es := by
  constructor
  · rintro ⟨hall, -⟩ pre e post rfl hopen hcancel i hlive
    have hstep : tui.terminal.step (tui.terminal.reached pre) e =
        cancel (tui.terminal.reached pre) := by
      unfold TuiStep.isCancel at hcancel
      split at hcancel
      · rename_i c control outside
        have hc : control = true ∧ c ∈ ['c', 'C'] := by simpa using hcancel
        exact (if_pos hopen).trans (if_pos hc)
      · cases hcancel
    have hcancelled := hall (pre ++ [e]) ⟨post, by simp⟩
    rw [Machine.reached_concat, hstep] at hcancelled
    exact hcancelled.idle rfl i hlive
  · intro hG
    refine ⟨?_, ?_⟩
    · rintro pre ⟨post, rfl⟩
      have hpre : tui.terminal.Guarded TuiState.LeavesSpansAlone pre :=
        (History.always_append.mp hG).1
      exact (tui.awaits_reached hpre).oneLiveSpan
    · rintro pre cancel mid i post rfl hopen hcancel hlive
      exact absurd hlive (hG pre cancel _ rfl hopen hcancel i)

end Tui

/-! ### A run that is cancelled -/

def commandAgent : AssembledAgent Unit where
  name := "helper"
  instruction := ""
  scope := ⟨"persona.helper"⟩
  grants := [("persona.helper", ["cap.shell"])]
  provider := ScriptedProvider Unit
    ⟨[.invoke "cap.shell.run" (.object []) none, .conclude .achieved]⟩
  toolbox := (Toolbox.empty.add shellComponent).toOption.getD .empty
  contextAssembler := none

def commandTui : Tui Unit := ⟨commandAgent, none, ⟨fun _ => "", id⟩⟩

def quietOutside : Outside Unit := ⟨0, (), 2, fun _ _ => .error ""⟩

def sentKeys : List (TuiStep Unit) :=
  [.key (.char 'g') false quietOutside, .key .enter false quietOutside]

/-- Ctrl+C, and then the span goes on. -/
def cancelledRun (n : ℕ) : List (TuiStep Unit) :=
  sentKeys ++ .key (.char 'c') true quietOutside :: List.replicate n (.act 0)

/-- After Ctrl+C the flag is down, but the span takes its decision and runs the command. -/
theorem cancelled_span_executes :
    (commandTui.terminal.reached (cancelledRun 9)).app.running = false ∧
      ((((commandTui.terminal.reached (cancelledRun 9)).spans[0]?).bind
        SpanTask.nextAction).bind Action.execution).isSome ∧
      ¬(∀ pre, pre <+: cancelledRun 9 → (commandTui.terminal.reached pre).OneLiveSpan) ∧
      ¬commandTui.VetoesCancelled (cancelledRun 9) := by
  have hidle : (commandTui.terminal.reached (cancelledRun 9)).app.running = false := by
    decide
  have hlive : ∀ es ∈ [sentKeys, cancelledRun 9], ((commandTui.terminal.reached es).spans[0]?.map
      fun span => span.report.isNone) = some true := by
    decide +kernel
  have hlives : ∀ es ∈ [sentKeys, cancelledRun 9], (commandTui.terminal.reached es).Live 0 := by
    intro es hes
    obtain ⟨span, hspan, hnone⟩ := Option.map_eq_some_iff.mp (hlive es hes)
    exact ⟨span, hspan, Option.isNone_iff_eq_none.mp hnone⟩
  refine ⟨hidle, by decide +kernel, fun hall => ?_, fun hvetoes => ?_⟩
  · exact (hall _ List.prefix_rfl).idle hidle 0 (hlives _ (by simp))
  · have hnext : (((commandTui.terminal.reached (cancelledRun 3)).spans[0]?).bind
        SpanTask.nextAction).map Action.isDecided = some true := by
      decide
    obtain ⟨a, ha, hdecided⟩ := Option.map_eq_some_iff.mp hnext
    cases a with
    | decided goal d =>
      exact hvetoes sentKeys _ (List.replicate 3 (.act 0)) 0 (List.replicate 5 (.act 0)) rfl
        (by decide) rfl (hlives _ (by simp)) goal d ha
    | _ => cases hdecided

end Pan
