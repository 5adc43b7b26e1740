import Pan.Governance
import Pan.JsonText
import Pan.Plugins

namespace Pan

open History

/-- What an `Invoke` asks for. -/
structure Invocation where
  capability : String
  args : Value
  correlation : Option String

def ActionIntent.invocation : ActionIntent → Option Invocation
  | .invoke capability args correlation => some ⟨capability, args, correlation⟩
  | _ => none

/-- The `Invoke` intents of a decision, in order. -/
def Decision.invocations (d : Decision) : List Invocation :=
  d.intents.filterMap ActionIntent.invocation

namespace Action

def observedGoal : Action → Option Goal
  | .observed goal => some goal
  | _ => none

def isObserved : Action → Bool
  | .observed _ => true
  | _ => false

theorem since_observed (goal : Goal) (h : List Action) :
    since isObserved (h ++ [.observed goal]) = [] := by
  rw [since_concat]
  rfl

def enactedDecision : Action → Option Decision
  | .enacted _ d => some d
  | _ => none

/-- The `Invoke` that has been enacted. -/
def invocation : Action → Option Invocation
  | .invoked capability args correlation _ => some ⟨capability, args, correlation⟩
  | _ => none

/-- The fragment that records an enacted `Invoke` with its result or its error. -/
def fragment (formats : Formats) : Action → Option Fragment
  | .invoked capability args correlation result =>
    some (toolResultFragment formats capability correlation args result)
  | _ => none

/-- The capability and the result of an enacted `Invoke` that went through. -/
def success : Action → Option (String × Value)
  | .invoked capability _ _ (.ok value) => some (capability, value)
  | _ => none

/-- The capability of an enacted `Invoke` that was refused or failed. -/
def failure : Action → Option String
  | .invoked capability _ _ (.error _) => some capability
  | _ => none

def silent : Action → Bool
  | .observed _ => false
  | .invoked _ _ _ _ => false
  | .enacted _ _ => false
  | _ => true

theorem silent_of_ofPipeline {a : Action} (ha : a.ofPipeline = true) : a.silent = true := by
  cases a <;> first | rfl | cases ha

section Silent

variable {a : Action} (ha : a.silent = true)

include ha

theorem observedGoal_of_silent : a.observedGoal = none := by
  cases a <;> first | rfl | cases ha

theorem isObserved_of_silent : a.isObserved = false := by
  cases a <;> first | rfl | cases ha

theorem enactedDecision_of_silent : a.enactedDecision = none := by
  cases a <;> first | rfl | cases ha

theorem invocation_of_silent : a.invocation = none := by
  cases a <;> first | rfl | cases ha

theorem fragment_of_silent (formats : Formats) : a.fragment formats = none := by
  cases a <;> first | rfl | cases ha

end Silent

theorem success_of_invocation_eq_none {a : Action} (ha : a.invocation = none) :
    a.success = none := by
  cases a <;> first | rfl | cases ha

theorem failure_of_invocation_eq_none {a : Action} (ha : a.invocation = none) :
    a.failure = none := by
  cases a <;> first | rfl | cases ha

end Action

/-! ## What a fragment carries -/

theorem toolResultBody_get (capability : String) (correlation : Option String) (args : Value)
    (result : Except String Value) :
    let body := toolResultBody capability correlation args result
    body.get "capability" = some (.string capability) ∧
      body.get "correlation" = correlation.map .string ∧ body.get "args" = some args ∧
      body.get "result" = result.toOption ∧
      body.get "error" = match result with
        | .ok _ => none
        | .error message => some (.string message) := by
  cases correlation <;> cases result <;>
    simp [toolResultBody, Value.get, Value.asObject, SortedMap.get_insert, Except.toOption]

/-! ## What the report accounts for -/

/-- The report accounts for the `Invoke`s enacted so far. -/
structure RunReport.Accounts (report : RunReport) (h : List Action) : Prop where
  results : report.results = h.filterMap Action.success
  effected : report.effected = (h.filterMap Action.success).map Prod.fst
  failed : report.failed = h.filterMap Action.failure

namespace RunReport.Accounts

theorem append {report : RunReport} {h t : List Action} (hr : report.Accounts h)
    (ht : ∀ a ∈ t, a.invocation = none) : report.Accounts (h ++ t) := by
  have hsuccess : t.filterMap Action.success = [] :=
    List.filterMap_eq_nil_iff.mpr fun a ha => Action.success_of_invocation_eq_none (ht a ha)
  have hfailure : t.filterMap Action.failure = [] :=
    List.filterMap_eq_nil_iff.mpr fun a ha => Action.failure_of_invocation_eq_none (ht a ha)
  constructor
  · rw [List.filterMap_append, hsuccess, List.append_nil]
    exact hr.results
  · rw [List.filterMap_append, hsuccess, List.append_nil]
    exact hr.effected
  · rw [List.filterMap_append, hfailure, List.append_nil]
    exact hr.failed

/-- An `Invoke` that went through is reported with its result. -/
theorem succeed {report : RunReport} {h : List Action} (hr : report.Accounts h)
    (capability : String) (args : Value) (correlation : Option String) (value : Value) :
    RunReport.Accounts { report with
      effected := report.effected ++ [capability]
      results := report.results ++ [(capability, value)] }
      (h ++ [.invoked capability args correlation (.ok value)]) := by
  constructor
  · simp [hr.results, Action.success]
  · simp [hr.effected, Action.success]
  · simp [hr.failed, Action.failure]

/-- An `Invoke` that did not is reported as failed. -/
theorem fail {report : RunReport} {h : List Action} (hr : report.Accounts h)
    (capability : String) (args : Value) (correlation : Option String) (message : String) :
    RunReport.Accounts { report with failed := report.failed ++ [capability] }
      (h ++ [.invoked capability args correlation (.error message)]) := by
  constructor
  · simp [hr.results, Action.success]
  · simp [hr.effected, Action.success]
  · simp [hr.failed, Action.failure]

theorem nil : RunReport.empty.Accounts [] := ⟨rfl, rfl, rfl⟩

/-- The rest of the report does not matter. -/
theorem congr {report report' : RunReport} {h : List Action} (hr : report.Accounts h)
    (he : report'.effected = report.effected) (hres : report'.results = report.results)
    (hf : report'.failed = report.failed) : report'.Accounts h :=
  ⟨hres.trans hr.results, he.trans hr.effected, hf.trans hr.failed⟩

end RunReport.Accounts

/-- Each enacted `Invoke` is a success or a failure, and not both. -/
theorem length_success_add_length_failure (h : List Action) :
    (h.filterMap Action.success).length + (h.filterMap Action.failure).length =
      (h.filterMap Action.invocation).length := by
  induction h with
  | nil => rfl
  | cons a h ih =>
    cases a with
    | invoked capability args correlation result =>
      cases result with
      | ok value | error message =>
        simp only [List.filterMap_cons, Action.success, Action.failure, Action.invocation,
          List.length_cons]
        omega
    | _ =>
      simpa only [List.filterMap_cons, Action.success, Action.failure, Action.invocation] using ih

namespace Loop

variable {W O : Type} {L : Loop W} {obs : Observations W O} {ctx : Context} {o₀ o : O}

/-! ## What the provider sees -/

variable (L ctx) in
/-- Since `goal` was taken up, the fragments are those of the base context and of the `Invoke`s
enacted, and these are the ones of the decisions enacted and of the decision at hand, but for
those that are still to do. -/
structure FedBack (goal : Goal) (fragments : List Fragment) (todo doing : List Invocation)
    (h : List Action) : Prop where
  goal : latest Action.observedGoal h = some goal
  context : fragments = ctx.fragments ++
    (since Action.isObserved h).filterMap (Action.fragment L.formats)
  invocations : (since Action.isObserved h).filterMap Action.invocation ++ todo =
    ((since Action.isObserved h).filterMap Action.enactedDecision).flatMap Decision.invocations ++
      doing

namespace FedBack

variable {goal : Goal} {fragments : List Fragment} {todo doing : List Invocation}
  {h : List Action}

theorem append_silent (hf : L.FedBack ctx goal fragments todo doing h) {t : List Action}
    (ht : ∀ a ∈ t, a.silent = true) : L.FedBack ctx goal fragments todo doing (h ++ t) := by
  have hsince : since Action.isObserved (h ++ t) = since Action.isObserved h ++ t :=
    since_append_of_forall (fun a ha => Action.isObserved_of_silent (ht a ha)) h
  have hfragment : t.filterMap (Action.fragment L.formats) = [] :=
    List.filterMap_eq_nil_iff.mpr fun a ha => Action.fragment_of_silent (ht a ha) L.formats
  have hinvocation : t.filterMap Action.invocation = [] :=
    List.filterMap_eq_nil_iff.mpr fun a ha => Action.invocation_of_silent (ht a ha)
  have hdecision : t.filterMap Action.enactedDecision = [] :=
    List.filterMap_eq_nil_iff.mpr fun a ha => Action.enactedDecision_of_silent (ht a ha)
  constructor
  · rw [latest_append_of_forall fun a ha => Action.observedGoal_of_silent (ht a ha)]
    exact hf.goal
  · rw [hsince, List.filterMap_append, hfragment, List.append_nil]
    exact hf.context
  · rw [hsince, List.filterMap_append, hinvocation, List.append_nil, List.filterMap_append,
      hdecision, List.append_nil]
    exact hf.invocations

theorem observed (goal : Goal) (h : List Action) :
    L.FedBack ctx goal ctx.fragments [] [] (h ++ [.observed goal]) := by
  constructor
  · rw [latest_concat]
    rfl
  · rw [Action.since_observed, List.filterMap_nil, List.append_nil]
  · rw [Action.since_observed]
    rfl

/-- A decision is about to be enacted. -/
theorem decided (hf : L.FedBack ctx goal fragments [] [] h) (doing : List Invocation) :
    L.FedBack ctx goal fragments doing doing h := by
  have hinvocations := hf.invocations
  rw [List.append_nil, List.append_nil] at hinvocations
  exact ⟨hf.goal, hf.context, by rw [hinvocations]⟩

/-- An `Invoke` of the decision at hand is enacted. -/
theorem invoked {capability : String} {args : Value} {correlation : Option String}
    (hf : L.FedBack ctx goal fragments (⟨capability, args, correlation⟩ :: todo) doing h)
    (result : Except String Value) :
    L.FedBack ctx goal
      (fragments ++ [toolResultFragment L.formats capability correlation args result]) todo doing
      (h ++ [.invoked capability args correlation result]) := by
  have hsince : since Action.isObserved (h ++ [.invoked capability args correlation result]) =
      since Action.isObserved h ++ [.invoked capability args correlation result] :=
    since_append_of_forall (by simp [Action.isObserved]) h
  have hinvocations := hf.invocations
  constructor
  · rw [latest_concat]
    exact hf.goal
  · rw [hsince, hf.context, List.filterMap_append, List.append_assoc]
    rfl
  · rw [hsince, List.filterMap_append, List.filterMap_append, List.append_assoc]
    simpa [List.filterMap_cons, Action.invocation, Action.enactedDecision] using hinvocations

/-- All intents of the decision at hand are enacted. -/
theorem enacted {g : Goal} {d : Decision}
    (hf : L.FedBack ctx goal fragments [] d.invocations h) :
    L.FedBack ctx goal fragments [] [] (h ++ [.enacted g d]) := by
  have hsince : since Action.isObserved (h ++ [.enacted g d]) =
      since Action.isObserved h ++ [.enacted g d] :=
    since_append_of_forall (by simp [Action.isObserved]) h
  have hinvocations := hf.invocations
  constructor
  · rw [latest_concat]
    exact hf.goal
  · rw [hsince, hf.context, List.filterMap_append]
    simp [Action.fragment]
  · rw [hsince, List.filterMap_append, List.filterMap_append]
    simpa [List.filterMap_cons, Action.invocation, Action.enactedDecision] using hinvocations

end FedBack

variable (L ctx) in
/-- A `decide` is on the goal taken up last, with the base context and one fragment for each
`Invoke` enacted since, which are the `Invoke`s of the decisions enacted since. -/
def DecidesFedBack (pre : List Action) (a : Action) : Prop :=
  ∀ goal c, a = .decide goal c → L.FedBack ctx goal c.fragments [] [] pre

variable (L ctx) in
def FedBackAt : Point → List Action → Prop
  | .seeking report sd, h => report.Accounts h ∧ sd = none
  | .ready _ report sd, h => report.Accounts h ∧ sd = none
  | .compacting s, h => (s.report.Accounts h ∧ s.stallDetector = none) ∧
      L.FedBack ctx s.current s.workingCtx.fragments [] [] h
  | .top s, h => (s.report.Accounts h ∧ s.stallDetector = none) ∧
      L.FedBack ctx s.current s.workingCtx.fragments [] [] h
  | .deciding s, h => (s.report.Accounts h ∧ s.stallDetector = none) ∧
      L.FedBack ctx s.current s.workingCtx.fragments [] [] h
  | .enacting s d todo e, h => (e.report.Accounts h ∧ e.stallDetector = none) ∧
      L.FedBack ctx s.current (s.workingCtx.fragments ++ e.toolResults)
        (todo.filterMap ActionIntent.invocation) d.invocations h
  | .enacted s _ e, h => (e.report.Accounts h ∧ e.stallDetector = none) ∧
      L.FedBack ctx s.current (s.workingCtx.fragments ++ e.toolResults) [] [] h
  | .hung, _ => True
  | .ended report, h => report.Accounts h

theorem FedBackAt.append_silent {p : Point} {h t : List Action} (hh : L.FedBackAt ctx p h)
    (ht : ∀ a ∈ t, a.silent = true) : L.FedBackAt ctx p (h ++ t) := by
  have hnone : ∀ a ∈ t, a.invocation = none := fun a ha => Action.invocation_of_silent (ht a ha)
  cases p with
  | seeking report sd => exact ⟨hh.1.append hnone, hh.2⟩
  | ready goal report sd => exact ⟨hh.1.append hnone, hh.2⟩
  | hung => trivial
  | ended report => exact RunReport.Accounts.append hh hnone
  | _ => exact ⟨⟨hh.1.1.append hnone, hh.1.2⟩, hh.2.append_silent ht⟩

theorem stable_fedBackAt (p : Point) : L.pipeline.Stable L.scope (L.FedBackAt ctx p) := by
  intro h a ha _ hh
  apply hh.append_silent
  intro b hb
  rw [List.mem_singleton.mp hb]
  exact Action.silent_of_ofPipeline ha

theorem FedBackAt.dispatched {p : Point} {h : List Action} (capability : String) (args : Value)
    (correlation : Option String) (w : W) (hh : L.FedBackAt ctx p h) :
    L.FedBackAt ctx p (h ++ (L.dispatchInvoke capability args correlation w).1) :=
  Loop.dispatched (stable_fedBackAt p).lawful hh

theorem feedStall_of_eq_none {e : Enacting} (he : e.stallDetector = none) (capability : String)
    (args : Value) : L.feedStall e capability args = e := by
  unfold feedStall
  rw [he]

/-- The effect of a dispatch is of the capability that was asked for. -/
theorem capability_of_dispatchInvoke {capability : String} {args : Value}
    {correlation : Option String} {w w' : W} {eff : Effected}
    (hd : (L.dispatchInvoke capability args correlation w).2 = some (.ok eff, w')) :
    eff.capability = capability := by
  have hI : L.pipeline.Stable L.scope fun _ => True := fun _ _ _ _ _ => trivial
  have hpost := Eff.Triple.returns (Pipeline.dispatchWithInvoker_triple hI.lawful
    ⟨capability, args, correlation, L.scope⟩ rfl) (h := []) trivial hd
  exact hpost.2 eff rfl

theorem Moves.fedBack (hc : L.compactor = none) {p p' : Point} {o o' : O} {h t : List Action}
    (hm : L.Moves obs ctx p o t p' o') (hh : L.FedBackAt ctx p h) :
    L.FedBackAt ctx p' (h ++ t) := by
  -- most moves invoke nothing, and neither the invocations nor the report change with them
  have hsilent : ∀ {t}, (∀ a ∈ t, a.silent = true) → (L.FedBackAt ctx p (h ++ t) →
      L.FedBackAt ctx p' (h ++ t)) → L.FedBackAt ctx p' (h ++ t) :=
    fun ht hp => hp (hh.append_silent ht)
  cases hm with
  | next => exact hsilent (by simp) id
  | exhausted => exact hsilent (by simp) fun hh => hh.1.congr rfl rfl rfl
  | observe => exact ⟨⟨hh.1.append (by simp [Action.invocation]), hh.2⟩, .observed _ h⟩
  | compact hcompact =>
    refine hsilent (by simp) fun hh => ⟨hh.1, ?_⟩
    rw [compacts_of_compactor_eq_none hc hcompact]
    exact hh.2
  | decide => exact hsilent (by simp [Action.silent]) id
  | pending => exact hsilent (by simp) id
  | supersede => exact hsilent (by simp [Action.silent]) fun hh => hh.1
  | veto => exact hsilent (by simp [Action.silent]) fun hh => hh.1.1.congr rfl rfl rfl
  | decided =>
    refine hsilent (by simp [Action.silent]) fun hh => ⟨hh.1, ?_⟩
    rw [List.append_nil]
    exact hh.2.decided _
  | effect hd =>
    rename_i s d capability args correlation todo e w eff w'
    obtain ⟨⟨haccounts, hsd⟩, hfed⟩ := FedBackAt.dispatched capability args correlation w hh
    rw [feedStall_of_eq_none hsd, ← List.append_assoc, Enacting.effected,
      capability_of_dispatchInvoke hd]
    refine ⟨⟨haccounts.succeed capability args correlation eff.result, hsd⟩, ?_⟩
    rw [← List.append_assoc]
    exact hfed.invoked (.ok eff.result)
  | fail hd =>
    rename_i s d capability args correlation todo e w err w'
    obtain ⟨⟨haccounts, hsd⟩, hfed⟩ := FedBackAt.dispatched capability args correlation w hh
    rw [feedStall_of_eq_none hsd, ← List.append_assoc, Enacting.failed]
    have hinvoked : L.FedBackAt ctx (.enacting s d todo (e.failed L.formats capability correlation
        args (pipelineErrorMessage L.formats err))) (h ++ (L.dispatchInvoke capability args
          correlation w).1 ++ [.invoked capability args correlation
            (.error (pipelineErrorMessage L.formats err))]) := by
      refine ⟨⟨haccounts.fail capability args correlation _, hsd⟩, ?_⟩
      rw [Enacting.failed, ← List.append_assoc]
      exact hfed.invoked _
    -- a failure is announced by an event after it has been fed back
    have herror := hinvoked.append_silent
      (t := [.event (.pluginError capability (pipelineErrorMessage L.formats err))])
      (by simp [Action.silent])
    rwa [List.append_assoc] at herror
  | hang hd => trivial
  | express =>
    refine hsilent (by split <;> simp [Action.silent]) fun hh => ?_
    exact ⟨⟨hh.1.1.congr rfl rfl rfl, hh.1.2⟩, hh.2⟩
  | conclude => exact hsilent (by simp) id
  | enacted => exact ⟨⟨hh.1.1.append (by simp [Action.invocation]), hh.1.2⟩, hh.2.enacted⟩
  | finish => exact hsilent (by simp [Action.silent]) fun hh => hh.1.1.congr rfl rfl rfl
  | stepLimit => exact hsilent (by simp [Action.silent]) fun hh => hh.1.1.congr rfl rfl rfl
  | feedBack => exact hsilent (by simp) id
  | advance => exact hsilent (by simp) fun hh => hh.1

theorem Moves.decidesFedBack {p p' : Point} {o o' : O} {h t : List Action}
    (hm : L.Moves obs ctx p o t p' o') (hh : L.FedBackAt ctx p h)
    (hall : Always (L.DecidesFedBack ctx) h) : Always (L.DecidesFedBack ctx) (h ++ t) := by
  have hother : ∀ {h : List Action} {t}, (∀ a ∈ t, ∀ goal c, a ≠ .decide goal c) →
      Always (L.DecidesFedBack ctx) h → Always (L.DecidesFedBack ctx) (h ++ t) :=
    fun ht hall => hall.append_of_forall fun a ha _ goal c hc => absurd hc (ht a ha goal c)
  cases hm with
  | decide =>
    refine always_append_pair.mpr ⟨always_concat.mp (hother (by simp) hall), ?_⟩
    intro goal c hc
    cases hc
    exact hh.2.append_silent (by simp [Action.silent])
  | effect hd => exact hother (forall_mem_dispatchInvoke_append Action.ne_decide (by simp)) hall
  | fail hd => exact hother (forall_mem_dispatchInvoke_append Action.ne_decide (by simp)) hall
  | hang hd =>
    exact hother (fun a ha => Action.ne_decide (ofPipeline_of_mem_dispatchInvoke a ha)) hall
  | express => exact hother (by split <;> simp) hall
  | _ => exact hother (by simp) hall

theorem Reaches.fedBack (hc : L.compactor = none) (hs : L.stallDetector = none) {p : Point}
    {h : List Action} (hr : L.Reaches obs ctx o₀ p o h) :
    Always (L.DecidesFedBack ctx) h ∧ L.FedBackAt ctx p h :=
  hr.invariant (I := fun p _ h => Always (L.DecidesFedBack ctx) h ∧ L.FedBackAt ctx p h)
    ⟨always_nil _, .nil, hs⟩
    fun _ _ _ _ _ _ hh hm => ⟨hm.decidesFedBack hh.2 hh.1, hm.fedBack hc hh.2⟩

/-- Without a compactor and a stall detector, every `decide` sees the base context and one
fragment for each `Invoke` enacted since its goal was taken up, in order; these are the `Invoke`s
of the decisions enacted since; each fragment carries the exchange; and the report counts each
enacted `Invoke` as effected, with its result, or as failed. -/
theorem tool_feedback_lossless (L : Loop W) (hc : L.compactor = none)
    (hs : L.stallDetector = none) (obs : Observations W O) (ctx : Context) (fuel : ℕ)
    (w : W × O) :
    (∀ pre goal c post, (L.runSpan obs ctx fuel w).1 = pre ++ .decide goal c :: post →
      latest Action.observedGoal pre = some goal ∧
      c.fragments = ctx.fragments ++
        (since Action.isObserved pre).filterMap (Action.fragment L.formats) ∧
      (since Action.isObserved pre).filterMap Action.invocation =
        ((since Action.isObserved pre).filterMap Action.enactedDecision).flatMap
          Decision.invocations) ∧
    (∀ capability args correlation result, ∃ body,
      Action.fragment L.formats (.invoked capability args correlation result) =
        some ⟨toolResultChannel, L.formats.jsonText body⟩ ∧
      body.get "capability" = some (.string capability) ∧
      body.get "correlation" = correlation.map .string ∧ body.get "args" = some args ∧
      body.get "result" = result.toOption ∧
      body.get "error" = match result with
        | .ok _ => none
        | .error message => some (.string message)) ∧
    ∀ report w', (L.runSpan obs ctx fuel w).2 = some (report, w') →
      let h := (L.runSpan obs ctx fuel w).1
      report.results = h.filterMap Action.success ∧
      report.effected = report.results.map Prod.fst ∧
      report.failed = h.filterMap Action.failure ∧
      report.effected.length + report.failed.length = (h.filterMap Action.invocation).length := by
  refine ⟨?_, ?_, ?_⟩
  · intro pre goal c post ht
    -- the invariant of the loop holds at every point of the run, so at each `decide` in it
    obtain ⟨p, o, hr⟩ := exists_reaches L obs ctx fuel w
    have hfed := (hr.fedBack hc hs).1 pre _ post ht goal c rfl
    have hinvocations := hfed.invocations
    rw [List.append_nil, List.append_nil] at hinvocations
    exact ⟨hfed.goal, hfed.context, hinvocations⟩
  · intro capability args correlation result
    exact ⟨_, rfl, toolResultBody_get capability correlation args result⟩
  · intro report w' hres
    have haccounts : report.Accounts _ := ((reaches_ended hres).fedBack hc hs).2
    have hlength := length_success_add_length_failure (L.runSpan obs ctx fuel w).1
    refine ⟨haccounts.results, ?_, haccounts.failed, ?_⟩
    · rw [haccounts.effected, haccounts.results]
    · rw [haccounts.effected, haccounts.failed, List.length_map]
      exact hlength

/-- Echoes, and concludes once it is told of the echo. -/
def TellingProvider : Provider Unit where
  id := "provider.telling"
  decide _ ctx _ _ w :=
    (some ⟨if ctx.fragments.isEmpty then [.invoke "cap.echo" (.string "hi") none]
      else [.conclude .achieved]⟩, w)

def tellingLoop : Loop Unit :=
  .ofProvider (CapabilityRegistry.empty.insert ⟨"cap.echo", "echo", .null⟩) TellingProvider
    ⟨(JsonText.readsOnly []).write, id⟩

/-- The second decide sees the one echo. -/
theorem tool_feedback_lossless_telling : ∃ pre c post report w',
    tellingLoop.runSpan (Once Unit) ⟨[]⟩ 2 ((), some (tickGoal "g" 0)) =
      (pre ++ .decide (tickGoal "g" 0) c :: post, some (report, w')) ∧
    c.fragments = (since Action.isObserved pre).filterMap (Action.fragment tellingLoop.formats) ∧
    (since Action.isObserved pre).filterMap Action.invocation =
      [⟨"cap.echo", .string "hi", none⟩] ∧ c.fragments.length = 1 ∧
    report.effected = ["cap.echo"] ∧ report.effected = report.results.map Prod.fst ∧
    report.effected.length + report.failed.length = 1 := by
  obtain ⟨hdecides, -, hreport⟩ := tool_feedback_lossless tellingLoop rfl rfl (Once Unit) ⟨[]⟩ 2
    ((), some (tickGoal "g" 0))
  have hrun := (List.take_append_drop 15
    (tellingLoop.runSpan (Once Unit) ⟨[]⟩ 2 ((), some (tickGoal "g" 0))).1).symm
  obtain ⟨-, hfragments, -⟩ := hdecides _ _ _ _ hrun
  obtain ⟨-, heffected, -, hlength⟩ := hreport _ _ rfl
  exact ⟨_, _, _, _, _, Prod.ext hrun rfl, hfragments, rfl, rfl, rfl, heffected, hlength⟩

end Loop

end Pan
