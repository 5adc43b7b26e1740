import Pan.Clipping
import Pan.Codec

namespace Pan

/-! ## The wire protocol -/

inductive FromSkill where
  | invoke (id : ℕ) (capability : String) (args : Value)
  | return (value : Value)

/-- The member of a struct with this name, if it is there. It may not be there twice. -/
def uniqueMember (name : String) (members : List (String × Value)) : Option (Option Value) :=
  match members.filter fun m => m.1 = name with
  | [] => some none
  | [m] => some (some m.2)
  | _ => none

theorem plain_of_uniqueMember {name : String} {members : List (String × Value)} {v : Option Value}
    (h : uniqueMember name members = some v) (hmembers : (Value.object members).Plain) :
    (v.getD .null).Plain := by
  unfold uniqueMember at h
  split at h
  · cases h
    exact .null
  · rename_i m hfilter
    cases h
    have hm : m ∈ members := (List.mem_filter.mp (hfilter ▸ List.mem_singleton_self m)).1
    exact Value.plain_object.mp hmembers m hm
  · cases h

namespace FromSkill

/-- The tag in front or among the members, the fields by place or by name; `args` and `value` may be
left out. -/
def decode : Value → Option FromSkill
  | .object members => do
    let tag ← (← (← uniqueMember "type" members)).asStr
    match tag with
    | "invoke" =>
      let id ← decodeU64 (← (← uniqueMember "id" members))
      let capability ← (← (← uniqueMember "capability" members)).asStr
      let args ← uniqueMember "args" members
      return .invoke id capability (args.getD .null).collect
    | "return" =>
      let value ← uniqueMember "value" members
      return .return (value.getD .null).collect
    | _ => none
  -- `serde` takes a tagged enum as a sequence too
  | .array (tag :: fields) => do
    match ← tag.asStr, fields with
    | "invoke", [id, capability] =>
      return .invoke (← decodeU64 id) (← capability.asStr) .null
    | "invoke", [id, capability, args] =>
      return .invoke (← decodeU64 id) (← capability.asStr) args.collect
    | "return", [] => return .return .null
    | "return", [value] => return .return value.collect
    | _, _ => none
  | _ => none

def fromStr (J : JsonText) (line : String) : Option FromSkill := (J.read line).bind decode

/-- The fields of a request are in range. -/
theorem inRange {v args : Value} {id : ℕ} {capability : String}
    (h : decode v = some (.invoke id capability args)) (hv : v.Plain) :
    id < 2 ^ 64 ∧ args.Plain := by
  have hlt : ∀ {v n}, decodeU64 v = some n → n < 2 ^ 64 := lt_of_decodeNat
  unfold decode at h
  split at h
  · simp only [Option.bind_eq_bind, Option.bind_eq_some_iff] at h
    obtain ⟨_, -, _, -, tag, -, h⟩ := h
    split at h
    · simp only [Option.bind_eq_some_iff] at h
      obtain ⟨_, -, _, -, n, hn, _, -, _, -, _, -, args, hargs, h⟩ := h
      cases h
      exact ⟨hlt hn, (plain_of_uniqueMember hargs hv).collect⟩
    · simp only [Option.bind_eq_some_iff] at h
      obtain ⟨_, -, h⟩ := h
      cases h
    · cases h
  · rw [Value.plain_array] at hv
    simp only [Option.bind_eq_bind, Option.bind_eq_some_iff] at h
    obtain ⟨tag, -, h⟩ := h
    split at h
    · simp only [Option.bind_eq_some_iff] at h
      obtain ⟨n, hn, _, -, h⟩ := h
      cases h
      exact ⟨hlt hn, .null⟩
    · simp only [Option.bind_eq_some_iff] at h
      obtain ⟨n, hn, _, -, h⟩ := h
      cases h
      exact ⟨hlt hn, (hv _ (by simp)).collect⟩
    all_goals cases h
  · cases h

end FromSkill

def RESULT_TYPE : String := "result"

def InvokeError.display : InvokeError → String
  | notFound capability => s!"no such capability `{capability}`"
  | invalidArgs capability reason => s!"invalid args for `{capability}`: {reason}"
  | denied capability reason => s!"denied `{capability}`: {reason}"
  | failed capability reason => s!"`{capability}` failed: {reason}"

def InvokeError.kind : InvokeError → String
  | notFound _ => "not_found"
  | invalidArgs _ _ => "invalid_args"
  | denied _ _ => "denied"
  | failed _ _ => "failed"

def invokeErrorInfo (err : InvokeError) : Value :=
  .ofFields [("kind", .string err.kind), ("message", .string err.display)]

def resultMessage (id : ℕ) (ok : Bool) (value error : Option Value) : Value :=
  .ofFields ([("type", .string RESULT_TYPE), ("id", natTree id), ("ok", .bool ok)] ++
    (value.map fun v => ("value", v)).toList ++ (error.map fun e => ("error", e)).toList)

theorem plain_resultMessage {id : ℕ} (hid : id < 2 ^ 64) (ok : Bool) {value error : Option Value}
    (hvalue : ∀ v ∈ value, v.Plain) (herror : ∀ e ∈ error, e.Plain) :
    (resultMessage id ok value error).Plain := by
  refine .object fun m hm => ?_
  have hmem := SortedMap.mem_of_mem_ofList hm
  simp only [List.mem_append, List.mem_cons, List.not_mem_nil, or_false, Option.mem_toList,
    Option.map_eq_some_iff] at hmem
  obtain ((rfl | rfl | rfl) | ⟨v, hv, rfl⟩) | ⟨e, he, rfl⟩ := hmem
  · exact .string _
  · exact .number hid
  · exact .bool ok
  · exact hvalue v hv
  · exact herror e he

theorem invokeErrorInfo_eq (err : InvokeError) : invokeErrorInfo err =
    .object [("kind", .string err.kind), ("message", .string err.display)] := by
  refine congrArg Value.object (SortedMap.ofList_of_ascending ?_)
  unfold SortedMap.Ascending
  simp only [List.pairwise_cons, List.mem_singleton, forall_eq, List.not_mem_nil,
    IsEmpty.forall_iff, implies_true, List.Pairwise.nil, and_true]
  decide

theorem plain_invokeErrorInfo (err : InvokeError) : (invokeErrorInfo err).Plain := by
  refine .object fun m hm => ?_
  have hmem := SortedMap.mem_of_mem_ofList hm
  simp only [List.mem_cons, List.not_mem_nil, or_false] at hmem
  obtain rfl | rfl := hmem <;> exact .string _

/-! ## The runner -/

inductive SkillError where
  | spawn (reason : String)
  | protocol (line detail : String)
  | noReturn (stderr : String) (code : Option ℤ)
  | io (reason : String)

structure SkillCommand where
  program : String
  args : List String
  env : List (String × String)

structure SkillExit where
  stderr : String
  code : Option ℤ

/-- A bare end of the output is given what is known of the exit. -/
def SkillExit.enrich (exit : SkillExit) : Except SkillError Value → Except SkillError Value
  | .error (.noReturn _ _) => .error (.noReturn exit.stderr exit.code)
  | other => other

/-- A skill that was started: the lines that are read of it, or the errors of reading, and how it
exits. It may also stay without exiting. -/
structure SkillProcess where
  output : List (Except String String)
  exit : Option SkillExit

/-- What the runner does that is seen from outside. -/
inductive SkillAction where
  | invoke (capability : String) (args : Value)
  /-- An action of the invoker. -/
  | acted (action : Action)
  /-- To the skill's stdin. -/
  | write (text : String)

structure SkillHost where
  json : JsonText
  /-- Why a text is not a message, in the words of `serde_json`. -/
  detail : String → String
  spawn : SkillCommand → Except String SkillProcess

namespace SkillHost

variable (H : SkillHost) {W : Type} (invoker : ScopedInvoker W)

/-- One `result` line, with its line feed. -/
def resultLine (id : ℕ) (ok : Bool) (value error : Option Value) : String :=
  H.json.write (resultMessage id ok value error) ++ "\n"

def loop : List (Except String String) → Eff SkillAction W (Except SkillError Value)
  -- the output has ended without a return
  | [] => return .error (.noReturn "" none)
  | .error e :: _ => return .error (.io e)
  | .ok line :: output =>
    if isBlank line then loop output
    else match FromSkill.fromStr H.json line with
      | none => return .error (.protocol line (H.detail line))
      | some (.return value) => return .ok value
      | some (.invoke id capability args) => do
        Eff.emit (.invoke capability args)
        let response := match ← (invoker capability args).mapActions .acted with
          | .ok value => H.resultLine id true (some value) none
          | .error err => H.resultLine id false none (some (invokeErrorInfo err))
        Eff.emit (.write response)
        loop output

end SkillHost

structure SkillRunner where
  program : String
  programArgs : List String
  libDir : String

namespace SkillRunner

variable (runner : SkillRunner) (H : SkillHost) {W : Type}

def command (skillPath : String) (input : Value) : SkillCommand where
  program := runner.program
  args := runner.programArgs ++ [skillPath]
  env := [("PYTHONPATH", runner.libDir), ("PYTHONUNBUFFERED", "1"),
    ("PAN_SKILL_INPUT", H.json.write input)]

def run (skillPath : String) (input : Value) (invoker : ScopedInvoker W) :
    Eff SkillAction W (Except SkillError Value) :=
  match H.spawn (runner.command H skillPath input) with
  | .error e => return .error (.spawn e)
  | .ok process => do
    let outcome ← H.loop invoker process.output
    match process.exit with
    | none => Eff.never
    | some exit => return exit.enrich outcome

end SkillRunner

/-! ## The conversation -/

structure SkillRequest where
  id : ℕ
  capability : String
  args : Value

/-- What is read of a skill: nothing, a request, or how the conversation ends. -/
inductive SkillEvent where
  | blank
  | request (r : SkillRequest)
  | ending (outcome : Except SkillError Value)

namespace SkillEvent

def goesOn : SkillEvent → Bool
  | ending _ => false
  | _ => true

def request? : SkillEvent → Option SkillRequest
  | request r => some r
  | _ => none

def ending? : SkillEvent → Option (Except SkillError Value)
  | ending outcome => some outcome
  | _ => none

end SkillEvent

namespace SkillHost

variable (H : SkillHost) {W : Type} (invoker : ScopedInvoker W)

def event : Except String String → SkillEvent
  | .error e => .ending (.error (.io e))
  | .ok line =>
    if isBlank line then .blank
    else match FromSkill.fromStr H.json line with
      | none => .ending (.error (.protocol line (H.detail line)))
      | some (.return value) => .ending (.ok value)
      | some (.invoke id capability args) => .request ⟨id, capability, args⟩

def requests (output : List (Except String String)) : List SkillRequest :=
  ((output.map H.event).takeWhile SkillEvent.goesOn).filterMap SkillEvent.request?

/-- How the conversation ends: with the first event that does, or with the skill. -/
def ending (output : List (Except String String)) (exit : SkillExit) : Except SkillError Value :=
  ((output.map H.event).findSome? SkillEvent.ending?).getD
    (.error (.noReturn exit.stderr exit.code))

end SkillHost

/-- The kind and the message in which an error is told. -/
inductive ToldAs : InvokeError → String → String → Prop
  | notFound (capability : String) :
      ToldAs (.notFound capability) "not_found" s!"no such capability `{capability}`"
  | invalidArgs (capability reason : String) : ToldAs (.invalidArgs capability reason)
      "invalid_args" s!"invalid args for `{capability}`: {reason}"
  | denied (capability reason : String) :
      ToldAs (.denied capability reason) "denied" s!"denied `{capability}`: {reason}"
  | failed (capability reason : String) :
      ToldAs (.failed capability reason) "failed" s!"`{capability}` failed: {reason}"

/-- The text is one line that gives the outcome to the request. -/
def ResultFor (J : JsonText) (r : SkillRequest) (outcome : Except InvokeError Value)
    (text : String) : Prop :=
  ∃ msg : Value, text = J.write msg ++ "\n" ∧ '\n' ∉ (J.write msg).toList ∧
    msg.get "type" = some (.string "result") ∧ msg.get "id" = some (natTree r.id) ∧
    match outcome with
    | .ok value => msg.get "ok" = some (.bool true) ∧ msg.get "value" = some value ∧
        msg.get "error" = none
    | .error err => msg.get "ok" = some (.bool false) ∧ msg.get "value" = none ∧
        ∃ kind message, ToldAs err kind message ∧ msg.get "error" = some (.object
          [("kind", .string kind), ("message", .string message)])

/-- The requests are served one after another: for each the invoker is called, and when it is done
its outcome is written. In the end there is a world, unless the invoker never came back. -/
inductive Serves {W : Type} (J : JsonText) (invoker : ScopedInvoker W) :
    W → List SkillRequest → List SkillAction → Option W → Prop
  | done (w : W) : Serves J invoker w [] [] (some w)
  | answered {r : SkillRequest} {rs : List SkillRequest} {w w' : W} {after : Option W}
      {actions : List Action} {outcome : Except InvokeError Value} {text : String}
      {trace : List SkillAction} :
      invoker r.capability r.args w = (actions, some (outcome, w')) → ResultFor J r outcome text →
      Serves J invoker w' rs trace after →
      Serves J invoker w (r :: rs)
        (.invoke r.capability r.args :: actions.map .acted ++ .write text :: trace) after
  | stuck {r : SkillRequest} {rs : List SkillRequest} {w : W} {actions : List Action} :
      invoker r.capability r.args w = (actions, none) →
      Serves J invoker w (r :: rs) (.invoke r.capability r.args :: actions.map .acted) none

/-- To args in range the invoker answers with values in range. -/
def PlainAnswers {W : Type} (invoker : ScopedInvoker W) : Prop :=
  ∀ capability args w v w', args.Plain →
    (invoker capability args w).2 = some (.ok v, w') → v.Plain

namespace SkillHost

variable {H : SkillHost} {W : Type} {invoker : ScopedInvoker W}

def answer (H : SkillHost) (id : ℕ) : Except InvokeError Value → String
  | .ok value => H.resultLine id true (some value) none
  | .error err => H.resultLine id false none (some (invokeErrorInfo err))

theorem resultFor_answer (hJ : H.json.FloatsOnOneLine) {r : SkillRequest} (hid : r.id < 2 ^ 64)
    {outcome : Except InvokeError Value} (hvalue : ∀ v, outcome = .ok v → v.Plain) :
    ResultFor H.json r outcome (H.answer r.id outcome) := by
  have honeLine : ∀ {msg : Value}, msg.Plain → '\n' ∉ (H.json.write msg).toList := fun hmsg => by
    rw [JsonText.write, String.toList_ofList]
    exact JsonText.newline_notMem_chars hJ hmsg
  cases outcome with
  | ok v =>
    refine ⟨resultMessage r.id true (some v) none, rfl, honeLine ?_, ?_⟩
    · refine plain_resultMessage hid true (fun _ h => ?_) (by simp)
      cases h
      exact hvalue v rfl
    · simp [resultMessage, RESULT_TYPE, Value.get_ofFields, SortedMap.last]
  | error err =>
    refine ⟨resultMessage r.id false none (some (invokeErrorInfo err)), rfl, honeLine ?_, ?_⟩
    · refine plain_resultMessage hid false (by simp) fun _ h => ?_
      cases h
      exact plain_invokeErrorInfo err
    · have htold : ToldAs err err.kind err.display := by cases err <;> constructor
      simp only [resultMessage, Value.get_ofFields]
      exact ⟨rfl, rfl, rfl, rfl, err.kind, err.display, htold,
        congrArg some (invokeErrorInfo_eq err)⟩

theorem inRange_of_event (hread : H.json.ReadsPlain) {o : Except String String} {r : SkillRequest}
    (h : H.event o = .request r) : r.id < 2 ^ 64 ∧ r.args.Plain := by
  cases o with
  | error e => cases h
  | ok line =>
    unfold event at h
    dsimp only at h
    split_ifs at h
    split at h
    · cases h
    · cases h
    · rename_i hline
      cases h
      obtain ⟨v, hv, hdecode⟩ := Option.bind_eq_some_iff.mp hline
      exact FromSkill.inRange hdecode (hread _ _ hv)

section Cons

variable (o : Except String String) (output : List (Except String String))

theorem requests_cons : H.requests (o :: output) = match H.event o with
    | .blank => H.requests output
    | .request r => r :: H.requests output
    | .ending _ => [] := by
  unfold requests
  rw [List.map_cons, List.takeWhile_cons]
  cases H.event o <;> rfl

theorem ending_cons (exit : SkillExit) : H.ending (o :: output) exit = match H.event o with
    | .ending outcome => outcome
    | _ => H.ending output exit := by
  unfold ending
  rw [List.map_cons, List.findSome?_cons]
  cases H.event o <;> rfl

theorem loop_cons : H.loop invoker (o :: output) = match H.event o with
    | .blank => H.loop invoker output
    | .request r => do
      Eff.emit (.invoke r.capability r.args)
      let outcome ← (invoker r.capability r.args).mapActions .acted
      Eff.emit (.write (H.answer r.id outcome))
      H.loop invoker output
    | .ending outcome => return outcome := by
  cases o with
  | error e => rfl
  | ok line =>
    rw [loop, event]
    -- the loop makes of a line what the event says
    by_cases hblank : isBlank line = true
    · rw [if_pos hblank, if_pos hblank]
    · rw [if_neg hblank, if_neg hblank]
      rcases FromSkill.fromStr H.json line with _ | ⟨id, capability, args⟩ | value
      · rfl
      · refine congrArg (Eff.emit _ >>= ·) (funext fun _ => congrArg (_ >>= ·) (funext ?_))
        rintro (err | value) <;> rfl
      · rfl

end Cons

/-- After what goes on the loop goes on with the rest. -/
theorem loop_append {before : List (Except String String)}
    (hbefore : ∀ o ∈ before, (H.event o).goesOn) (output : List (Except String String)) :
    H.loop invoker (before ++ output) =
      H.loop invoker before >>= fun _ => H.loop invoker output := by
  have hlawful := Eff.lawfulMonad (Λ := SkillAction) (W := W)
  induction before with
  | nil => exact (pure_bind _ _).symm
  | cons o before ih =>
    obtain ⟨ho, hbefore⟩ := List.forall_mem_cons.mp hbefore
    rw [List.cons_append, loop_cons, loop_cons, ih hbefore]
    rcases hevent : H.event o with _ | r | outcome
    · rfl
    · simp only [bind_assoc]
    · rw [hevent] at ho
      cases ho

/-- The loop serves the requests that it hears, and ends as the conversation does. -/
theorem loop_serves (hJ : H.json.FloatsOnOneLine) (hread : H.json.ReadsPlain)
    (hvalue : PlainAnswers invoker) (output : List (Except String String)) (w : W) :
    ∃ trace after, Serves H.json invoker w (H.requests output) trace after ∧
      H.loop invoker output w =
        (trace, after.map fun w' => (H.ending output ⟨"", none⟩, w')) := by
  induction output generalizing w with
  | nil => exact ⟨[], some w, .done w, rfl⟩
  | cons o output ih =>
    rw [requests_cons, ending_cons, loop_cons]
    rcases hevent : H.event o with _ | r | outcome
    · exact ih w
    · dsimp only
      rw [Eff.emit_bind_apply]
      -- the invoker never comes back, or its outcome is written and the loop goes on
      rcases hcall : invoker r.capability r.args w with ⟨actions, _ | ⟨outcome, w'⟩⟩
      · have hstuck : ((invoker r.capability r.args).mapActions SkillAction.acted w).2 = none := by
          rw [Eff.mapActions, hcall]
        refine ⟨_, none, .stuck hcall, ?_⟩
        rw [Eff.bind_of_none hstuck, Eff.mapActions, hcall]
        rfl
      · have hdone : ((invoker r.capability r.args).mapActions SkillAction.acted w).2 =
            some (outcome, w') := by
          rw [Eff.mapActions, hcall]
        have hresult : ResultFor H.json r outcome (H.answer r.id outcome) := by
          obtain ⟨hid, hargs⟩ := inRange_of_event hread hevent
          refine resultFor_answer hJ hid ?_
          rintro v rfl
          exact hvalue _ _ w v w' hargs (by rw [hcall])
        obtain ⟨trace, after, hserves, hloop⟩ := ih w'
        refine ⟨_, after, .answered hcall hresult hserves, ?_⟩
        rw [Eff.bind_of_some hdone, Eff.emit_bind_apply, hloop, Eff.mapActions, hcall]
        rfl
    · exact ⟨[], some w, .done w, rfl⟩

end SkillHost

def SkillAction.call? : SkillAction → Option (String × Value)
  | invoke capability args => some (capability, args)
  | _ => none

namespace Serves

variable {W : Type} {J : JsonText} {invoker : ScopedInvoker W} {w : W} {rs : List SkillRequest}
  {trace : List SkillAction} {after : Option W}

theorem filterMap_call_acted (actions : List Action) :
    (actions.map SkillAction.acted).filterMap SkillAction.call? = [] := by
  rw [List.filterMap_map]
  exact List.filterMap_eq_nil_iff.mpr fun _ _ => rfl

/-- The invoker is called for the requests in their order, and for all of them if it always comes
back. -/
theorem calls (h : Serves J invoker w rs trace after) :
    trace.filterMap SkillAction.call? <+: rs.map (fun r => (r.capability, r.args)) ∧
      (after.isSome →
        trace.filterMap SkillAction.call? = rs.map fun r => (r.capability, r.args)) := by
  induction h with
  | done w => exact ⟨List.prefix_rfl, fun _ => rfl⟩
  | answered _ _ _ ih =>
    rw [List.cons_append, List.filterMap_cons, List.filterMap_append, filterMap_call_acted]
    exact ⟨List.cons_prefix_cons.mpr ⟨rfl, ih.1⟩, fun hafter => congrArg _ (ih.2 hafter)⟩
  | stuck _ =>
    rw [List.filterMap_cons, filterMap_call_acted]
    exact ⟨List.cons_prefix_cons.mpr ⟨rfl, List.nil_prefix⟩, fun h => nomatch h⟩

end Serves

namespace SkillHost

variable {H : SkillHost} {W : Type} {invoker : ScopedInvoker W}

theorem enrich_of_event {o : Except String String} {outcome : Except SkillError Value}
    (h : H.event o = .ending outcome) (exit : SkillExit) : exit.enrich outcome = outcome := by
  cases o with
  | error e => cases h; rfl
  | ok line =>
    unfold event at h
    dsimp only at h
    split_ifs at h
    split at h <;> cases h <;> rfl

theorem enrich_ending (output : List (Except String String)) (exit : SkillExit) :
    exit.enrich (H.ending output ⟨"", none⟩) = H.ending output exit := by
  induction output with
  | nil => rfl
  | cons o output ih =>
    rw [ending_cons, ending_cons]
    rcases hevent : H.event o with _ | r | outcome
    · exact ih
    · exact ih
    · exact enrich_of_event hevent exit

end SkillHost

namespace SkillRunner

variable {runner : SkillRunner} {H : SkillHost} {W : Type} {invoker : ScopedInvoker W}

/-- What a run does is what its loop does. -/
theorem actions_run {skillPath : String} {input : Value} {process : SkillProcess}
    (hspawn : H.spawn (runner.command H skillPath input) = .ok process) (w : W) :
    (runner.run H skillPath input invoker w).1 = (H.loop invoker process.output w).1 := by
  unfold run
  rw [hspawn]
  refine Eff.actions_bind_of_silent (fun outcome w' => ?_) w
  cases process.exit <;> rfl

end SkillRunner

/-- A skill that was started is served for its requests, up to the first line that returns or is
none of the protocol, and the run ends as its output does. It ends unless the invoker never comes
back or the skill never exits. -/
theorem SkillRunner.run_converses (runner : SkillRunner) (H : SkillHost)
    (hJ : H.json.FloatsOnOneLine) (hread : H.json.ReadsPlain) {W : Type}
    {invoker : ScopedInvoker W} (hvalue : PlainAnswers invoker)
    (skillPath : String) (input : Value) {process : SkillProcess}
    (hspawn : H.spawn (runner.command H skillPath input) = .ok process) (w : W) :
    ∃ trace after, Serves H.json invoker w (H.requests process.output) trace after ∧
      trace.filterMap SkillAction.call? <+:
        (H.requests process.output).map (fun r => (r.capability, r.args)) ∧
      (after.isSome → trace.filterMap SkillAction.call? =
        (H.requests process.output).map fun r => (r.capability, r.args)) ∧
      runner.run H skillPath input invoker w = (trace, after.bind fun w' =>
        process.exit.map fun exit => (H.ending process.output exit, w')) := by
  obtain ⟨trace, after, hserves, hloop⟩ := SkillHost.loop_serves hJ hread hvalue process.output w
  obtain ⟨hcalls, hall⟩ := hserves.calls
  refine ⟨trace, after, hserves, hcalls, hall, ?_⟩
  unfold run
  rw [hspawn]
  dsimp only
  cases after with
  | none =>
    rw [Eff.bind_of_none (by rw [hloop]; rfl), hloop]
    rfl
  | some w' =>
    rw [Eff.bind_of_some (by rw [hloop]; rfl), hloop]
    rcases process.exit with _ | exit
    · exact congrArg (·, none) (List.append_nil trace)
    · show (trace ++ [], some (exit.enrich _, w')) = (trace, some (_, w'))
      rw [List.append_nil, SkillHost.enrich_ending]

def askLine : String := "\x7b\"type\":\"invoke\",\"id\":1,\"capability\":\"cap.echo\"\x7d"

def askTree : Value :=
  .object [("type", .string "invoke"), ("id", natTree 1), ("capability", .string "cap.echo")]

def shellLine : String :=
  "\x7b\"type\":\"invoke\",\"id\":2,\"capability\":\"cap.shell\",\"args\":[\"ls\"]\x7d"

def shellTree : Value :=
  .object [("type", .string "invoke"), ("id", natTree 2), ("capability", .string "cap.shell"),
    ("args", .array [.string "ls"])]

def returnLine : String := "\x7b\"type\":\"return\",\"value\":true\x7d"

def returnTree : Value := .object [("type", .string "return"), ("value", .bool true)]

def asksTwice : SkillHost where
  json := .readsOnly [(askLine, askTree), (shellLine, shellTree), (returnLine, returnTree)]
  detail _ := ""
  spawn _ := .ok ⟨[.ok askLine, .ok shellLine, .ok returnLine], some ⟨"", some 0⟩⟩

/-- What is asked of `cap.echo` is its answer, and nothing else may be asked. -/
def echoes : ScopedInvoker Unit := fun capability args =>
  return if capability = "cap.echo" then .ok args else .error (.denied capability "no grant")

/-- Both requests are served, the second with a denial, and the value is returned. -/
theorem SkillRunner.run_converses_twice : ∃ trace after,
    Serves asksTwice.json echoes ()
      [⟨1, "cap.echo", .null⟩, ⟨2, "cap.shell", .array [.string "ls"]⟩] trace after ∧
    trace.filterMap SkillAction.call? <+:
      [("cap.echo", .null), ("cap.shell", .array [.string "ls"])] ∧
    (after.isSome → trace.filterMap SkillAction.call? =
      [("cap.echo", .null), ("cap.shell", .array [.string "ls"])]) ∧
    run ⟨"python3", [], "lib"⟩ asksTwice "ask.py" .null echoes () =
      (trace, after.bind fun w' => some (.ok (.bool true), w')) := by
  have hnodup : [askLine, shellLine, returnLine].Nodup := by
    simp [askLine, shellLine, returnLine]
  have hread : ∀ p ∈ [(askLine, askTree), (shellLine, shellTree), (returnLine, returnTree)],
      asksTwice.json.read p.1 = some p.2 := by
    intro p hp
    exact JsonText.read_readsOnly (by exact hnodup) hp
  have hask : asksTwice.event (.ok askLine) = .request ⟨1, "cap.echo", .null⟩ := by
    have hblank : isBlank askLine = false := rfl
    have htree : asksTwice.json.read askLine = some askTree := hread (askLine, askTree) (by simp)
    have hdecode : FromSkill.decode askTree = some (.invoke 1 "cap.echo" .null) := by
      simp [askTree, FromSkill.decode, uniqueMember, natTree, decodeU64, decodeNat, Value.asStr]
    rw [SkillHost.event, hblank, FromSkill.fromStr, htree, Option.bind_some, hdecode]
    rfl
  have hshell : asksTwice.event (.ok shellLine) =
      .request ⟨2, "cap.shell", .array [.string "ls"]⟩ := by
    have hblank : isBlank shellLine = false := rfl
    have htree : asksTwice.json.read shellLine = some shellTree :=
      hread (shellLine, shellTree) (by simp)
    have hdecode : FromSkill.decode shellTree =
        some (.invoke 2 "cap.shell" (.array [.string "ls"])) := by
      simp [shellTree, FromSkill.decode, uniqueMember, natTree, decodeU64, decodeNat, Value.asStr,
        Value.collect_array]
    rw [SkillHost.event, hblank, FromSkill.fromStr, htree, Option.bind_some, hdecode]
    rfl
  have hreturn : asksTwice.event (.ok returnLine) = .ending (.ok (.bool true)) := by
    have hblank : isBlank returnLine = false := rfl
    have htree : asksTwice.json.read returnLine = some returnTree :=
      hread (returnLine, returnTree) (by simp)
    have hdecode : FromSkill.decode returnTree = some (.return (.bool true)) := by
      simp [returnTree, FromSkill.decode, uniqueMember, Value.asStr, Value.collect]
    rw [SkillHost.event, hblank, FromSkill.fromStr, htree, Option.bind_some, hdecode]
    rfl
  have hrequests : asksTwice.requests [.ok askLine, .ok shellLine, .ok returnLine] =
      [⟨1, "cap.echo", .null⟩, ⟨2, "cap.shell", .array [.string "ls"]⟩] := by
    rw [SkillHost.requests_cons, hask, SkillHost.requests_cons, hshell, SkillHost.requests_cons,
      hreturn]
  have hending : asksTwice.ending [.ok askLine, .ok shellLine, .ok returnLine] ⟨"", some 0⟩ =
      .ok (.bool true) := by
    rw [SkillHost.ending_cons, hask, SkillHost.ending_cons, hshell, SkillHost.ending_cons, hreturn]
  have hplain : asksTwice.json.ReadsPlain := by
    have hid : ∀ n < 2 ^ 64, (natTree n).Plain := fun n hn => .number hn
    exact JsonText.readsPlain_readsOnly
      (by simp [askTree, shellTree, returnTree, hid, Value.Plain.bool])
  have hvalue : PlainAnswers echoes := by
    intro capability args w v w' hargs h
    simp only [echoes, Eff.pure_apply] at h
    split_ifs at h <;> cases h
    exact hargs
  have hrun := run_converses ⟨"python3", [], "lib"⟩ asksTwice JsonText.floatsOnOneLine_readsOnly
    hplain hvalue "ask.py" .null rfl ()
  simpa only [hrequests, hending, List.map_cons, List.map_nil, Option.map_some] using hrun

end Pan
