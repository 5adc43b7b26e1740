import Pan.Commands
import Pan.Routing
import Pan.SchemaAgreement
import Pan.StateCaps

namespace Pan

open Eff

/-! ## The session -/

/-- What a session does: the actions of its spans, and what it writes. -/
inductive CliAction where
  | acted (action : Action)
  | wrote (text : String)

namespace Cli

def output (actions : List CliAction) : List String :=
  actions.filterMap fun
    | .wrote text => some text
    | .acted _ => none

def renderResult (J : JsonText) (capability : String) (result : Value) : String :=
  match (result.get "stdout").bind Value.asStr with
  | some stdout =>
    let out := CommandProvider.trimEnd stdout
    match (result.get "stderr").bind Value.asStr with
    | some stderr =>
      let stderr := CommandProvider.trimEnd stderr
      if stderr = "" then out
      else if out = "" then stderr
      else out ++ "\n" ++ stderr
    | none => out
  | none =>
    -- other results are not shown
    if capability = "cap.state.get" then
      match result.get "value" with
      | some value => "= " ++ J.write value
      | none => ""
    else ""

def rendered (J : JsonText) (report : RunReport) : List String :=
  report.expressed.map (· ++ "\n") ++
    ((report.results.map fun r => renderResult J r.1 r.2).filter (· ≠ "")).map (· ++ "\n") ++
    report.failed.map fun failed => s!"[error] capability `{failed}` failed\n"

def turnGoal (turn : ℕ) (line : String) : Goal :=
  ⟨s!"turn-{turn}", 0, line, .utterance "user" line⟩

section Session

variable {W : Type} (agent : AssembledAgent W) (formats : Formats) (J : JsonText)
  (commit : ContextAssembler W → Goal → RunReport → Call W Unit) (fuel : ℕ)

def writeAll : List String → Eff CliAction W Unit
  | [] => return ()
  | text :: texts => do
    emit (.wrote text)
    writeAll texts

/-- One line of input: a span in the context that is assembled for it. -/
def takeTurn (turn : ℕ) (line : String) : Eff CliAction W Unit := do
  let goal := turnGoal turn line
  let ctx ← match agent.contextAssembler with
    | some assembler => call (assembler.assemble goal)
    | none => pure ⟨[]⟩
  let report ← (agent.serve formats false goal ctx fuel).mapActions .acted
  match agent.contextAssembler with
  | some assembler => call (commit assembler goal report)
  | none => pure ()
  writeAll (rendered J report)

/-- The lines as they are read, up to an error of the reader. -/
def runSession : ℕ → List (Except String String) → Eff CliAction W (Except String Unit)
  | _, [] => return .ok ()
  | _, .error e :: _ => return .error e
  | turn, .ok raw :: lines =>
    let line := trim raw
    if line = "" then runSession turn lines
    else if line = "/quit" ∨ line = "/exit" then return .ok ()
    else do
      takeTurn agent formats J commit fuel (turn + 1) line
      runSession (turn + 1) lines

end Session

end Cli

/-! ## The store behind the commands -/

/-- In a list without an id twice every capability is found. -/
theorem lookup_foldl_register {caps : List Capability} (hnodup : (caps.map Capability.id).Nodup)
    {reg : CapabilityRegistry} (hfree : ∀ cap ∈ caps, reg.lookup cap.id = none) (id : String) :
    (caps.foldl (fun reg cap => (reg.register cap).toOption.getD reg) reg).lookup id =
      (caps.find? fun cap => cap.id = id).or (reg.lookup id) := by
  induction caps generalizing reg with
  | nil => rfl
  | cons first caps ih =>
    obtain ⟨hfirst, hcaps⟩ := List.forall_mem_cons.mp hfree
    rw [List.map_cons, List.nodup_cons] at hnodup
    have hregister : (reg.register first).toOption.getD reg = reg.insert first := by
      unfold CapabilityRegistry.register
      rw [hfirst]
      rfl
    have hne : ∀ cap ∈ caps, cap.id ≠ first.id := fun cap hcap h =>
      hnodup.1 (h ▸ List.mem_map_of_mem hcap)
    rw [List.foldl_cons, hregister, ih hnodup.2, CapabilityRegistry.lookup_insert, List.find?_cons]
    · by_cases hid : first.id = id
      · subst hid
        have hnone : caps.find? (fun cap => cap.id = first.id) = none :=
          List.find?_eq_none.mpr fun cap hcap => by simpa using hne cap hcap
        simp [hnone]
      · have hid' : ¬id = first.id := fun h => hid h.symm
        simp [hid, hid']
    · intro cap hcap
      rw [CapabilityRegistry.lookup_insert, if_neg (hne cap hcap)]
      exact hcaps cap hcap

/-- An object with the keys that are asked for passes. -/
theorem check_requiring {keys : List String} {args : Value} (hobject : args.isObject = true)
    (hkeys : ∀ key ∈ keys, (args.get key).isSome) :
    minimalSchemaCheck (requiring keys) args = .ok () := by
  have htype : checkType [("required", .array (keys.map .string)), ("type", .string "object")]
      args = .ok () := by
    unfold checkType
    simp [SortedMap.get, Value.asStr, matchesType, hobject]
  have hstrings : (keys.map Value.string).filterMap Value.asStr = keys := by
    rw [List.filterMap_map]
    exact List.filterMap_some
  have hrequired : checkRequired [("required", .array (keys.map .string)),
      ("type", .string "object")] args = .ok () := by
    unfold checkRequired
    have hfind : keys.find? (fun key => (args.get key).isNone) = none := by
      refine List.find?_eq_none.mpr fun key hkey => ?_
      simpa using Option.isSome_iff_ne_none.mp (hkeys key hkey)
    simp [SortedMap.get, Value.asArray, hstrings, hfind]
  unfold minimalSchemaCheck requiring Value.asObject
  dsimp only
  rw [htype, hrequired]
  rfl

namespace StateCaps

open StateWorld

variable {W : Type} {format : StoreFormat} {fs : FileSystem W} {caps : StateCaps}

/-- A component that runs as it is, with or without an invoker. -/
def component (format : StoreFormat) (fs : FileSystem W) (caps : StateCaps) :
    CapabilityProvider (StateWorld W) where
  capabilities := capabilities
  execute capability args w := (caps.execute format fs capability args).run.run w
  executeWithInvoker _ capability args w :=
    match (caps.execute format fs capability args).run.run w with
    | some (result, w') => .returns result w'
    | none => .hangs

theorem run_component (origin capability : String) (args : Value)
    (invoker : ScopedInvoker (StateWorld W)) (w : StateWorld W) :
    (((caps.component format fs).executeWithInvoker origin capability args w).run invoker).2 =
      (caps.execute format fs capability args).run.run w := by
  unfold component
  dsimp only
  rcases (caps.execute format fs capability args).run.run w with _ | ⟨result, w'⟩ <;> rfl

def setArgs (key value : String) : Value :=
  .ofFields [("key", .string key), ("value", .string value)]

def getArgs (key : String) : Value := .ofFields [("key", .string key)]

/-- To write the store out leaves it as it is, and without a file nothing is done. -/
theorem store_of_persist {snapshot : Store} {w w' : StateWorld W} {r : Except ExecError Unit}
    (h : (caps.persist format fs snapshot).run.run w = some (r, w')) :
    w'.store = w.store ∧ (caps.path = none → r = .ok () ∧ w' = w) := by
  unfold persist at h
  rcases hpath : caps.path with _ | path
  · rw [hpath] at h
    cases h
    exact ⟨rfl, fun _ => ⟨rfl, rfl⟩⟩
  · refine ⟨?_, fun hnone => by cases hnone⟩
    rw [hpath] at h
    dsimp only at h
    rw [Fallible.run_bind] at h
    rcases hjson : format.toStringPretty snapshot with e | json
    · rw [hjson] at h
      cases h
      rfl
    · rw [hjson] at h
      change (Fallible.attempt _ (outsideOf (fs.write path json.toUTF8))).run.run w = _ at h
      rw [Fallible.run_attempt] at h
      obtain ⟨⟨r', w₁⟩, hwrite, hr⟩ := Option.map_eq_some_iff.mp h
      cases hr
      obtain ⟨⟨r'', w₂⟩, -, hr⟩ := Option.map_eq_some_iff.mp hwrite
      cases hr
      rfl

theorem argStr_setArgs (key value : String) : argStr (setArgs key value) "key" = .ok key := by
  simp [argStr, setArgs, Value.get_ofFields, SortedMap.last, Value.asStr]

theorem argStr_getArgs (key : String) : argStr (getArgs key) "key" = .ok key := by
  simp [argStr, getArgs, Value.get_ofFields, SortedMap.last, Value.asStr]

/-- The value is set in memory and then the store is written out. -/
theorem run_execute_set (key value : String) (w : StateWorld W) :
    (caps.execute format fs "cap.state.set" (setArgs key value)).run.run w =
      ((caps.persist format fs (SortedMap.insert key (.string value) w.store)).run.run
        { w with store := SortedMap.insert key (.string value) w.store }).map fun r =>
          (r.1.map fun _ => .object [("ok", .bool true)], r.2) := by
  have hvalue : (setArgs key value).get "value" = some (.string value) := by
    simp [setArgs, Value.get_ofFields, SortedMap.last]
  have hexecute : caps.execute format fs "cap.state.set" (setArgs key value) =
      caps.set format fs key (setArgs key value) := by
    unfold execute
    rw [argStr_setArgs]
    rfl
  rw [hexecute, set, hvalue, Option.getD_some, Fallible.run_bind]
  change ((caps.persist format fs _ >>= _).run.run _) = _
  rw [Fallible.run_bind]
  rcases (caps.persist format fs (SortedMap.insert key (.string value) w.store)).run.run
    { w with store := SortedMap.insert key (.string value) w.store } with _ | ⟨e | _, w'⟩ <;> rfl

/-- What is set is in the store, also if it cannot be written out. -/
theorem execute_set {key value : String} {w w' : StateWorld W} {r : Except ExecError Value}
    (h : (caps.execute format fs "cap.state.set" (setArgs key value)).run.run w = some (r, w')) :
    w'.store = SortedMap.insert key (.string value) w.store ∧
      (∀ v, r = .ok v → v = .object [("ok", .bool true)]) ∧
      (caps.path = none → ∃ v, r = .ok v) := by
  rw [run_execute_set] at h
  obtain ⟨⟨r', w₁⟩, hpersist, hr⟩ := Option.map_eq_some_iff.mp h
  cases hr
  obtain ⟨hstore, hmemory⟩ := store_of_persist hpersist
  refine ⟨hstore, ?_, fun hnone => ?_⟩
  · rintro v hv
    cases r' with
    | error e => cases hv
    | ok _ => exact (Except.ok.inj hv).symm
  · obtain ⟨rfl, -⟩ := hmemory hnone
    exact ⟨_, rfl⟩

theorem execute_set_returns (hmemory : caps.path = none) (key value : String) (w : StateWorld W) :
    ((caps.execute format fs "cap.state.set" (setArgs key value)).run.run w).isSome := by
  rw [run_execute_set, persist, hmemory]
  rfl

theorem execute_get (key : String) (w : StateWorld W) :
    (caps.execute format fs "cap.state.get" (getArgs key)).run.run w =
      some (.ok (.object [("value", (SortedMap.get key w.store).getD .null)]), w) := by
  unfold execute
  rw [argStr_getArgs]
  rfl

end StateCaps

/-! ## The notebook -/

namespace Repl

open CommandProvider Cli

abbrev Notes := String → Option Value

/-- The words of the lines that are heard: not of blank ones, and of none from the line on that
quits or cannot be read. -/
def heard : List (Except String String) → List (List String)
  | [] => []
  | .error _ :: _ => []
  | .ok raw :: lines =>
    if trim raw = "" then heard lines
    else if trim raw = "/quit" ∨ trim raw = "/exit" then []
    else splitWhitespace raw :: heard lines

def ending : List (Except String String) → Except String Unit
  | [] => .ok ()
  | .error e :: _ => .error e
  | .ok raw :: lines =>
    if trim raw = "" then ending lines
    else if trim raw = "/quit" ∨ trim raw = "/exit" then .ok ()
    else ending lines

def failure (capability : String) : String := s!"[error] capability `{capability}` failed\n"

def usage : String :=
  "commands: `run <program> [args…]`, `remember <key> <value…>`, `recall <key>`, " ++
    "`write <path> <content…>`"

/-- What is said to a line that asks for nothing to be done. -/
inductive Advises : List String → String → Prop where
  | blank : Advises [] usage
  | help (rest : List String) : Advises ("help" :: rest) usage
  | run : Advises ["run"] "usage: run <program> [args…]"
  | remember : Advises ["remember"] "usage: remember <key> <value…>"
  | recall : Advises ["recall"] "usage: recall <key>"
  | write : Advises ["write"] "usage: write <path> <content…>"
  | unknown {command : String} (h : command ∉ ["run", "remember", "recall", "write", "help"])
      (rest : List String) :
      Advises (command :: rest) ("unknown command `" ++ command ++ "`. " ++ usage)

/-- What is announced before a capability that is not granted. -/
inductive Announces : List String → String → String → Prop where
  | run (program : String) (args : List String) :
      Announces ("run" :: program :: args) ("$ " ++ joined (program :: args)) "cap.shell.run"
  | write (path : String) (content : List String) :
      Announces ("write" :: path :: content) ("wrote `" ++ path ++ "`") "cap.fs.write"

theorem Announces.ungranted {words : List String} {narration capability : String}
    (h : Announces words narration capability) :
    capability = "cap.shell.run" ∨ capability = "cap.fs.write" := by
  cases h with
  | run => exact .inl rfl
  | write => exact .inr rfl

/-- What a line does to the notes, and what is written for it. Only a file can fail to save. -/
inductive Says (J : JsonText) (inMemory : Prop) : Notes → List String → List String → Notes → Prop
    where
  | remembered (notes : Notes) (key : String) (rest : List String) :
      Says J inMemory notes ("remember" :: key :: rest) ["remembered `" ++ key ++ "`" ++ "\n"]
        (Function.update notes key (some (.string (joined rest))))
  | unsaved (h : ¬inMemory) (notes : Notes) (key : String) (rest : List String) :
      Says J inMemory notes ("remember" :: key :: rest)
        ["remembered `" ++ key ++ "`" ++ "\n", failure "cap.state.set"]
        (Function.update notes key (some (.string (joined rest))))
  | recalled (notes : Notes) (key : String) (rest : List String) :
      Says J inMemory notes ("recall" :: key :: rest)
        ["recalling `" ++ key ++ "`:" ++ "\n", "= " ++ J.write ((notes key).getD .null) ++ "\n"]
        notes
  | advised (notes : Notes) {words : List String} {advice : String} (h : Advises words advice) :
      Says J inMemory notes words [advice ++ "\n"] notes
  | refused (notes : Notes) {words : List String} {narration capability : String}
      (h : Announces words narration capability) :
      Says J inMemory notes words [narration ++ "\n", failure capability] notes

/-- In memory there is one answer. -/
theorem Says.unique {J : JsonText} {inMemory : Prop} (hmemory : inMemory)
    {notes notes' notes'' : Notes} {words out out' : List String}
    (h : Says J inMemory notes words out notes') (h' : Says J inMemory notes words out' notes'') :
    out = out' ∧ notes' = notes'' := by
  grind [cases Says, cases Advises, cases Announces]

inductive Run (J : JsonText) (inMemory : Prop) :
    Notes → List (List String) → List String → Notes → Prop where
  | done (notes : Notes) : Run J inMemory notes [] [] notes
  | line {notes notes' notes'' : Notes} {words : List String} {lines : List (List String)}
      {out out' : List String} (h : Says J inMemory notes words out notes')
      (hrun : Run J inMemory notes' lines out' notes'') :
      Run J inMemory notes (words :: lines) (out ++ out') notes''

/-- An agent with the provider of commands that may use the store it owns, and may neither run
programs nor write files. -/
structure IsNotebook {W : Type} (agent : AssembledAgent (StateWorld W)) (format : StoreFormat)
    (fs : FileSystem W) (caps : StateCaps) : Prop where
  provider : agent.provider = CommandProvider (StateWorld W)
  contextAssembler : agent.contextAssembler = none
  owner : ∀ cap ∈ StateCaps.capabilities,
    agent.toolbox.ownerOf cap.id = some (caps.component format fs)
  registered : ∀ cap ∈ StateCaps.capabilities, agent.toolbox.registry.lookup cap.id = some cap
  granted : ∀ cap ∈ StateCaps.capabilities,
    ScopedGovernor.verdict agent.grants agent.scope.origin cap.id = .allow
  ungranted : ∀ capability, capability = "cap.shell.run" ∨ capability = "cap.fs.write" →
    ScopedGovernor.verdict agent.grants agent.scope.origin capability ≠ .allow

def notes {W : Type} (w : StateWorld W) : Notes := fun key => SortedMap.get key w.store

theorem interpretWords_of_not_mem {command : String}
    (h : command ∉ ["run", "remember", "recall", "write", "help"]) (rest : List String) :
    interpretWords (command :: rest) = say ("unknown command `" ++ command ++ "`. " ++ usage) := by
  simp only [List.mem_cons, List.not_mem_nil, or_false, not_or] at h
  obtain ⟨hrun, hremember, hrecall, hwrite, hhelp⟩ := h
  unfold interpretWords
  dsimp only
  split <;> first | contradiction | rfl

/-- What the words of a line ask for: the two commands of the store, advice, or a capability that
is not granted. -/
theorem interpretWords_cases {words : List String} (hwords : ∀ word ∈ words, IsWord word) :
    (∃ key rest, words = "remember" :: key :: rest ∧ interpretWords words =
      act ("remembered `" ++ key ++ "`") "cap.state.set" (StateCaps.setArgs key (joined rest))) ∨
    (∃ key rest, words = "recall" :: key :: rest ∧ interpretWords words =
      act ("recalling `" ++ key ++ "`:") "cap.state.get" (StateCaps.getArgs key)) ∨
    (∃ advice, Advises words advice ∧ interpretWords words = say advice) ∨
    ∃ narration capability args, Announces words narration capability ∧
      interpretWords words = act narration capability args := by
  rcases words with _ | ⟨command, parts⟩
  · exact .inr (.inr (.inl ⟨_, .blank, rfl⟩))
  by_cases hcommand : command ∈ ["run", "remember", "recall", "write", "help"]
  · simp only [List.mem_cons, List.not_mem_nil, or_false] at hcommand
    obtain rfl | rfl | rfl | rfl | rfl := hcommand
    · rcases parts with _ | ⟨program, args⟩
      · exact .inr (.inr (.inl ⟨_, .run, rfl⟩))
      · have hline : trimEnd s!"$ {program} {joined args}" = "$ " ++ joined (program :: args) :=
          trimEnd_commandLine fun word hword => hwords word (List.mem_cons_of_mem _ hword)
        refine .inr (.inr (.inr ⟨_, _, .ofFields [("program", .string program),
          ("args", .array (args.map .string))], .run program args, ?_⟩))
        rw [← hline]
        rfl
    · rcases parts with _ | ⟨key, rest⟩
      · exact .inr (.inr (.inl ⟨_, .remember, rfl⟩))
      · exact .inl ⟨key, rest, rfl, rfl⟩
    · rcases parts with _ | ⟨key, rest⟩
      · exact .inr (.inr (.inl ⟨_, .recall, rfl⟩))
      · exact .inr (.inl ⟨key, rest, rfl, rfl⟩)
    · rcases parts with _ | ⟨path, content⟩
      · exact .inr (.inr (.inl ⟨_, .write, rfl⟩))
      · exact .inr (.inr (.inr ⟨_, _, _, .write path content, rfl⟩))
    · exact .inr (.inr (.inl ⟨_, .help parts, rfl⟩))
  · exact .inr (.inr (.inl ⟨_, .unknown hcommand parts, interpretWords_of_not_mem hcommand parts⟩))

theorem writeAll_apply {W : Type} (texts : List String) (w : W) :
    writeAll texts w = (texts.map .wrote, some ((), w)) := by
  induction texts with
  | nil => rfl
  | cons text texts ih =>
    rw [writeAll, emit_bind_apply, ih]
    rfl

theorem output_acted (actions : List Action) : output (actions.map .acted) = [] := by
  rw [output, List.filterMap_map]
  exact List.filterMap_eq_nil_iff.mpr fun _ _ => rfl

theorem output_wrote (texts : List String) : output (texts.map .wrote) = texts := by
  rw [output, List.filterMap_map]
  exact List.filterMap_some

theorem get_setArgs (key value : String) :
    (StateCaps.setArgs key value).isObject = true ∧
      ∀ k ∈ ["key", "value"], ((StateCaps.setArgs key value).get k).isSome := by
  refine ⟨rfl, ?_⟩
  simp [StateCaps.setArgs, Value.get_ofFields, SortedMap.last]

theorem get_getArgs (key : String) : (StateCaps.getArgs key).isObject = true ∧
    ∀ k ∈ ["key"], ((StateCaps.getArgs key).get k).isSome := by
  refine ⟨rfl, ?_⟩
  simp [StateCaps.getArgs, Value.get_ofFields, SortedMap.last]

section Notebook

variable {W : Type} {agent : AssembledAgent (StateWorld W)} {format : StoreFormat}
  {fs : FileSystem W} {caps : StateCaps} (h : IsNotebook agent format fs caps) {formats : Formats}

include h

/-- A call of the store gets through. -/
theorem IsNotebook.dispatch {cap : Capability} (hcap : cap ∈ StateCaps.capabilities) {args : Value}
    (hargs : minimalSchemaCheck cap.argsSchema args = .ok ()) (w : StateWorld W) :
    ((agent.served formats false).dispatchInvoke cap.id args none w).2 =
      ((caps.execute format fs cap.id args).run.run w).map
        (Pipeline.performed ⟨cap.id, args, none, ⟨agent.scope.origin⟩⟩) := by
  have hconforms : agent.toolbox.registry.Conforms cap.id args :=
    ⟨cap, h.registered cap hcap, hargs⟩
  have hgovern : (ScopedGovernor (StateWorld W) agent.grants).govern ⟨agent.scope.origin⟩ cap.id
      args w = some (.allow, w) := congrArg (fun v => some (v, w)) (h.granted cap hcap)
  unfold Loop.dispatchInvoke
  rw [Pipeline.dispatchWithInvoker_of_allowed hconforms rfl hgovern]
  change ((((agent.toolbox.executor agent.scope.origin).executeWithInvoker cap.id args w).run
    _).2.map _) = _
  rw [(Toolbox.execute_of_ownerOf (h.owner cap hcap) agent.scope.origin).2,
    StateCaps.run_component]
  rfl

/-- What is not granted fails, whether or not there is such a component. -/
theorem IsNotebook.dispatch_ungranted {capability : String}
    (hcapability : capability = "cap.shell.run" ∨ capability = "cap.fs.write") (args : Value)
    (w : StateWorld W) :
    ∃ e, ((agent.served formats false).dispatchInvoke capability args none w).2 =
      some (.error e, w) :=
  Pipeline.dispatchWithInvoker_of_denied rfl (h.ungranted capability hcapability)

theorem IsNotebook.dispatch_set (key value : String) (w : StateWorld W) :
    ((agent.served formats false).dispatchInvoke "cap.state.set" (StateCaps.setArgs key value)
      none w).2 = ((caps.execute format fs "cap.state.set" (StateCaps.setArgs key value)).run.run
        w).map (Pipeline.performed ⟨"cap.state.set", StateCaps.setArgs key value, none,
          ⟨agent.scope.origin⟩⟩) := by
  have hmem : (⟨"cap.state.set", "store a value under a key", requiring ["key", "value"]⟩ :
      Capability) ∈ StateCaps.capabilities := List.mem_cons_self
  obtain ⟨hobject, hkeys⟩ := get_setArgs key value
  exact h.dispatch hmem (check_requiring hobject hkeys) w

theorem IsNotebook.dispatch_get (key : String) (w : StateWorld W) :
    ((agent.served formats false).dispatchInvoke "cap.state.get" (StateCaps.getArgs key)
      none w).2 = some (.ok ⟨"cap.state.get",
        .object [("value", (SortedMap.get key w.store).getD .null)]⟩, w) := by
  have hmem : (⟨"cap.state.get", "read the value stored under a key", requiring ["key"]⟩ :
      Capability) ∈ StateCaps.capabilities := List.mem_cons_of_mem _ List.mem_cons_self
  obtain ⟨hobject, hkeys⟩ := get_getArgs key
  have hdispatch : ((agent.served formats false).dispatchInvoke "cap.state.get"
      (StateCaps.getArgs key) none w).2 = _ :=
    h.dispatch hmem (check_requiring hobject hkeys) w
  rw [hdispatch, StateCaps.execute_get]
  rfl

theorem IsNotebook.decide (turn : ℕ) (line : String) (ctx : Context) (caps' : List Capability)
    (n : ℕ) (w : StateWorld W) : agent.provider.decide (turnGoal turn line) ctx caps' n w =
      (some (interpretWords (splitWhitespace line)), w) := by
  rw [h.provider, ← splitWhitespace_trim line]
  rfl

variable {J : JsonText} {ctx : Context} {turn fuel : ℕ} {line : String} {w : StateWorld W}

/-- What is written for a line is what the notebook says. -/
theorem IsNotebook.says {r : RunReport × StateWorld W}
    (hserve : (agent.serve formats false (turnGoal turn line) ctx (fuel + 1) w).2 = some r) :
    Says J (caps.path = none) (notes w) (splitWhitespace line) (rendered J r.1) (notes r.2) := by
  have hdecide := h.decide turn line
  have hall : ∀ word ∈ splitWhitespace line, IsWord word := fun _ => isWord_of_mem
  -- a line is set, get, advice or a command that the notebook has no grant for
  obtain ⟨key, rest, hwords, hact⟩ | ⟨key, rest, hwords, hact⟩ | ⟨advice, hadvises, hsay⟩ |
    ⟨narration, capability, args, hannounces, hact⟩ := interpretWords_cases hall
  · simp only [hact] at hdecide
    rw [serve_act hdecide, h.dispatch_set] at hserve
    obtain ⟨q, hq, rfl⟩ := Option.map_eq_some_iff.mp hserve
    obtain ⟨⟨result, w'⟩, hexecute, rfl⟩ := Option.map_eq_some_iff.mp hq
    obtain ⟨hstore, hok, hmemory⟩ := StateCaps.execute_set hexecute
    have hnotes : notes w' = Function.update (notes w) key (some (.string (joined rest))) := by
      funext k
      simp only [notes, hstore, SortedMap.get_insert, Function.update_apply]
    show Says J _ (notes w) _ _ (notes w')
    rw [hwords, hnotes]
    cases result with
    | error e =>
      refine .unsaved (fun hnone => ?_) _ _ _
      obtain ⟨v, hv⟩ := hmemory hnone
      cases hv
    | ok v =>
      obtain rfl := hok v rfl
      exact .remembered _ _ _
  · simp only [hact] at hdecide
    rw [serve_act hdecide, h.dispatch_get] at hserve
    cases hserve
    rw [hwords]
    exact .recalled _ _ _
  · simp only [hsay] at hdecide
    rw [serve_say hdecide] at hserve
    cases hserve
    exact .advised _ hadvises
  · simp only [hact] at hdecide
    obtain ⟨e, he⟩ : ∃ e, ((agent.served formats false).dispatchInvoke capability args none w).2 =
      some (.error e, w) := h.dispatch_ungranted hannounces.ungranted args w
    rw [serve_act hdecide, he] at hserve
    cases hserve
    exact .refused _ hannounces

/-- In memory every line is answered. -/
theorem IsNotebook.serve_returns (hmemory : caps.path = none) :
    (agent.serve formats false (turnGoal turn line) ctx (fuel + 1) w).2.isSome := by
  have hdecide := h.decide turn line
  have hall : ∀ word ∈ splitWhitespace line, IsWord word := fun _ => isWord_of_mem
  obtain ⟨key, rest, hwords, hact⟩ | ⟨key, rest, hwords, hact⟩ | ⟨advice, -, hsay⟩ |
    ⟨narration, capability, args, hannounces, hact⟩ := interpretWords_cases hall
  · simp only [hact] at hdecide
    rw [serve_act hdecide, h.dispatch_set, Option.isSome_map, Option.isSome_map]
    exact StateCaps.execute_set_returns hmemory key (joined rest) w
  · simp only [hact] at hdecide
    rw [serve_act hdecide, h.dispatch_get]
    rfl
  · simp only [hsay] at hdecide
    rw [serve_say hdecide]
    rfl
  · simp only [hact] at hdecide
    obtain ⟨e, he⟩ : ∃ e, ((agent.served formats false).dispatchInvoke capability args none w).2 =
      some (.error e, w) := h.dispatch_ungranted hannounces.ungranted args w
    rw [serve_act hdecide, he]
    rfl

variable {commit : ContextAssembler (StateWorld W) → Goal → RunReport →
  Call (StateWorld W) Unit}

variable (formats J commit turn fuel line w) in
/-- A turn writes what its report says, and nothing if the span never ends. -/
theorem IsNotebook.takeTurn_eq : ∃ actions : List Action,
    takeTurn agent formats J commit fuel turn line w =
      match (agent.serve formats false (turnGoal turn line) ⟨[]⟩ fuel w).2 with
      | none => (actions.map .acted, none)
      | some (report, w') =>
        (actions.map .acted ++ (rendered J report).map .wrote, some ((), w')) := by
  refine ⟨(agent.serve formats false (turnGoal turn line) ⟨[]⟩ fuel w).1, ?_⟩
  unfold takeTurn
  rw [h.contextAssembler]
  dsimp only
  rw [bind_of_some rfl, bind_eq, Eff.mapActions]
  rcases (agent.serve formats false (turnGoal turn line) ⟨[]⟩ fuel w) with
    ⟨actions, _ | ⟨report, w'⟩⟩
  · rfl
  · dsimp only
    rw [writeAll_apply]
    rfl

/-- The session writes what the notebook says line by line. -/
theorem IsNotebook.runs {lines : List (Except String String)} {r : Except String Unit}
    {w' : StateWorld W} (hsession : (runSession agent formats J commit (fuel + 1) turn lines w).2 =
      some (r, w')) :
    r = ending lines ∧ Run J (caps.path = none) (notes w) (heard lines)
      (output (runSession agent formats J commit (fuel + 1) turn lines w).1) (notes w') := by
  induction lines generalizing turn w with
  | nil =>
    cases hsession
    exact ⟨rfl, .done _⟩
  | cons line lines ih =>
    rcases line with e | raw
    · cases hsession
      exact ⟨rfl, .done _⟩
    · unfold runSession at hsession ⊢
      unfold heard ending
      dsimp only at hsession ⊢
      -- the loop skips blank lines and leaves at a quit; every other line is a turn
      by_cases hblank : trim raw = ""
      · rw [if_pos hblank] at hsession
        simp only [if_pos hblank]
        exact ih hsession
      · rw [if_neg hblank] at hsession
        simp only [if_neg hblank]
        by_cases hquit : trim raw = "/quit" ∨ trim raw = "/exit"
        · rw [if_pos hquit] at hsession
          simp only [if_pos hquit]
          cases hsession
          exact ⟨rfl, .done _⟩
        · rw [if_neg hquit] at hsession
          simp only [if_neg hquit]
          obtain ⟨actions, hturn⟩ :=
            h.takeTurn_eq formats J (turn + 1) (fuel + 1) (trim raw) w commit
          rcases hserve : (agent.serve formats false (turnGoal (turn + 1) (trim raw)) ⟨[]⟩
            (fuel + 1) w).2 with _ | ⟨report, w₁⟩
          · rw [hserve] at hturn
            -- a turn that does not return leaves no session to speak of
            rw [bind_of_none (congrArg Prod.snd hturn)] at hsession
            cases hsession
          · rw [hserve] at hturn
            dsimp only at hturn
            have hsays : Says J (caps.path = none) (notes w) (splitWhitespace (trim raw))
              (rendered J report) (notes w₁) := h.says hserve
            rw [splitWhitespace_trim] at hsays
            rw [bind_of_some (congrArg Prod.snd hturn)] at hsession ⊢
            obtain ⟨hend, hrun⟩ := ih hsession
            refine ⟨hend, ?_⟩
            rw [hturn, output, List.filterMap_append, List.filterMap_append]
            have hout := output_acted actions
            have hout' := output_wrote (rendered J report)
            unfold output at hout hout'
            rw [hout, hout', List.nil_append]
            exact .line hsays hrun

/-- In memory the session gets to its end. -/
theorem IsNotebook.session_returns (hmemory : caps.path = none)
    (lines : List (Except String String)) :
    (runSession agent formats J commit (fuel + 1) turn lines w).2.isSome := by
  induction lines generalizing turn w with
  | nil => rfl
  | cons line lines ih =>
    rcases line with e | raw
    · rfl
    · unfold runSession
      dsimp only
      split_ifs
      · exact ih
      · rfl
      · obtain ⟨actions, hturn⟩ :=
          h.takeTurn_eq formats J (turn + 1) (fuel + 1) (trim raw) w commit
        have hreturns : (agent.serve formats false (turnGoal (turn + 1) (trim raw)) ⟨[]⟩ (fuel + 1)
          w).2.isSome := h.serve_returns hmemory
        obtain ⟨⟨report, w₁⟩, hserve⟩ := Option.isSome_iff_exists.mp hreturns
        rw [hserve] at hturn
        rw [bind_of_some (congrArg Prod.snd hturn)]
        exact ih

end Notebook

/-- Whatever is typed, each line writes what the notebook says to it, one after another from the
notes that were in the store to those that are in it at the end, up to the line that quits. Only a
file can keep the session from its end. -/
theorem session_refines {W : Type} {agent : AssembledAgent (StateWorld W)} {format : StoreFormat}
    {fs : FileSystem W} {caps : StateCaps} (h : IsNotebook agent format fs caps)
    (formats : Formats) (J : JsonText)
    (commit : ContextAssembler (StateWorld W) → Goal → RunReport → Call (StateWorld W) Unit)
    (fuel : ℕ) (lines : List (Except String String)) (w : StateWorld W) :
    let session := runSession agent formats J commit (fuel + 1) 0 lines w
    (∀ r w', session.2 = some (r, w') → r = ending lines ∧
      Run J (caps.path = none) (notes w) (heard lines) (output session.1) (notes w')) ∧
    (caps.path = none → session.2.isSome) :=
  ⟨fun _ _ hsession => h.runs hsession, fun hmemory => h.session_returns hmemory lines⟩

def notebookCaps : CapabilityProvider (StateWorld Unit) :=
  (⟨none⟩ : StateCaps).component ascendingFormat noFiles

def notebookAgent : AssembledAgent (StateWorld Unit) where
  name := "notebook"
  instruction := ""
  scope := ⟨"persona.notebook"⟩
  grants := [("persona.notebook", ["cap.state"])]
  provider := CommandProvider (StateWorld Unit)
  toolbox := (Toolbox.empty.added notebookCaps).2
  contextAssembler := none

theorem isNotebook_notebookAgent : IsNotebook notebookAgent ascendingFormat noFiles ⟨none⟩ := by
  obtain ⟨t, hadd⟩ : ∃ t, Toolbox.empty.add notebookCaps = .ok t := ⟨_, rfl⟩
  have htoolbox : notebookAgent.toolbox = t := by
    unfold notebookAgent
    dsimp only
    rw [Toolbox.added_of_ok hadd]
  have hproviders : t.providers = [notebookCaps] := (Toolbox.add_eq_ok hadd).2.1
  constructor
  · rfl
  · rfl
  · intro cap hcap
    have hmem : cap.id ∈ notebookCaps.ids := List.mem_map_of_mem hcap
    rw [htoolbox, Toolbox.ownerOf_add hadd, if_pos hmem]
    rfl
  · intro cap hcap
    have hnodup : (StateCaps.capabilities.map Capability.id).Nodup := by decide
    rw [htoolbox, Toolbox.registry, hproviders, List.flatMap_singleton]
    refine Eq.trans (lookup_foldl_register hnodup (fun _ _ => CapabilityRegistry.lookup_empty _)
      cap.id) ?_
    simp only [StateCaps.capabilities, List.mem_cons, List.not_mem_nil, or_false] at hcap
    obtain rfl | rfl | rfl | rfl | rfl := hcap <;> rfl
  · intro cap hcap
    simp only [StateCaps.capabilities, List.mem_cons, List.not_mem_nil, or_false] at hcap
    obtain rfl | rfl | rfl | rfl | rfl := hcap <;> decide
  · rintro capability (rfl | rfl) <;> decide

/-- What is remembered is recalled. -/
theorem session_refines_notebook :
    let lines : List (Except String String) :=
      [.ok "remember a b c", .ok "recall a", .ok "run ls -l", .ok "recal a", .ok "/quit"]
    let session := runSession notebookAgent ⟨fun _ => "", id⟩ ⟨fun _ => "", fun _ => none⟩
      (fun _ _ _ w => some ((), w)) 1 0 lines ⟨[], ()⟩
    session.2.isSome ∧ ∀ r w', session.2 = some (r, w') → r = ending lines ∧
      Run ⟨fun _ => "", fun _ => none⟩ True (fun _ => none) (heard lines) (output session.1)
        (notes w') := by
  intro lines session
  obtain ⟨hrun, hreturns⟩ := session_refines isNotebook_notebookAgent ⟨fun _ => "", id⟩
    ⟨fun _ => "", fun _ => none⟩ (fun _ _ _ w => some ((), w)) 0 lines ⟨[], ()⟩
  refine ⟨hreturns rfl, fun r w' h => ?_⟩
  have hmemory : ((⟨none⟩ : StateCaps).path = none) = True := eq_true rfl
  obtain ⟨hend, hrun⟩ := hrun r w' h
  rw [hmemory] at hrun
  exact ⟨hend, hrun⟩

end Repl

end Pan
