import Pan.FileSystem
import Pan.Library.Interleaving
import Pan.Library.Machine
import Pan.Library.Window
import Pan.RoundTrip

namespace Pan

/-! ## Turns -/

structure SessionTurn where
  ts : ℕ
  goalId : String
  objective : String
  expressed : List String
  results : List (String × Value)

namespace SessionTurn

def resultTree (result : String × Value) : Value := .array [.string result.1, result.2]

def toTree (turn : SessionTurn) : Value :=
  .object [("ts", natTree turn.ts), ("goal_id", .string turn.goalId),
    ("objective", .string turn.objective), ("expressed", .array (turn.expressed.map .string)),
    ("results", .array (turn.results.map resultTree))]

def decodeResult : Value → Option (String × Value)
  | .array [id, result] => do return (← id.asStr, result)
  | _ => none

def fieldNames : List String := ["ts", "goal_id", "objective", "expressed", "results"]

def decode (v : Value) : Option SessionTurn := do
  let [ts, goalId, objective, expressed, results] ← structFields fieldNames v | none
  return ⟨← decodeU64 ts, ← goalId.asStr, ← objective.asStr, ← decodeVec Value.asStr expressed,
    ← decodeVec decodeResult results⟩

/-- A field that stands more than once in a text is an error. -/
def repeats : Value → Bool
  | .object members => fieldNames.any fun name => 1 < members.countP fun m => m.1 == name
  | _ => false

def fromStr (J : JsonText) (text : String) : Option SessionTurn := do
  let tree ← J.read text
  if repeats tree then none else decode tree.collect

def toString (J : JsonText) (turn : SessionTurn) : String := J.write turn.toTree

structure OnOneLine (J : JsonText) (turn : SessionTurn) : Prop where
  line : '\n' ∉ (turn.toString J).toList
  back : fromStr J (turn.toString J) = some turn

/-- Its time is in range and the results are values in memory. -/
structure InRange (turn : SessionTurn) : Prop where
  ts : turn.ts < 2 ^ 64
  results : ∀ result ∈ turn.results, result.2.InMemory

theorem decode_collect {turn : SessionTurn} (h : turn.InRange) :
    decode turn.toTree.collect = some turn := by
  have hfields : structFields fieldNames turn.toTree.collect = some [(natTree turn.ts).collect,
      .string turn.goalId, .string turn.objective,
      (Value.array (turn.expressed.map .string)).collect,
      (Value.array (turn.results.map resultTree)).collect] :=
    structFields_collect [] [("ts", natTree turn.ts), ("goal_id", .string turn.goalId),
      ("objective", .string turn.objective), ("expressed", .array (turn.expressed.map .string)),
      ("results", .array (turn.results.map resultTree))] (by simp)
  have hts : decodeU64 (natTree turn.ts).collect = some turn.ts := decodeNat_natTree h.ts
  have hexpressed : decodeVec Value.asStr (Value.array (turn.expressed.map .string)).collect =
      some turn.expressed := decodeVec_collect fun _ _ => rfl
  have hresults : decodeVec decodeResult (Value.array (turn.results.map resultTree)).collect =
      some turn.results := by
    apply decodeVec_collect
    intro result hresult
    have hvalue : result.2.collect = result.2 :=
      Value.InMemory.collect_eq (h.results result hresult)
    simp [resultTree, Value.collect_array, decodeResult, hvalue, Value.asStr]
  unfold decode
  simp [hfields, hts, hexpressed, hresults, Value.asStr]

theorem plain {turn : SessionTurn} (h : turn.InRange) : turn.toTree.Plain := by
  have hresult : ∀ result ∈ turn.results, (resultTree result).Plain := by
    intro result hresult
    simp [resultTree, (h.results result hresult).plain]
  have hresults : (Value.array (turn.results.map resultTree)).Plain :=
    Value.plain_array.mpr (List.forall_mem_map.mpr hresult)
  have hexpressed : (Value.array (turn.expressed.map .string)).Plain :=
    Value.plain_array.mpr (List.forall_mem_map.mpr fun body _ => .string body)
  simp [toTree, plain_natTree h.ts, -Value.plain_array, hresults, hexpressed]

/-- A turn that is not nested too deep is read back from the line that is written. -/
theorem onOneLine {J : JsonText} {turn : SessionTurn} (h : turn.InRange)
    (hfloats : J.FloatsOnOneLine) (hback : J.ReadsBack turn.toTree)
    (hdepth : turn.toTree.depth ≤ JsonText.NESTING_LIMIT) : turn.OnOneLine J where
  line := by
    unfold toString JsonText.write
    rw [String.toList_ofList]
    exact JsonText.newline_notMem_chars hfloats (plain h)
  back := by
    have hrepeats : repeats turn.toTree = false := by
      simp [repeats, toTree, fieldNames]
    unfold fromStr toString
    rw [hback (plain h) hdepth]
    simp [hrepeats, decode_collect h]

/-- The line ends with a brace. -/
theorem getLast?_toString (J : JsonText) (turn : SessionTurn) :
    (turn.toString J).toList.getLast? = some '\x7d' := by
  unfold toString JsonText.write toTree
  rw [String.toList_ofList, JsonText.chars, List.getLast?_append]
  rfl

end SessionTurn

/-! ## The store -/

inductive FileWrite where
  | unopened
  /-- No more of the line than its first characters is written. -/
  | cut (n : ℕ)
  | whole

/-- A line at the end of the file, which is created if it is not there. -/
def appendLine (line : String) : FileWrite → Option String → Option String
  | .unopened, file => file
  | .cut n, file => some (file.getD "" ++ String.ofList (line.toList.take n))
  | .whole, file => some (file.getD "" ++ String.ofList (line.toList ++ ['\n']))

/-- The turns in memory. The path is that of the one file there is. -/
structure SessionStore where
  cached : List SessionTurn
  maxTurns : ℕ

namespace SessionStore

variable (J : JsonText)

def readFile : Option String → List SessionTurn
  | none => []
  | some text => (lines text).filterMap (SessionTurn.fromStr J)

def new (file : Option String) : SessionStore := ⟨readFile J file, 100⟩

def withMaxTurns (s : SessionStore) (n : ℕ) : SessionStore := { s with maxTurns := n }

def push (s : SessionStore) (turn : SessionTurn) : SessionStore :=
  { s with cached := Window.trim s.maxTurns (s.cached ++ [turn]) }

def turns (s : SessionStore) : List SessionTurn := s.cached.drop (s.cached.length - s.maxTurns)

end SessionStore

structure SessionFile where
  file : Option String
  store : SessionStore

namespace SessionFile

variable (J : JsonText)

/-- The first step of `append`. -/
def write (turn : SessionTurn) (w : FileWrite) (s : SessionFile) : SessionFile :=
  { s with file := appendLine (turn.toString J) w s.file }

/-- The second step. -/
def push (turn : SessionTurn) (s : SessionFile) : SessionFile :=
  { s with store := s.store.push turn }

/-- `ts` is the time of the call. -/
def append (ts : ℕ) (goal : Goal) (expressed : List String) (results : List (String × Value))
    (w : FileWrite) (s : SessionFile) : SessionFile :=
  let turn : SessionTurn := ⟨ts, goal.id, goal.objective, expressed, results⟩
  (s.write J turn w).push turn

/-- The store is closed and opened again with the same number of turns. -/
def reopen (s : SessionFile) : SessionFile :=
  { s with store := (SessionStore.new J s.file).withMaxTurns s.store.maxTurns }

end SessionFile

inductive StoreEvent where
  | append (ts : ℕ) (goal : Goal) (expressed : List String) (results : List (String × Value))
    (w : FileWrite)
  | reopen

namespace StoreEvent

def turn : StoreEvent → Option SessionTurn
  | append ts goal expressed results _ => some ⟨ts, goal.id, goal.objective, expressed, results⟩
  | reopen => none

/-- What is to be written is one line, and it is written. -/
def Succeeds (J : JsonText) : StoreEvent → Prop
  | append ts goal expressed results w =>
    w = .whole ∧ SessionTurn.OnOneLine J ⟨ts, goal.id, goal.objective, expressed, results⟩
  | reopen => True

end StoreEvent

def sessionFile (J : JsonText) (file : Option String) (maxTurns : ℕ) :
    Machine SessionFile StoreEvent where
  init := ⟨file, (SessionStore.new J file).withMaxTurns maxTurns⟩
  step s
    | .append ts goal expressed results w => s.append J ts goal expressed results w
    | .reopen => s.reopen J

/-! ## What is kept -/

section Keeps

variable {J : JsonText}

def fileText (J : JsonText) (turns : List SessionTurn) : List Char :=
  turns.flatMap fun turn => (turn.toString J).toList ++ ['\n']

theorem SessionStore.readFile_eq (J : JsonText) (file : Option String) :
    readFile J file = (lines (file.getD "")).filterMap (SessionTurn.fromStr J) := by
  cases file <;> rfl

theorem filterMap_lines_fileText {turns : List SessionTurn} (h : ∀ turn ∈ turns, turn.OnOneLine J) :
    (lines (String.ofList (fileText J turns))).filterMap (SessionTurn.fromStr J) = turns := by
  induction turns with
  | nil => rfl
  | cons turn turns ih =>
    have hturn := h turn (by simp)
    have hcr : (turn.toString J).toList.getLast? ≠ some '\r' := by
      rw [SessionTurn.getLast?_toString]
      decide
    have htext : fileText J (turn :: turns) =
        (turn.toString J).toList ++ '\n' :: fileText J turns := by
      simp [fileText]
    rw [htext, lines_append hturn.line hcr, String.ofList_toList,
      List.filterMap_cons_some hturn.back, ih fun t ht => h t (by simp [ht])]

namespace SessionFile

/-- The file has the turns `written`, and the store shows the last of the turns `pushed`. -/
structure Keeps (J : JsonText) (s : SessionFile) (maxTurns : ℕ)
    (written pushed : List SessionTurn) : Prop where
  file : (s.file.getD "").toList = fileText J written
  onOneLine : ∀ turn ∈ written, turn.OnOneLine J
  limit : s.store.maxTurns = maxTurns
  turns : s.store.cached.rtake maxTurns = pushed.rtake maxTurns

variable {s : SessionFile} {maxTurns : ℕ} {written pushed : List SessionTurn} {turn : SessionTurn}

theorem Keeps.readFile (h : s.Keeps J maxTurns written pushed) :
    SessionStore.readFile J s.file = written := by
  rw [SessionStore.readFile_eq, ← String.ofList_toList (s := s.file.getD ""), h.file,
    filterMap_lines_fileText h.onOneLine]

theorem Keeps.turns_eq (h : s.Keeps J maxTurns written pushed) :
    s.store.turns = pushed.rtake maxTurns := by
  have hturns : s.store.turns = s.store.cached.rtake s.store.maxTurns := rfl
  rw [hturns, h.limit, h.turns]

theorem keeps_fresh {file : Option String} (hfile : file.getD "" = "") (maxTurns : ℕ) :
    (sessionFile J file maxTurns).init.Keeps J maxTurns [] [] where
  file := by
    change (file.getD "").toList = []
    rw [hfile]
    rfl
  onOneLine := by simp
  limit := rfl
  turns := by
    change (SessionStore.readFile J file).rtake maxTurns = _
    rw [SessionStore.readFile_eq, hfile]
    rfl

theorem Keeps.write (h : s.Keeps J maxTurns written pushed) (hturn : turn.OnOneLine J) :
    (s.write J turn .whole).Keeps J maxTurns (written ++ [turn]) pushed where
  file := by
    change (s.file.getD "" ++ String.ofList ((turn.toString J).toList ++ ['\n'])).toList = _
    rw [String.toList_append, h.file, String.toList_ofList, fileText, fileText, List.flatMap_append,
      List.flatMap_singleton]
  onOneLine := by
    intro t ht
    rcases List.mem_append.mp ht with ht | ht
    · exact h.onOneLine t ht
    · rwa [List.mem_singleton.mp ht]
  limit := h.limit
  turns := h.turns

theorem Keeps.push (h : s.Keeps J maxTurns written pushed) (turn : SessionTurn) :
    (s.push turn).Keeps J maxTurns written (pushed ++ [turn]) where
  file := h.file
  onOneLine := h.onOneLine
  limit := h.limit
  turns := by
    change (Window.trim s.store.maxTurns (s.store.cached ++ [turn])).rtake maxTurns = _
    rw [h.limit, Window.trim_eq_rtake, Window.rtake_rtake,
      ← Window.rtake_append_rtake le_rfl s.store.cached, h.turns, Window.rtake_append_rtake le_rfl]

/-- A store that is opened again shows what is in the file. -/
theorem Keeps.reopen (h : s.Keeps J maxTurns written pushed) :
    (s.reopen J).Keeps J maxTurns written written where
  file := h.file
  onOneLine := h.onOneLine
  limit := h.limit
  turns := by
    change (SessionStore.readFile J s.file).rtake maxTurns = _
    rw [h.readFile]

theorem Keeps.step {file : Option String} {e : StoreEvent}
    (h : s.Keeps J maxTurns written written) (he : e.Succeeds J) :
    ((sessionFile J file maxTurns).step s e).Keeps J maxTurns (written ++ e.turn.toList)
      (written ++ e.turn.toList) := by
  cases e with
  | append ts goal expressed results w =>
    obtain ⟨rfl, hturn⟩ := he
    exact (h.write hturn).push _
  | reopen =>
    change (s.reopen J).Keeps J maxTurns (written ++ []) (written ++ [])
    rw [List.append_nil]
    exact h.reopen

theorem keeps_reached {file : Option String} (hfile : file.getD "" = "") (maxTurns : ℕ)
    {es : List StoreEvent} (hes : ∀ e ∈ es, e.Succeeds J) :
    ((sessionFile J file maxTurns).reached es).Keeps J maxTurns (es.filterMap StoreEvent.turn)
      (es.filterMap StoreEvent.turn) := by
  induction es using List.reverseRecOn with
  | nil => exact keeps_fresh hfile maxTurns
  | append_singleton es e ih =>
    have hkeeps := ih fun e' he' => hes e' (by simp [he'])
    have hturns : (es ++ [e]).filterMap StoreEvent.turn =
        es.filterMap StoreEvent.turn ++ e.turn.toList := by
      rw [List.filterMap_append]
      cases h : e.turn <;> simp [h]
    rw [Machine.reached_concat, hturns]
    exact hkeeps.step (hes e (by simp))

end SessionFile

/-- A store shows the last of all turns that were appended since the file was fresh, whenever it was
closed and opened again. -/
theorem turns_reached {file : Option String} (hfile : file.getD "" = "") (maxTurns : ℕ)
    {es : List StoreEvent} (hes : ∀ e ∈ es, e.Succeeds J) :
    ((sessionFile J file maxTurns).reached es).store.turns =
      (es.filterMap StoreEvent.turn).rtake maxTurns :=
  (SessionFile.keeps_reached hfile maxTurns hes).turns_eq

def firstTurn : SessionTurn := ⟨1, "g", "a", ["b"], [("c", .null)]⟩

def secondTurn : SessionTurn := ⟨2, "g", "d", [], []⟩

def twoTurns : JsonText where
  floatText _ := "0.0"
  read text := ([firstTurn, secondTurn].find? fun turn =>
    turn.toString ⟨fun _ => "0.0", fun _ => none⟩ == text).map SessionTurn.toTree

theorem twoTurns_floats : twoTurns.FloatsOnOneLine := by
  intro x _
  change '\n' ∉ "0.0".toList
  decide

theorem firstTurn_onOneLine : firstTurn.OnOneLine twoTurns :=
  SessionTurn.onOneLine ⟨by decide, by simp [firstTurn, Value.InMemory.null]⟩
    twoTurns_floats (fun _ _ => by rfl) (by decide)

theorem secondTurn_onOneLine : secondTurn.OnOneLine twoTurns :=
  SessionTurn.onOneLine ⟨by decide, by simp [secondTurn]⟩
    twoTurns_floats (fun _ _ => by rfl) (by decide)

def appendFirst : StoreEvent := .append 1 ⟨"g", 0, "a", .tick 0⟩ ["b"] [("c", .null)] .whole

def appendSecond : StoreEvent := .append 2 ⟨"g", 0, "d", .tick 1⟩ [] [] .whole

theorem turns_reached_twoTurns :
    ((sessionFile twoTurns none 1).reached [appendFirst, .reopen, appendSecond]).store.turns =
      [firstTurn, secondTurn].rtake 1 := by
  refine turns_reached rfl 1 ?_
  intro e he
  simp only [List.mem_cons, List.not_mem_nil, or_false] at he
  obtain rfl | rfl | rfl := he
  · exact ⟨rfl, firstTurn_onOneLine⟩
  · trivial
  · exact ⟨rfl, secondTurn_onOneLine⟩

/-! ## Concurrent appends -/

inductive AppendStep where
  | write (turn : SessionTurn)
  | push (turn : SessionTurn)

namespace AppendStep

def ofTurn (turn : SessionTurn) : List AppendStep := [write turn, push turn]

def written : AppendStep → Option SessionTurn
  | write turn => some turn
  | push _ => none

def pushed : AppendStep → Option SessionTurn
  | write _ => none
  | push turn => some turn

end AppendStep

namespace SessionFile

def take (J : JsonText) (s : SessionFile) : AppendStep → SessionFile
  | .write turn => s.write J turn .whole
  | .push turn => s.push turn

/-- A call on its own is its two steps. -/
theorem append_eq_foldl_take (s : SessionFile) (ts : ℕ) (goal : Goal) (expressed : List String)
    (results : List (String × Value)) : s.append J ts goal expressed results .whole =
      (AppendStep.ofTurn ⟨ts, goal.id, goal.objective, expressed, results⟩).foldl (take J) s := rfl

theorem Keeps.foldl_take {s : SessionFile} {maxTurns : ℕ} {written pushed : List SessionTurn}
    (h : s.Keeps J maxTurns written pushed) (steps : List AppendStep)
    (hsteps : ∀ turn ∈ steps.filterMap AppendStep.written, turn.OnOneLine J) :
    (steps.foldl (take J) s).Keeps J maxTurns (written ++ steps.filterMap AppendStep.written)
      (pushed ++ steps.filterMap AppendStep.pushed) := by
  induction steps generalizing s written pushed with
  | nil => simpa using h
  | cons step steps ih =>
    cases step with
    | write turn =>
      rw [List.filterMap_cons_some (rfl : (AppendStep.write turn).written = some turn)] at hsteps ⊢
      rw [List.filterMap_cons_none (rfl : (AppendStep.write turn).pushed = none), List.foldl_cons,
        List.append_cons]
      exact ih (h.write (hsteps turn List.mem_cons_self)) fun t ht =>
        hsteps t (List.mem_cons_of_mem turn ht)
    | push turn =>
      rw [List.filterMap_cons_none (rfl : (AppendStep.push turn).written = none)] at hsteps ⊢
      rw [List.filterMap_cons_some (rfl : (AppendStep.push turn).pushed = some turn),
        List.foldl_cons, List.append_cons]
      exact ih (h.push turn) hsteps

end SessionFile

theorem filterMap_flatten_ofTurn {f : AppendStep → Option SessionTurn}
    (hf : ∀ turn, (AppendStep.ofTurn turn).filterMap f = [turn]) (turns : List SessionTurn) :
    (turns.map AppendStep.ofTurn).flatten.filterMap f = turns := by
  induction turns with
  | nil => rfl
  | cons turn turns ih => rw [List.map_cons, List.flatten_cons, List.filterMap_append, hf, ih,
      List.singleton_append]

/-- Each call writes its turn once. -/
theorem perm_written {turns : List SessionTurn} {steps : List AppendStep}
    (h : Interleaves (turns.map AppendStep.ofTurn) steps) :
    (steps.filterMap AppendStep.written).Perm turns := by
  have hperm := h.perm.filterMap AppendStep.written
  rwa [filterMap_flatten_ofTurn fun _ => rfl] at hperm

/-- Each call pushes its turn once. -/
theorem perm_pushed {turns : List SessionTurn} {steps : List AppendStep}
    (h : Interleaves (turns.map AppendStep.ofTurn) steps) :
    (steps.filterMap AppendStep.pushed).Perm turns := by
  have hperm := h.perm.filterMap AppendStep.pushed
  rwa [filterMap_flatten_ofTurn fun _ => rfl] at hperm

/-- Once all calls have returned, a store that is opened on the file shows the turns of the live one
exactly if the calls that were last to write were last to push, in the same order. -/
theorem turns_reopen_iff {file : Option String} (hfile : file.getD "" = "") (maxTurns : ℕ)
    {es : List StoreEvent} (hes : ∀ e ∈ es, e.Succeeds J) {turns : List SessionTurn}
    (hturns : ∀ turn ∈ turns, turn.OnOneLine J) {steps : List AppendStep}
    (hsteps : Interleaves (turns.map AppendStep.ofTurn) steps) :
    let live := steps.foldl (SessionFile.take J) ((sessionFile J file maxTurns).reached es)
    (live.reopen J).store.turns = live.store.turns ↔
      (steps.filterMap AppendStep.written).rtake maxTurns =
        (steps.filterMap AppendStep.pushed).rtake maxTurns := by
  have hwritten := perm_written hsteps
  have hlength : (steps.filterMap AppendStep.written).length =
      (steps.filterMap AppendStep.pushed).length :=
    hwritten.length_eq.trans (perm_pushed hsteps).length_eq.symm
  have hkeeps := (SessionFile.keeps_reached hfile maxTurns hes).foldl_take steps
    fun turn hturn => hturns turn (hwritten.mem_iff.mp hturn)
  dsimp only
  rw [hkeeps.reopen.turns_eq, hkeeps.turns_eq, Window.rtake_append_left_inj hlength]

def overtakenAppends : List AppendStep :=
  [.write firstTurn, .write secondTurn, .push secondTurn, .push firstTurn]

theorem interleaves_overtaken :
    Interleaves ([firstTurn, secondTurn].map AppendStep.ofTurn) overtakenAppends := by
  have hdone : Interleaves [([] : List AppendStep), []] [] := .done (by simp)
  have hfirst : Interleaves [[AppendStep.push firstTurn], []] (overtakenAppends.drop 3) :=
    .step (l := []) hdone
  have hsecond : Interleaves [[AppendStep.push firstTurn], [.push secondTurn]]
      (overtakenAppends.drop 2) := .step (l := [[AppendStep.push firstTurn]]) hfirst
  have hwrite : Interleaves [[AppendStep.push firstTurn], [.write secondTurn, .push secondTurn]]
      (overtakenAppends.drop 1) := .step (l := [[AppendStep.push firstTurn]]) hsecond
  exact .step (l := []) hwrite

theorem twoTurns_onOneLine : ∀ turn ∈ [firstTurn, secondTurn], turn.OnOneLine twoTurns := by
  intro turn hturn
  simp only [List.mem_cons, List.not_mem_nil, or_false] at hturn
  obtain rfl | rfl := hturn
  · exact firstTurn_onOneLine
  · exact secondTurn_onOneLine

/-- The file and the memory then have the two turns in different orders. -/
theorem overtaken_reorders :
    let live := overtakenAppends.foldl (SessionFile.take twoTurns)
      ((sessionFile twoTurns none 100).reached [])
    (live.reopen twoTurns).store.turns ≠ live.store.turns := by
  have hfresh := SessionFile.keeps_fresh (J := twoTurns)
    (rfl : (none : Option String).getD "" = "") 100
  have hkeeps := hfresh.foldl_take overtakenAppends twoTurns_onOneLine
  dsimp only
  rw [Machine.reached_nil, hkeeps.reopen.turns_eq, hkeeps.turns_eq]
  intro h
  have hts := congrArg (fun turns => turns.map SessionTurn.ts) h
  revert hts
  decide

theorem turns_reopen_iff_overtaken :
    let live := overtakenAppends.foldl (SessionFile.take twoTurns)
      ((sessionFile twoTurns none 1).reached [appendFirst])
    (live.reopen twoTurns).store.turns = live.store.turns ↔
      (overtakenAppends.filterMap AppendStep.written).rtake 1 =
        (overtakenAppends.filterMap AppendStep.pushed).rtake 1 := by
  refine turns_reopen_iff rfl 1 ?_ twoTurns_onOneLine interleaves_overtaken
  intro e he
  rw [List.mem_singleton.mp he]
  exact ⟨rfl, firstTurn_onOneLine⟩

end Keeps

end Pan
