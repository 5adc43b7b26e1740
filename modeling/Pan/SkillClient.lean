import Pan.Skills

namespace Pan

/-! ## Python -/

namespace Python

def truthy : Value → Bool
  | .null => false
  | .bool b => b
  | .number (.posInt n) => n != 0
  | .number (.negInt i) => i != 0
  | .number (.float x) => x.magnitude != 0
  | .string s => s != ""
  | .array xs => !xs.isEmpty
  | .object members => !members.isEmpty

/-- `a or b` -/
def or (a b : Value) : Value := if truthy a then a else b

/-- `v == n` for a positive integer. A double equals it only if it is no nearest one but the number
itself. -/
def equalsNat : Value → ℕ → Bool
  | .bool b, n => b.toNat == n
  | .number (.posInt m), n => m == n
  | .number (.float x), n => n % 2 ^ (Nat.log2 n - 52) == 0 && x == F64.ofNat n
  | _, _ => false

/-- What is false in Python. -/
theorem falsy_cases {v : Value} (h : truthy v = false) :
    v = .null ∨ v = .bool false ∨ v = .number (.posInt 0) ∨ v = .number (.negInt 0) ∨
      (∃ x : F64, x.magnitude = 0 ∧ v = .number (.float x)) ∨ v = .string "" ∨ v = .array [] ∨
      v = .object [] := by
  cases v with
  | null => exact .inl rfl
  | bool b => simp_all [truthy]
  | number n => cases n <;> simp_all [truthy]
  | string s => simp_all [truthy]
  | array xs => simp_all [truthy]
  | object members => simp_all [truthy]

section Members

variable {v x : Value} {key : String} (h : v.get key = some x)

include h

theorem isObject_of_get : v.isObject = true := by
  cases v <;> first | rfl | cases h

/-- A dictionary with an item is true. -/
theorem truthy_of_get : truthy v = true := by
  cases v with
  | object members =>
    cases members with
    | nil => cases h
    | cons m members => rfl
  | _ => cases h

end Members

end Python

/-! ## The client library -/

/-- What `pan.invoke` raises. -/
inductive PanException where
  | panError (kind message : Value)
  | panDenied (kind message : Value)
  | eofError (text : String)
  | jsonDecodeError (text : String)
  | attributeError

/-- A call of `pan.invoke` in progress: the calls so far, and the lines that the host has for it. -/
structure PanState where
  counter : ℕ
  stdin : List String

/-- The standard library under the client: `json.dumps`, `json.loads` and `repr`. -/
structure PanClient where
  dumps : Value → String
  /-- The value of a text, or why there is none. -/
  loads : String → Except String Value
  repr : Value → String

namespace PanClient

variable (client : PanClient)

/-- What `_send` writes to stdout. -/
def send (obj : Value) : Eff String PanState PUnit := Eff.emit (client.dumps obj ++ "\n")

def recv : Eff String PanState (Except PanException Value) :=
  Eff.ask fun s => match s.stdin with
    | [] => (.error (.eofError "pan host closed the connection"), s)
    | line :: stdin =>
      match client.loads line with
      | .ok resp => (.ok resp, ⟨s.counter, stdin⟩)
      | .error e => (.error (.jsonDecodeError e), ⟨s.counter, stdin⟩)

def invokeMessage (rid : ℕ) (capability : String) (args : Value) : Value :=
  .object [("type", .string "invoke"), ("id", natTree rid), ("capability", .string capability),
    ("args", Python.or args (.object []))]

/-- What is made of the answer. Only a dictionary has a `get`. -/
def receive (rid : ℕ) (resp : Value) : Except PanException Value :=
  -- `resp.get` on anything but a dictionary
  if !resp.isObject then .error .attributeError
  else if (resp.get "type").bind Value.asStr ≠ some RESULT_TYPE ∨
      !(Python.equalsNat ((resp.get "id").getD .null) rid) then
    .error (.panError (.string "protocol")
      (.string s!"desynchronized response: {client.repr resp}"))
  else if Python.truthy ((resp.get "ok").getD .null) then .ok ((resp.get "value").getD .null)
  else
    let err := Python.or ((resp.get "error").getD .null) (.object [])
    if !err.isObject then .error .attributeError
    else
      let kind := (err.get "kind").getD (.string "failed")
      let message := (err.get "message").getD (.string "")
      if kind.asStr = some "denied" then .error (.panDenied kind message)
      else .error (.panError kind message)

/-- Ask the host to run a capability. Args that are not given are null. -/
def invoke (capability : String) (args : Value) :
    Eff String PanState (Except PanException Value) := do
  let rid ← Eff.ask fun s => (s.counter + 1, ⟨s.counter + 1, s.stdin⟩)
  client.send (invokeMessage rid capability args)
  match ← client.recv with
  | .error e => return .error e
  | .ok resp => return client.receive rid resp

/-- A call writes one message before it waits. -/
theorem invoke_sends (capability : String) (args : Value) (s : PanState) :
    (client.invoke capability args s).1 =
      [client.dumps (invokeMessage (s.counter + 1) capability args) ++ "\n"] := by
  unfold invoke send recv
  rw [Eff.bind_of_some rfl, Eff.bind_of_some rfl, Eff.actions_bind_of_silent]
  · rfl
  · rintro (e | resp) w <;> rfl

def raised : InvokeError → PanException
  | .denied capability reason =>
    .panDenied (.string "denied") (.string (InvokeError.denied capability reason).display)
  | err => .panError (.string err.kind) (.string err.display)

end PanClient

/-! ## From the client to the host -/

/-- What `next_line` reads of a text with its line feed. -/
def nextLine (text : String) : String :=
  let line := text.toList.takeWhile (· ≠ '\n')
  String.ofList (if line.getLast? = some '\r' then line.dropLast else line)

/-- What `json.dumps` writes for an object is one line in braces, and `serde_json` reads the object
in it. -/
structure PanClient.Agrees (client : PanClient) (J : JsonText) (obj : Value) : Prop where
  read : J.read (client.dumps obj) = some obj
  oneLine : '\n' ∉ (client.dumps obj).toList
  braces : ∃ inner, (client.dumps obj).toList = '\x7b' :: inner ++ ['\x7d']

/-- In every run that comes to the line, the next thing that is done is to call the invoker with
these args. -/
def ArrivesWith (J : JsonText) (line capability : String) (args : Value) : Prop :=
  ∀ (H : SkillHost) (runner : SkillRunner) (skillPath : String) (input : Value)
    (before rest : List (Except String String)) (exit : Option SkillExit) (W : Type)
    (invoker : ScopedInvoker W) (w : W) (trace : List SkillAction)
    (r : Except SkillError Value × W),
    H.json = J →
    H.spawn (runner.command H skillPath input) = .ok ⟨before ++ .ok line :: rest, exit⟩ →
    (∀ o ∈ before, (H.event o).goesOn) → H.loop invoker before w = (trace, some r) →
    ∃ more, (runner.run H skillPath input invoker w).1 = trace ++ .invoke capability args :: more

theorem PanClient.Agrees.nextLine_eq {client : PanClient} {J : JsonText} {obj : Value}
    (h : client.Agrees J obj) : nextLine (client.dumps obj ++ "\n") = client.dumps obj := by
  obtain ⟨inner, hinner⟩ := h.braces
  have hline : (client.dumps obj ++ "\n").toList.takeWhile (· ≠ '\n') =
      (client.dumps obj).toList := by
    have hall : ∀ c ∈ (client.dumps obj).toList, decide (c ≠ '\n') = true := fun c hc =>
      decide_eq_true fun heq => h.oneLine (heq ▸ hc)
    rw [String.toList_append, List.takeWhile_append_of_pos hall]
    exact List.append_nil _
  have hlast : (client.dumps obj).toList.getLast? ≠ some '\r' := by
    rw [hinner, List.getLast?_concat]
    decide
  unfold nextLine
  rw [hline]
  dsimp only
  rw [if_neg hlast, String.ofList_toList]

namespace SkillHost

variable {H : SkillHost}

theorem event_invokeMessage {client : PanClient} {rid : ℕ} {capability : String} {args : Value}
    (hread : H.json.ReadsPlain)
    (h : client.Agrees H.json (PanClient.invokeMessage rid capability args)) :
    H.event (.ok (client.dumps (PanClient.invokeMessage rid capability args))) =
      .request ⟨rid, capability, (Python.or args (.object [])).collect⟩ := by
  have hid : decodeU64 (natTree rid) = some rid := by
    have hplain := hread _ _ h.read
    rw [PanClient.invokeMessage, Value.plain_object] at hplain
    cases hplain ("id", natTree rid) (by simp) with
    | number hn => exact if_pos hn
  have hblank : isBlank (client.dumps (PanClient.invokeMessage rid capability args)) = false := by
    obtain ⟨inner, hinner⟩ := h.braces
    rw [isBlank, hinner]
    rfl
  have hdecode : FromSkill.decode (PanClient.invokeMessage rid capability args) =
      some (.invoke rid capability (Python.or args (.object [])).collect) := by
    simp [PanClient.invokeMessage, FromSkill.decode, uniqueMember, Value.asStr, hid]
  rw [event, hblank, FromSkill.fromStr, h.read, Option.bind_some, hdecode]
  rfl

end SkillHost

namespace PanClient

variable {client : PanClient} {J : JsonText} {capability : String} {args : Value}

/-- The args that arrive are those of the message. -/
theorem arrivesWith_iff (hread : J.ReadsPlain) {rid : ℕ}
    (hagree : client.Agrees J (invokeMessage rid capability args)) (v : Value) :
    ArrivesWith J (client.dumps (invokeMessage rid capability args)) capability v ↔
      v = (Python.or args (.object [])).collect := by
  have hloop : ∀ {H : SkillHost} {W : Type} (invoker : ScopedInvoker W)
      (rest : List (Except String String)) (w : W), H.json = J → ∃ more,
      (H.loop invoker (.ok (client.dumps (invokeMessage rid capability args)) :: rest) w).1 =
        .invoke capability (Python.or args (.object [])).collect :: more := by
    rintro H W invoker rest w rfl
    rw [SkillHost.loop_cons, SkillHost.event_invokeMessage hread hagree]
    exact ⟨_, rfl⟩
  constructor
  · intro h
    -- one run decides, of a skill that writes this line and no other
    let H : SkillHost := ⟨J, fun _ => "", fun _ =>
      .ok ⟨[.ok (client.dumps (invokeMessage rid capability args))], none⟩⟩
    obtain ⟨more, hmore⟩ := h H ⟨"", [], ""⟩ "" .null [] [] none Unit (fun _ _ => Eff.never) () []
      (.error (.noReturn "" none), ()) rfl rfl (by simp) rfl
    obtain ⟨more', hmore'⟩ := hloop (H := H) (fun _ _ => Eff.never) [] () rfl
    rw [SkillRunner.actions_run (H := H) rfl] at hmore
    have hcall := hmore.symm.trans hmore'
    cases hcall
    rfl
  · rintro rfl H runner skillPath input before rest exit W invoker w trace r hJ hspawn hbefore
      htrace
    obtain ⟨more, hmore⟩ := hloop invoker rest r.2 hJ
    refine ⟨more, ?_⟩
    rw [SkillRunner.actions_run hspawn, SkillHost.loop_append hbefore,
      Eff.bind_of_some (by rw [htrace]), htrace, hmore]

/-- Args other than none arrive at the host as they are exactly if they are true or the empty
object. -/
theorem invoke_arrives_iff (hread : J.ReadsPlain) {s : PanState} (hnull : args ≠ .null)
    (hagree : client.Agrees J (invokeMessage (s.counter + 1) capability args)) :
    (∃ text, (client.invoke capability args s).1 = [text] ∧
      ArrivesWith J (nextLine text) capability args.collect) ↔
        Python.truthy args = true ∨ args = .object [] := by
  have hsent : (∃ text, (client.invoke capability args s).1 = [text] ∧
      ArrivesWith J (nextLine text) capability args.collect) ↔
        args.collect = (Python.or args (.object [])).collect := by
    rw [invoke_sends, ← arrivesWith_iff hread hagree]
    simp [hagree.nextLine_eq]
  rw [hsent]
  cases htruthy : Python.truthy args with
  | true => simp [Python.or, htruthy]
  | false =>
    -- of what is replaced only the empty object is its own replacement
    rw [Python.or, htruthy, if_neg Bool.false_ne_true]
    obtain rfl | rfl | rfl | rfl | ⟨x, -, rfl⟩ | rfl | rfl | rfl := Python.falsy_cases htruthy
    · exact absurd rfl hnull
    all_goals simp [Value.collect]

/-- A first call of `cap.x` with args of this text. -/
def firstCall (argsText : String) : String :=
  "\x7b\"type\": \"invoke\", \"id\": 1, \"capability\": \"cap.x\", \"args\": " ++ argsText ++
    "\x7d"

/-- A client that writes, and a host that reads, such a call. -/
def writes (argsText : String) : PanClient where
  dumps _ := firstCall argsText
  loads _ := .error ""
  repr _ := ""

def reads (argsText : String) (args : Value) : JsonText :=
  .readsOnly [(firstCall argsText, invokeMessage 1 "cap.x" args)]

theorem readsPlain_reads (argsText : String) (args : Value)
    (hargs : (Python.or args (.object [])).Plain) : (reads argsText args).ReadsPlain := by
  refine JsonText.readsPlain_readsOnly fun p hp => ?_
  obtain rfl := List.mem_singleton.mp hp
  have hid : (natTree 1).Plain := .number (show (1 : ℕ) < 2 ^ 64 by decide)
  simp [invokeMessage, hid, hargs]

theorem agrees_writes (argsText : String) (hline : '\n' ∉ argsText.toList) (args : Value) :
    (writes argsText).Agrees (reads argsText args) (invokeMessage 1 "cap.x" args) where
  read := JsonText.read_readsOnly (by simp) List.mem_cons_self
  oneLine := by
    unfold writes firstCall
    simp [hline]
  braces := by
    refine ⟨"\"type\": \"invoke\", \"id\": 1, \"capability\": \"cap.x\", \"args\": ".toList ++
      argsText.toList, ?_⟩
    unfold writes firstCall
    simp

/-- True arrives as it is. -/
theorem invoke_arrives_iff_true : ∃ text,
    ((writes "true").invoke "cap.x" (.bool true) ⟨0, []⟩).1 = [text] ∧
      ArrivesWith (reads "true" (.bool true)) (nextLine text) "cap.x" (.bool true) :=
  (invoke_arrives_iff (readsPlain_reads "true" (.bool true) (.bool true)) (s := ⟨0, []⟩)
    (by simp) (agrees_writes "true" (by simp) (.bool true))).mpr (.inl rfl)

/-- Zero arrives as an empty object. -/
theorem invoke_zero_replaced : ∃ text,
    ((writes "\x7b\x7d").invoke "cap.x" (natTree 0) ⟨0, []⟩).1 = [text] ∧
      ArrivesWith (reads "\x7b\x7d" (natTree 0)) (nextLine text) "cap.x" (.object []) ∧
      ¬ArrivesWith (reads "\x7b\x7d" (natTree 0)) (nextLine text) "cap.x" (natTree 0) := by
  have hread : (reads "\x7b\x7d" (natTree 0)).ReadsPlain :=
    readsPlain_reads _ _ (.object (by simp))
  have hagree := agrees_writes "\x7b\x7d" (by simp) (natTree 0)
  refine ⟨_, invoke_sends _ _ _ _, ?_, ?_⟩
  · rw [hagree.nextLine_eq, arrivesWith_iff hread hagree]
    rfl
  · rw [hagree.nextLine_eq, arrivesWith_iff hread hagree]
    simp [Python.or, Python.truthy, natTree, Value.collect]

end PanClient

end Pan
