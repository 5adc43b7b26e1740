import Pan.Codec
import Pan.Library.Text

namespace Pan

/-! ## Parts -/

open SortedMap

/-- What is written under a key of its own is found again. -/
theorem get_collect {fields : List (String × Value)} (hkeys : (fields.map Prod.fst).Nodup)
    {f : String × Value} (hf : f ∈ fields) :
    get f.1 (ofList (fields.map fun f => (f.1, f.2.collect))) = some f.2.collect := by
  have hnodup : ((fields.map fun f => (f.1, f.2.collect)).map Prod.fst).Nodup := by
    rw [List.map_map]
    exact hkeys
  have hmem : (f.1, f.2.collect) ∈ fields.map fun f => (f.1, f.2.collect) :=
    List.mem_map_of_mem (f := fun f : String × Value => (f.1, f.2.collect)) hf
  rw [get_ofList]
  exact last_of_nodup hnodup hmem

theorem get_collect_of_notMem {fields : List (String × Value)} {key : String}
    (hkey : key ∉ fields.map Prod.fst) :
    get key (ofList (fields.map fun f => (f.1, f.2.collect))) = none := by
  rw [get_ofList]
  apply last_of_notMem
  rw [List.map_map]
  exact hkey

/-- The fields that are written after the tag are found again. -/
theorem structFields_collect (tag fields : List (String × Value))
    (hkeys : ((tag ++ fields).map Prod.fst).Nodup) :
    structFields (fields.map Prod.fst) (Value.object (tag ++ fields)).collect =
      some (fields.map fun f => f.2.collect) := by
  have hget : ∀ f ∈ fields, get f.1 (ofList ((tag ++ fields).map fun f => (f.1, f.2.collect))) =
      some f.2.collect := fun f hf => get_collect hkeys (List.mem_append_right tag hf)
  rw [Value.collect_object]
  unfold structFields
  dsimp only
  generalize ofList ((tag ++ fields).map fun f => (f.1, f.2.collect)) = members at hget
  clear hkeys
  induction fields with
  | nil => rfl
  | cons f fields ih =>
    rw [List.map_cons, List.mapM_cons, hget f (by simp), ih fun g hg => hget g (by simp [hg])]
    rfl

/-- The tag is found again. -/
theorem taggedContent_collect (tag name : String) (fields : List (String × Value))
    (hkeys : (((tag, Value.string name) :: fields).map Prod.fst).Nodup) :
    taggedContent tag (Value.object ((tag, .string name) :: fields)).collect =
      some (name, (Value.object ((tag, .string name) :: fields)).collect) := by
  have hget := get_collect hkeys (f := (tag, .string name)) (by simp)
  rw [Value.collect_object]
  unfold taggedContent
  dsimp only at hget ⊢
  rw [hget]
  rfl

theorem decodeNat_natTree {bound n : ℕ} (h : n < bound) : decodeNat bound (natTree n) = some n :=
  if_pos h

theorem asF64_floatTree {x : F64} (h : x.magnitude < 0x7ff0000000000000) :
    (floatTree x).collect.asF64 = some x := by
  unfold floatTree
  rw [if_pos h]
  rfl

theorem decodeVec_collect {α : Type} {toTree : α → Value} {decode : Value → Option α} {xs : List α}
    (h : ∀ x ∈ xs, decode (toTree x).collect = some x) :
    decodeVec decode (Value.array (xs.map toTree)).collect = some xs := by
  rw [Value.collect_array]
  unfold decodeVec
  dsimp only
  induction xs with
  | nil => rfl
  | cons x xs ih =>
    rw [List.map_cons, List.map_cons, List.mapM_cons, h x (by simp),
      ih fun y hy => h y (by simp [hy])]
    rfl

/-! ## The vocabulary -/

namespace Trigger

def InRange : Trigger → Prop
  | utterance _ _ => True
  | tick sequence => sequence < 2 ^ 64
  | event _ payload => payload.InMemory
  | signal _ value => value.magnitude < 0x7ff0000000000000

theorem decode_collect {t : Trigger} (h : t.InRange) : decode t.toTree.collect = some t := by
  -- the tag is read first, then the fields that the tag asks for
  cases t with
  | utterance sender content =>
    have htag : taggedContent "kind" (utterance sender content).toTree.collect =
        some ("utterance", (utterance sender content).toTree.collect) :=
      taggedContent_collect "kind" "utterance"
        [("from", .string sender), ("content", .string content)] (by simp)
    have hfields : structFields ["from", "content"] (utterance sender content).toTree.collect =
        some [.string sender, .string content] :=
      structFields_collect [("kind", .string "utterance")]
        [("from", .string sender), ("content", .string content)] (by simp)
    unfold decode
    simp [htag, hfields, Value.asStr]
  | tick sequence =>
    have htag : taggedContent "kind" (tick sequence).toTree.collect =
        some ("tick", (tick sequence).toTree.collect) :=
      taggedContent_collect "kind" "tick" [("sequence", natTree sequence)] (by simp)
    have hfields : structFields ["sequence"] (tick sequence).toTree.collect =
        some [natTree sequence] :=
      structFields_collect [("kind", .string "tick")] [("sequence", natTree sequence)] (by simp)
    have hsequence : decodeU64 (natTree sequence) = some sequence := decodeNat_natTree h
    unfold decode
    simp [htag, hfields, hsequence]
  | event topic payload =>
    have htag : taggedContent "kind" (event topic payload).toTree.collect =
        some ("event", (event topic payload).toTree.collect) :=
      taggedContent_collect "kind" "event" [("topic", .string topic), ("payload", payload)]
        (by simp)
    have hfields : structFields ["topic", "payload"] (event topic payload).toTree.collect =
        some [.string topic, payload.collect] :=
      structFields_collect [("kind", .string "event")]
        [("topic", .string topic), ("payload", payload)] (by simp)
    have hpayload : payload.collect = payload := Value.InMemory.collect_eq h
    unfold decode
    simp [htag, hfields, hpayload, Value.asStr]
  | signal name value =>
    have htag : taggedContent "kind" (signal name value).toTree.collect =
        some ("signal", (signal name value).toTree.collect) :=
      taggedContent_collect "kind" "signal" [("name", .string name), ("value", floatTree value)]
        (by simp)
    have hfields : structFields ["name", "value"] (signal name value).toTree.collect =
        some [.string name, (floatTree value).collect] :=
      structFields_collect [("kind", .string "signal")]
        [("name", .string name), ("value", floatTree value)] (by simp)
    have hvalue : (floatTree value).collect.asF64 = some value := asF64_floatTree h
    unfold decode
    simp [htag, hfields, hvalue, Value.asStr]

end Trigger

namespace Goal

def InRange (g : Goal) : Prop := g.revision < 2 ^ 64 ∧ g.trigger.InRange

theorem decode_collect {g : Goal} (h : g.InRange) : decode g.toTree.collect = some g := by
  have hfields : structFields ["id", "revision", "objective", "trigger"] g.toTree.collect =
      some [.string g.id, natTree g.revision, .string g.objective, g.trigger.toTree.collect] :=
    structFields_collect [] [("id", .string g.id), ("revision", natTree g.revision),
      ("objective", .string g.objective), ("trigger", g.trigger.toTree)] (by simp)
  have hrevision : decodeU64 (natTree g.revision) = some g.revision := decodeNat_natTree h.1
  unfold decode
  simp [hfields, hrevision, Trigger.decode_collect h.2, Value.asStr]

end Goal

theorem Fragment.decode_collect (f : Fragment) : decode f.toTree.collect = some f := by
  have hfields : structFields ["channel", "body"] f.toTree.collect =
      some [.string f.channel, .string f.body] :=
    structFields_collect [] [("channel", .string f.channel), ("body", .string f.body)] (by simp)
  unfold decode
  simp [hfields, Value.asStr]

theorem Context.decode_collect (ctx : Context) : decode ctx.toTree.collect = some ctx := by
  have hfields : structFields ["fragments"] ctx.toTree.collect =
      some [(Value.array (ctx.fragments.map Fragment.toTree)).collect] :=
    structFields_collect [] [("fragments", .array (ctx.fragments.map Fragment.toTree))] (by simp)
  have hfragments := decodeVec_collect fun f (_ : f ∈ ctx.fragments) => f.decode_collect
  unfold decode
  simp [hfields, hfragments]

theorem Capability.decode_collect {cap : Capability} (h : cap.argsSchema.InMemory) :
    decode cap.toTree.collect = some cap := by
  have hfields : structFields ["id", "summary", "args_schema"] cap.toTree.collect =
      some [.string cap.id, .string cap.summary, cap.argsSchema.collect] :=
    structFields_collect [] [("id", .string cap.id), ("summary", .string cap.summary),
      ("args_schema", cap.argsSchema)] (by simp)
  unfold decode
  simp [hfields, h.collect_eq, Value.asStr]

theorem Outcome.ofStr_asStr (o : Outcome) : ofStr o.asStr = some o := by cases o <;> rfl

namespace ActionIntent

def InRange : ActionIntent → Prop
  | invoke _ args _ => args.InMemory
  | express _ => True
  | conclude _ => True

/-- A correlation that is left out is read as a null. -/
theorem invokeFields_collect (capability : String) (args : Value) (correlation : Option String) :
    invokeFields (invoke capability args correlation).toTree.collect =
      some (.string capability, args.collect, (correlation.map Value.string).getD .null) := by
  let fields : List (String × Value) :=
    [("intent", .string "invoke"), ("capability", .string capability), ("args", args)] ++
      correlation.toList.map fun c => ("correlation", .string c)
  have hkeys : (fields.map Prod.fst).Nodup := by cases correlation <;> simp [fields]
  have hcapability : ("capability", .string capability) ∈ fields := by simp [fields]
  have hargs : ("args", args) ∈ fields := by simp [fields]
  have hcorrelation : get "correlation" (ofList (fields.map fun f => (f.1, f.2.collect))) =
      correlation.map Value.string := by
    cases correlation with
    | none => exact get_collect_of_notMem (by simp [fields])
    | some c => exact get_collect hkeys (f := ("correlation", .string c)) (by simp [fields])
  have htree : (invoke capability args correlation).toTree.collect =
      .object (ofList (fields.map fun f => (f.1, f.2.collect))) := by
    rw [← Value.collect_object]
    cases correlation <;> rfl
  rw [htree]
  unfold invokeFields
  dsimp only
  rw [get_collect hkeys hcapability, get_collect hkeys hargs, hcorrelation]
  rfl

theorem decode_collect {i : ActionIntent} (h : i.InRange) : decode i.toTree.collect = some i := by
  cases i with
  | invoke capability args correlation =>
    have hargs : args.collect = args := Value.InMemory.collect_eq h
    unfold decode
    rcases correlation with _ | correlation
    · have htag : taggedContent "intent" (invoke capability args none).toTree.collect =
          some ("invoke", (invoke capability args none).toTree.collect) :=
        taggedContent_collect "intent" "invoke"
          [("capability", .string capability), ("args", args)] (by simp)
      simp [htag, invokeFields_collect, hargs, decodeOption, Value.asStr]
    · have htag :
          taggedContent "intent" (invoke capability args (some correlation)).toTree.collect =
            some ("invoke", (invoke capability args (some correlation)).toTree.collect) :=
        taggedContent_collect "intent" "invoke" [("capability", .string capability),
          ("args", args), ("correlation", .string correlation)] (by simp)
      simp [htag, invokeFields_collect, hargs, decodeOption, Value.asStr]
  | express body =>
    have htag : taggedContent "intent" (express body).toTree.collect =
        some ("express", (express body).toTree.collect) :=
      taggedContent_collect "intent" "express" [("body", .string body)] (by simp)
    have hfields : structFields ["body"] (express body).toTree.collect = some [.string body] :=
      structFields_collect [("intent", .string "express")] [("body", .string body)] (by simp)
    unfold decode
    simp [htag, hfields, Value.asStr]
  | conclude outcome =>
    have htag : taggedContent "intent" (conclude outcome).toTree.collect =
        some ("conclude", (conclude outcome).toTree.collect) :=
      taggedContent_collect "intent" "conclude" [("outcome", .string outcome.asStr)] (by simp)
    have hfields : structFields ["outcome"] (conclude outcome).toTree.collect =
        some [.string outcome.asStr] :=
      structFields_collect [("intent", .string "conclude")] [("outcome", .string outcome.asStr)]
        (by simp)
    unfold decode
    simp [htag, hfields, bufferedUnitVariant, unitVariant, Outcome.ofStr_asStr]

end ActionIntent

theorem Decision.decode_collect {d : Decision} (h : ∀ i ∈ d.intents, i.InRange) :
    decode d.toTree.collect = some d := by
  have hfields : structFields ["intents"] d.toTree.collect =
      some [(Value.array (d.intents.map ActionIntent.toTree)).collect] :=
    structFields_collect [] [("intents", .array (d.intents.map ActionIntent.toTree))] (by simp)
  have hintents := decodeVec_collect fun i hi => ActionIntent.decode_collect (h i hi)
  unfold decode
  simp [hfields, hintents]

theorem MindKind.decode_asStr (m : MindKind) : decode (.string m.asStr) = some m := by
  cases m <;> rfl

theorem ErrorCode.decode_asStr (code : ErrorCode) : decode (.string code.asStr) = some code := by
  cases code <;> rfl

theorem MessageType.decode_asStr (ty : MessageType) : decode (.string ty.asStr) = some ty := by
  cases ty <;> rfl

/-! ## Bodies -/

namespace Body

def InRange : Body → Prop
  | hello b => b.protocolVersion < 2 ^ 32
  | welcome b => b.protocolVersion < 2 ^ 32
  | registerCapabilities b => ∀ cap ∈ b.capabilities, cap.argsSchema.InMemory
  | instantiateSoul b => b.soul.InMemory
  | releaseSoul _ => True
  | perceive b => b.goal.InRange
  | decision b => b.goalRevision < 2 ^ 64 ∧ ∀ i ∈ b.decision.intents, i.InRange
  | ack => True
  | error _ => True
  | shutdown => True

theorem fromValue_collect {body : Body} (h : body.InRange) :
    fromValue body.ty body.toTree.collect = some body := by
  -- In each case: what its fields are once they are collected, and that each is read back.
  cases body with
  | hello b =>
    have hfields : structFields ["protocol_version", "profile", "client"]
        (hello b).toTree.collect =
          some [natTree b.protocolVersion, .string b.profile, .string b.client] :=
      structFields_collect [] [("protocol_version", natTree b.protocolVersion),
        ("profile", .string b.profile), ("client", .string b.client)] (by simp)
    have hversion : decodeU32 (natTree b.protocolVersion) = some b.protocolVersion :=
      decodeNat_natTree h
    simp [fromValue, ty, hfields, hversion, Value.asStr]
  | welcome b =>
    have hfields : structFields ["protocol_version", "server", "minds"] (welcome b).toTree.collect =
        some [natTree b.protocolVersion, .string b.server,
          (Value.array (b.minds.map fun mind => .string mind.asStr)).collect] :=
      structFields_collect [] [("protocol_version", natTree b.protocolVersion),
        ("server", .string b.server),
        ("minds", .array (b.minds.map fun mind : MindKind => .string mind.asStr))] (by simp)
    have hversion : decodeU32 (natTree b.protocolVersion) = some b.protocolVersion :=
      decodeNat_natTree h
    have hminds : decodeVec MindKind.decode
        (Value.array (b.minds.map fun mind => .string mind.asStr)).collect = some b.minds :=
      decodeVec_collect fun mind _ => mind.decode_asStr
    simp [fromValue, ty, hfields, hversion, hminds, Value.asStr]
  | registerCapabilities b =>
    have hfields : structFields ["capabilities"] (registerCapabilities b).toTree.collect =
        some [(Value.array (b.capabilities.map Capability.toTree)).collect] :=
      structFields_collect [] [("capabilities", .array (b.capabilities.map Capability.toTree))]
        (by simp)
    have hcapabilities := decodeVec_collect fun cap hcap => Capability.decode_collect (h cap hcap)
    simp [fromValue, ty, hfields, hcapabilities]
  | instantiateSoul b =>
    have hfields : structFields ["soul_id", "mind", "soul"] (instantiateSoul b).toTree.collect =
        some [.string b.soulId, .string b.mind.asStr, b.soul.collect] :=
      structFields_collect [] [("soul_id", .string b.soulId), ("mind", .string b.mind.asStr),
        ("soul", b.soul)] (by simp)
    have hsoul : b.soul.collect = b.soul := Value.InMemory.collect_eq h
    simp [fromValue, ty, hfields, hsoul, b.mind.decode_asStr, Value.asStr]
  | releaseSoul b =>
    have hfields : structFields ["soul_id"] (releaseSoul b).toTree.collect =
        some [.string b.soulId] :=
      structFields_collect [] [("soul_id", .string b.soulId)] (by simp)
    simp [fromValue, ty, hfields, Value.asStr]
  | perceive b =>
    have hfields : structFields ["soul_id", "goal", "context"] (perceive b).toTree.collect =
        some [.string b.soulId, b.goal.toTree.collect, b.context.toTree.collect] :=
      structFields_collect [] [("soul_id", .string b.soulId), ("goal", b.goal.toTree),
        ("context", b.context.toTree)] (by simp)
    simp [fromValue, ty, hfields, Goal.decode_collect h, b.context.decode_collect, Value.asStr]
  | decision b =>
    have hfields : structFields ["soul_id", "goal_id", "goal_revision", "decision"]
        (decision b).toTree.collect = some [.string b.soulId, .string b.goalId,
          natTree b.goalRevision, b.decision.toTree.collect] :=
      structFields_collect [] [("soul_id", .string b.soulId), ("goal_id", .string b.goalId),
        ("goal_revision", natTree b.goalRevision), ("decision", b.decision.toTree)] (by simp)
    have hrevision : decodeU64 (natTree b.goalRevision) = some b.goalRevision :=
      decodeNat_natTree h.1
    simp [fromValue, ty, hfields, hrevision, Decision.decode_collect h.2, Value.asStr]
  | ack => rfl
  | error b =>
    have hfields : structFields ["code", "message"] (error b).toTree.collect =
        some [.string b.code.asStr, .string b.message] :=
      structFields_collect [] [("code", .string b.code.asStr), ("message", .string b.message)]
        (by simp)
    simp [fromValue, ty, hfields, b.code.decode_asStr, Value.asStr]
  | shutdown => rfl

end Body

/-! ## Envelopes -/

namespace Envelope

/-- The numbers fit their types, the values in it are values in memory, and its doubles are
finite. -/
structure InRange (env : Envelope) : Prop where
  v : env.v < 2 ^ 32
  seq : env.seq < 2 ^ 64
  re : ∀ re, env.re = some re → re < 2 ^ 64
  body : env.body.InRange

theorem decode_toTree {env : Envelope} (h : env.InRange) (hty : env.ty = env.body.ty) :
    decode env.toTree = some env := by
  obtain ⟨v, seq, re, ty, body⟩ := env
  obtain rfl : ty = body.ty := hty
  have hv : decodeU32 (natTree v) = some v := decodeNat_natTree h.v
  have hseq : decodeU64 (natTree seq) = some seq := decodeNat_natTree h.seq
  have hty := MessageType.decode_asStr body.ty
  have hbody := Body.fromValue_collect h.body
  cases re with
  | none => simp [decode, toTree, Fields.read, hv, hseq, hty, hbody]
  | some re =>
    have hre : decodeU64 (natTree re) = some re := decodeNat_natTree (h.re re rfl)
    have hoption : decodeOption decodeU64 (natTree re) = some (some re) := by
      show (decodeU64 (natTree re)).map some = _
      rw [hre]
      rfl
    simp [decode, toTree, Fields.read, hv, hseq, hoption, hty, hbody]

end Envelope

/-! ## What is written -/

@[simp] theorem plain_natTree {n : ℕ} (h : n < 2 ^ 64) : (natTree n).Plain := .number h

@[simp] theorem plain_floatTree (x : F64) : (floatTree x).Plain := by
  unfold floatTree
  split_ifs with hfinite
  · exact .number hfinite
  · exact .null

theorem Trigger.plain {t : Trigger} (h : t.InRange) : t.toTree.Plain := by
  cases t with
  | utterance sender content => simp [toTree]
  | tick sequence =>
    have hsequence : sequence < 2 ^ 64 := h
    simp [toTree, plain_natTree hsequence]
  | event topic payload =>
    have hpayload : payload.InMemory := h
    simp [toTree, hpayload.plain]
  | signal name value => simp [toTree]

theorem Goal.plain {g : Goal} (h : g.InRange) : g.toTree.Plain := by
  simp [toTree, plain_natTree h.1, Trigger.plain h.2]

theorem Fragment.plain (f : Fragment) : f.toTree.Plain := by simp [toTree]

theorem Context.plain (ctx : Context) : ctx.toTree.Plain := by
  have hfragments : ∀ f ∈ ctx.fragments, f.toTree.Plain := fun f _ => f.plain
  simpa [toTree] using hfragments

theorem Capability.plain {cap : Capability} (h : cap.argsSchema.InMemory) : cap.toTree.Plain := by
  simp [toTree, h.plain]

theorem ActionIntent.plain {i : ActionIntent} (h : i.InRange) : i.toTree.Plain := by
  cases i with
  | invoke capability args correlation =>
    have hargs : args.InMemory := h
    cases correlation <;> simp [toTree, hargs.plain]
  | express body => simp [toTree]
  | conclude outcome => simp [toTree]

theorem Decision.plain {d : Decision} (h : ∀ i ∈ d.intents, i.InRange) : d.toTree.Plain := by
  have hintents : ∀ i ∈ d.intents, i.toTree.Plain := fun i hi => ActionIntent.plain (h i hi)
  simpa [toTree] using hintents

theorem Body.plain {body : Body} (h : body.InRange) : body.toTree.Plain := by
  cases body with
  | hello b | welcome b =>
    have hversion : b.protocolVersion < 2 ^ 64 := Nat.lt_trans h (by decide)
    simp [toTree, plain_natTree hversion]
  | registerCapabilities b =>
    have hcapabilities : ∀ cap ∈ b.capabilities, cap.toTree.Plain := fun cap hcap =>
      Capability.plain (h cap hcap)
    simpa [toTree] using hcapabilities
  | instantiateSoul b =>
    have hsoul : b.soul.InMemory := h
    simp [toTree, hsoul.plain]
  | releaseSoul b => simp [toTree]
  | perceive b => simp [toTree, Goal.plain h, b.context.plain]
  | decision b => simp [toTree, plain_natTree h.1, Decision.plain h.2]
  | ack => simp [toTree]
  | error b => simp [toTree]
  | shutdown => simp [toTree]

theorem Envelope.plain {env : Envelope} (h : env.InRange) : env.toTree.Plain := by
  have hv : env.v < 2 ^ 64 := Nat.lt_trans h.v (by decide)
  cases hre : env.re with
  | none => simp [toTree, hre, plain_natTree hv, plain_natTree h.seq, Body.plain h.body]
  | some re =>
    simp [toTree, hre, plain_natTree hv, plain_natTree h.seq, plain_natTree (h.re re hre),
      Body.plain h.body]

/-- Every envelope with the type of its body is decoded from what it was written as, and that is
one line. -/
theorem wire_round_trip (J : JsonText) (env : Envelope) (hty : env.ty = env.body.ty)
    (henv : env.InRange) (hdepth : env.toTree.depth ≤ JsonText.NESTING_LIMIT)
    (hread : J.ReadsBack env.toTree) (hfloats : J.FloatsOnOneLine) :
    Envelope.fromNdjson J (env.toNdjson J) = some env ∧ '\n' ∉ (env.toNdjson J).toList := by
  constructor
  · have htree : J.read (env.toNdjson J) = some env.toTree := hread (Envelope.plain henv) hdepth
    unfold Envelope.fromNdjson
    rw [htree, Option.bind_some, Envelope.decode_toTree henv hty]
  · unfold Envelope.toNdjson JsonText.write
    rw [String.toList_ofList]
    exact JsonText.newline_notMem_chars hfloats (Envelope.plain henv)

def halfSignal : Envelope :=
  ⟨0, 7, some 3, .perceive, .perceive ⟨"s",
    ⟨"g", 1, "line\nfeed", .signal "x" ⟨0x3fe0000000000000⟩⟩, ⟨[⟨"memory", ""⟩]⟩⟩⟩

def halfLine : String :=
  "\x7b\"v\":0,\"seq\":7,\"re\":3,\"type\":\"perceive\",\"body\":\x7b\"soul_id\":\"s\"," ++
    "\"goal\":\x7b\"id\":\"g\",\"revision\":1,\"objective\":\"line\\nfeed\"," ++
    "\"trigger\":\x7b\"kind\":\"signal\",\"name\":\"x\",\"value\":0.5\x7d\x7d," ++
    "\"context\":\x7b\"fragments\":[\x7b\"channel\":\"memory\",\"body\":\"\"\x7d]\x7d\x7d\x7d"

def halfText : JsonText where
  floatText _ := "0.5"
  read line := if line = halfLine then some halfSignal.toTree else none

theorem wire_round_trip_half :
    Envelope.fromNdjson halfText (halfSignal.toNdjson halfText) = some halfSignal ∧
      '\n' ∉ (halfSignal.toNdjson halfText).toList := by
  have hfinite : F64.magnitude ⟨0x3fe0000000000000⟩ < 0x7ff0000000000000 := by decide
  have hrevision : 1 < 2 ^ 64 := by decide
  have hrange : halfSignal.InRange :=
    ⟨by decide, by decide, fun re hre => by cases hre; decide, hrevision, hfinite⟩
  have htext : halfText.write halfSignal.toTree = halfLine := by
    unfold halfLine
    rw [Text.append_eq_ofList (Text.append_eq_ofList (Text.append_eq_ofList rfl rfl) rfl) rfl]
    exact congrArg String.ofList (by decide +kernel)
  have hfloats : halfText.FloatsOnOneLine := by
    intro x _
    show '\n' ∉ "0.5".toList
    decide
  have hline : ∀ line, line = halfLine → halfText.read line = some halfSignal.toTree :=
    fun _ h => if_pos h
  exact wire_round_trip halfText halfSignal rfl hrange (by decide) (fun _ _ => hline _ htext)
    hfloats

end Pan
