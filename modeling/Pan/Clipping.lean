import Mathlib.Tactic.Ring
import Pan.Library.Text
import Pan.Replay

namespace Pan

/-- `is_char_boundary(n)` -/
def CharBoundary (n : ℕ) (s : String) : Prop :=
  ∃ front rest : String, s = front ++ rest ∧ front.utf8ByteSize = n

theorem takeBytes_eq_some_iff {n : ℕ} {l front : List Char} :
    takeBytes n l = some front ↔ front <+: l ∧ (String.ofList front).utf8ByteSize = n := by
  induction l generalizing n front with
  | nil =>
    rw [takeBytes, List.prefix_nil]
    split_ifs with hn
    · rw [Option.some_inj, eq_comm, hn]
      exact ⟨fun h => ⟨h, Text.utf8ByteSize_ofList_eq_zero.mpr h⟩, And.left⟩
    · refine iff_of_false (by simp) ?_
      rintro ⟨hnil, hsize⟩
      exact hn (hsize.symm.trans (Text.utf8ByteSize_ofList_eq_zero.mpr hnil))
  | cons c l ih =>
    -- a character has at least one byte, so a cut inside it is no cut at all
    have hc := c.utf8Size_pos
    rw [takeBytes]
    split_ifs with hn hlt
    · rw [Option.some_inj, hn, Text.utf8ByteSize_ofList_eq_zero, eq_comm]
      refine ⟨fun hnil => ⟨?_, hnil⟩, And.right⟩
      rw [hnil]
      exact List.nil_prefix
    · refine iff_of_false (by simp) ?_
      rintro ⟨hfront, hsize⟩
      cases front with
      | nil => exact hn (hsize.symm.trans (Text.utf8ByteSize_ofList_eq_zero.mpr rfl))
      | cons d front =>
        obtain ⟨rfl, -⟩ := List.cons_prefix_cons.mp hfront
        rw [Text.utf8ByteSize_ofList_cons] at hsize
        omega
    · rw [Option.map_eq_some_iff]
      constructor
      · rintro ⟨front', hfront', rfl⟩
        obtain ⟨hpre, hsize⟩ := ih.mp hfront'
        refine ⟨List.cons_prefix_cons.mpr ⟨rfl, hpre⟩, ?_⟩
        rw [Text.utf8ByteSize_ofList_cons]
        omega
      · rintro ⟨hfront, hsize⟩
        cases front with
        | nil => exact absurd (hsize.symm.trans (Text.utf8ByteSize_ofList_eq_zero.mpr rfl)) hn
        | cons d front =>
          obtain ⟨rfl, hpre⟩ := List.cons_prefix_cons.mp hfront
          rw [Text.utf8ByteSize_ofList_cons] at hsize
          exact ⟨front, ih.mpr ⟨hpre, by omega⟩, rfl⟩

/-- Where a text is cut, and what is left of it. -/
theorem takeBytes_toList_eq_some_iff {n : ℕ} {s : String} {front : List Char} :
    takeBytes n s.toList = some front ↔
      ∃ rest, s = String.ofList front ++ rest ∧ (String.ofList front).utf8ByteSize = n := by
  rw [takeBytes_eq_some_iff]
  constructor
  · rintro ⟨⟨rest, hrest⟩, hsize⟩
    refine ⟨String.ofList rest, ?_, hsize⟩
    rw [← String.toList_inj, String.toList_append, String.toList_ofList, String.toList_ofList,
      hrest]
  · rintro ⟨rest, rfl, hsize⟩
    rw [String.toList_append, String.toList_ofList]
    exact ⟨List.prefix_append _ _, hsize⟩

theorem takeBytes_eq_none_iff {n : ℕ} {s : String} :
    takeBytes n s.toList = none ↔ ¬CharBoundary n s := by
  rw [Option.eq_none_iff_forall_ne_some]
  constructor
  · rintro h ⟨front, rest, hs, hsize⟩
    have hfront : String.ofList front.toList = front := String.ofList_toList
    refine h front.toList (takeBytes_toList_eq_some_iff.mpr ⟨rest, ?_, ?_⟩)
    · rw [hfront, hs]
    · rw [hfront, hsize]
  · intro h front hfront
    obtain ⟨rest, hs, hsize⟩ := takeBytes_toList_eq_some_iff.mp hfront
    exact h ⟨String.ofList front, rest, hs, hsize⟩

/-- The text can be cut to a size if it is longer. -/
def Cuttable (limit : ℕ) (s : String) : Prop := s.utf8ByteSize ≤ limit ∨ CharBoundary limit s

/-- What is said of a text of so many bytes that is cut. -/
def truncationMarker (size : ℕ) : String := s!"...[truncated: {size} total chars]"

theorem clip_eq_none_iff {limit : ℕ} {s : String} : clip limit s = none ↔ ¬Cuttable limit s := by
  unfold clip Cuttable
  rw [not_or, not_le]
  split_ifs with hlong
  · rw [Option.map_eq_none_iff, takeBytes_eq_none_iff, and_iff_right hlong]
  · exact iff_of_false (by simp) fun h => hlong h.1

theorem exists_of_clip {limit : ℕ} {s content : String} (hlong : limit < s.utf8ByteSize)
    (h : clip limit s = some content) :
    ∃ front rest : String, s = front ++ rest ∧ front.utf8ByteSize = limit ∧
      content = front ++ truncationMarker s.utf8ByteSize := by
  rw [clip, if_pos hlong, Option.map_eq_some_iff] at h
  obtain ⟨front, hfront, rfl⟩ := h
  obtain ⟨rest, hs, hsize⟩ := takeBytes_toList_eq_some_iff.mp hfront
  exact ⟨String.ofList front, rest, hs, hsize, rfl⟩

/-! ## Replays -/

def RecordsResult (J : JsonText) (body : String) (result : Value) : Prop :=
  ∃ parsed capability, J.fromStr body = some parsed ∧ parsed.str "capability" = some capability ∧
    parsed.get "result" = some result

/-- A replay that returns, and what becomes of a result over the limit; `content` is the text
that an answer has for the model. -/
structure Replays (J : JsonText) (limit : ℕ) (replay : Option (Option (Value × Value)))
    (content : Value → Option String) (body : String) : Prop where
  returns : ∃ messages, replay = some messages
  clips : ∀ result, RecordsResult J body result → limit < (J.write result).utf8ByteSize →
    ∃ call answer front rest, replay = some (some (call, answer)) ∧
      J.write result = front ++ rest ∧ front.utf8ByteSize ≤ limit ∧
      content answer = some (front ++ truncationMarker (J.write result).utf8ByteSize)

variable {J : JsonText} {body : String} {defaultId : String} {limit : ℕ}

theorem parseExchange_eq_none_iff :
    parseExchange J defaultId limit body = none ↔
      ∃ result, RecordsResult J body result ∧ ¬Cuttable limit (J.write result) := by
  unfold parseExchange
  constructor
  · intro h
    cases hparsed : J.fromStr body with
    | none => simp [hparsed] at h
    | some parsed =>
      cases hcapability : parsed.str "capability" with
      | none => simp [hparsed, hcapability] at h
      | some capability =>
        simp only [hparsed, hcapability, Option.map_eq_none_iff] at h
        unfold exchangeContent at h
        cases hresult : parsed.get "result" with
        | none => cases herror : parsed.get "error" <;> simp [hresult, herror] at h
        | some result =>
          rw [hresult] at h
          exact ⟨result, ⟨parsed, capability, hparsed, hcapability, hresult⟩,
            clip_eq_none_iff.mp h⟩
  · rintro ⟨result, ⟨parsed, capability, hparsed, hcapability, hresult⟩, hcut⟩
    simp only [hparsed, hcapability, Option.map_eq_none_iff]
    rw [exchangeContent, hresult]
    exact clip_eq_none_iff.mpr hcut

theorem exists_of_parseExchange {result : Value} {exchange : Option Exchange}
    (hresult : RecordsResult J body result)
    (h : parseExchange J defaultId limit body = some exchange) :
    ∃ e, exchange = some e ∧ clip limit (J.write result) = some e.content := by
  obtain ⟨parsed, capability, hparsed, hcapability, hresult⟩ := hresult
  unfold parseExchange at h
  simp only [hparsed, hcapability] at h
  rw [exchangeContent, hresult, Option.map_eq_some_iff] at h
  obtain ⟨content, hcontent, rfl⟩ := h
  exact ⟨_, rfl, hcontent⟩

/-- A replay of exchanges is right exactly if every result it meets can be cut. -/
theorem replays_iff_of_parseExchange (call answer : Exchange → Value)
    {content : Value → Option String} (hcontent : ∀ e, content (answer e) = some e.content) :
    Replays J limit ((parseExchange J defaultId limit body).map fun exchange =>
        exchange.map fun e => (call e, answer e)) content body ↔
      ∀ result, RecordsResult J body result → Cuttable limit (J.write result) := by
  constructor
  · rintro ⟨⟨messages, hmessages⟩, -⟩ result hresult
    by_contra hcut
    rw [parseExchange_eq_none_iff.mpr ⟨result, hresult, hcut⟩] at hmessages
    cases hmessages
  · intro h
    cases hexchange : parseExchange J defaultId limit body with
    | none =>
      obtain ⟨result, hresult, hcut⟩ := parseExchange_eq_none_iff.mp hexchange
      exact absurd (h result hresult) hcut
    | some exchange =>
      refine ⟨⟨_, rfl⟩, fun result hresult hlong => ?_⟩
      obtain ⟨e, rfl, hclip⟩ := exists_of_parseExchange hresult hexchange
      obtain ⟨front, rest, hs, hsize, he⟩ := exists_of_clip hlong hclip
      refine ⟨call e, answer e, front, rest, rfl, hs, hsize.le, ?_⟩
      rw [hcontent, he]

/-- The text of a result for the model. -/
def Anthropic.resultText (message : Value) : Option String :=
  ((message.field "content").item 0).str "content"

variable (J body) in
/-- Both providers replay a fragment without a panic, with a front of the text of a long result,
exactly if the text of the result can be cut at the limit. -/
theorem replays_iff :
    (Replays J 32768 (OpenAi.replayExchange J body) (fun v => v.str "content") body ↔
      ∀ result, RecordsResult J body result → Cuttable 32768 (J.write result)) ∧
    (Replays J 32768 (Anthropic.replayToolExchange J body) Anthropic.resultText body ↔
      ∀ result, RecordsResult J body result → Cuttable 32768 (J.write result)) := by
  have hanthropic : ∀ e, Anthropic.resultText (Anthropic.toolResultMessage e) = some e.content := by
    intro e
    simp [Anthropic.resultText, Anthropic.toolResultMessage, Anthropic.toolResultBlock,
      Value.field, Value.item, Value.str, Value.get_ofFields, SortedMap.last, Value.asStr,
      Value.asArray]
  exact ⟨replays_iff_of_parseExchange _ _ fun e => (OpenAi.toolMessage_str e).2,
    replays_iff_of_parseExchange _ _ hanthropic⟩

/-! ### A result of accents -/

theorem utf8ByteSize_replicate (k : ℕ) (c : Char) (l : List Char) :
    (String.ofList (List.replicate k c ++ l)).utf8ByteSize =
      k * c.utf8Size + (String.ofList l).utf8ByteSize := by
  induction k with
  | zero => simp
  | succ k ih =>
    rw [List.replicate_succ, List.cons_append, Text.utf8ByteSize_ofList_cons, ih]
    ring

/-- After one byte every second byte is inside a character of two. -/
theorem not_charBoundary_of_replicate {d c : Char} (hd : d.utf8Size = 1) (hc : c.utf8Size = 2)
    {n k : ℕ} (hk : k < n) (t : List Char) :
    ¬CharBoundary (2 * (k + 1)) (String.ofList (d :: (List.replicate n c ++ t))) := by
  rintro ⟨front, rest, hs, hsize⟩
  have hfront : front.toList <+: d :: (List.replicate n c ++ t) :=
    ⟨rest.toList, by rw [← String.toList_append, ← hs, String.toList_ofList]⟩
  rw [← String.ofList_toList (s := front)] at hsize
  cases hl : front.toList with
  | nil =>
    rw [hl] at hsize
    cases hsize
  | cons d' l =>
    rw [hl] at hfront hsize
    obtain ⟨rfl, hpre⟩ := List.cons_prefix_cons.mp hfront
    rw [Text.utf8ByteSize_ofList_cons, hd] at hsize
    rcases Nat.lt_or_ge n l.length with hlong | hshort
    · -- all of them are in front
      have hall : List.replicate n c <+: l :=
        List.prefix_of_prefix_length_le (List.prefix_append _ _) hpre (by simpa using hlong.le)
      obtain ⟨t', rfl⟩ := hall
      rw [utf8ByteSize_replicate, hc] at hsize
      omega
    · have hfew : l <+: List.replicate n c :=
        List.prefix_of_prefix_length_le hpre (List.prefix_append _ _) (by simpa using hshort)
      obtain ⟨-, hl⟩ := List.prefix_replicate_iff.mp hfew
      have hsum := utf8ByteSize_replicate l.length c []
      rw [List.append_nil, ← hl, hc] at hsum
      rw [hsum] at hsize
      have hnil : (String.ofList []).utf8ByteSize = 0 := rfl
      omega

def accents : Value := .string (String.ofList (List.replicate 20000 'é'))

theorem write_accents (J : JsonText) :
    J.write accents = String.ofList ('"' :: (List.replicate 20000 'é' ++ ['"'])) := by
  have hescape : escapeChar 'é' = ['é'] := by decide
  have hflat : ∀ n, (List.replicate n 'é').flatMap escapeChar = List.replicate n 'é' := by
    intro n
    rw [List.flatMap_replicate, hescape]
    simp
  rw [JsonText.write, accents, JsonText.chars, quoteChars, String.toList_ofList, hflat]
  rfl

def accentsTree : Value :=
  .object [("capability", .string "cap.http.get"), ("result", accents)]

def accentsBody : String := JsonText.write ⟨fun _ => "", fun _ => none⟩ accentsTree

def accentsJson : JsonText := .readsOnly [(accentsBody, accentsTree)]

theorem recordsResult_accents : RecordsResult accentsJson accentsBody accents := by
  refine ⟨accentsTree, "cap.http.get", ?_, rfl, rfl⟩
  have hread : accentsJson.read accentsBody = some accentsTree :=
    JsonText.read_readsOnly (by simp) List.mem_cons_self
  have hmemory : accentsTree.InMemory := by
    refine .object ?_ ?_
    · unfold SortedMap.Ascending
      simp only [List.pairwise_cons, List.mem_singleton, forall_eq, List.not_mem_nil,
        IsEmpty.forall_iff, implies_true, List.Pairwise.nil, and_true]
      decide
    · intro m hm
      simp only [List.mem_cons, List.not_mem_nil, or_false] at hm
      rcases hm with rfl | rfl
      · exact .string _
      · exact .string _
  rw [JsonText.fromStr, hread, Option.map_some, hmemory.collect_eq]

/-- The quote in front of them puts every second byte of the accents out of step with the limit. -/
theorem not_replays_accents :
    ¬(Replays accentsJson 32768 (OpenAi.replayExchange accentsJson accentsBody)
        (fun v => v.str "content") accentsBody ∧
      Replays accentsJson 32768 (Anthropic.replayToolExchange accentsJson accentsBody)
        Anthropic.resultText accentsBody) := by
  rintro ⟨⟨⟨messages, hmessages⟩, -⟩, -⟩
  have hcut : ¬Cuttable 32768 (accentsJson.write accents) := by
    rw [write_accents]
    have hc : ('é' : Char).utf8Size = 2 := by decide
    rintro (hsize | hboundary)
    · rw [Text.utf8ByteSize_ofList_cons, utf8ByteSize_replicate, hc] at hsize
      omega
    · have hfew : 16383 < 20000 := by decide
      exact not_charBoundary_of_replicate rfl hc hfew ['"'] hboundary
  have hnone : parseExchange accentsJson "call_0" OpenAi.MAX_TOOL_OUTPUT_CHARS accentsBody = none :=
    parseExchange_eq_none_iff.mpr ⟨accents, recordsResult_accents, hcut⟩
  rw [OpenAi.replayExchange, hnone] at hmessages
  cases hmessages

end Pan
