import Pan.Clipping
import Pan.FileSystem
import Pan.HostRules
import Pan.Library.Pattern
import Pan.Tui

namespace Pan

/-! ## Texts -/

def crlfBlank : List Char := ['\r', '\n', '\r', '\n']

def lfBlank : List Char := ['\n', '\n']

def splitResponseBody (raw : String) : Except String (String × String) :=
  match Text.splitAtPattern crlfBlank raw.toList with
  | some (head, body) => .ok (String.ofList head, String.ofList body)
  | none =>
    match Text.splitAtPattern lfBlank raw.toList with
    | some (head, body) => .ok (String.ofList head, String.ofList body)
    | none => .error "malformed HTTP response"

/-- `lines().next().unwrap_or("")` -/
def statusLine (head : String) : String := (lines head).head?.getD ""

/-- The status in the status line, if one can be read there. -/
def statusCode (head : String) : Option ℕ :=
  ((splitWhitespace (statusLine head))[1]?).bind fun word => parseU16 word.toList

/-- `to_ascii_lowercase()` -/
def asciiLowercase (s : String) : String := String.ofList (s.toList.map Char.toLower)

/-- The value of a response, or its status and what is wrong; nothing if the code panics.
`jsonError` is what the reader says of a text that is not JSON. -/
def parseResponse (J : JsonText) (formats : Formats) (jsonError : String → String)
    (raw : String) : Option (Except (ℕ × String) Value) :=
  match splitResponseBody raw with
  | .error e => some (.error (0, e))
  | .ok (head, responseBody) =>
    match statusCode head with
    | none => some (.error (0, s!"bad status line: {formats.debugStr (statusLine head)}"))
    | some status =>
      if status ≠ 200 then
        -- a slice of the first 400 bytes, which panics inside a character
        (takeBytes (min responseBody.utf8ByteSize 400) responseBody.toList).map fun front =>
          .error (status, String.ofList front)
      else
        match J.fromStr responseBody with
        | some v => some (.ok v)
        | none => some (.error (status, s!"bad response JSON: {jsonError responseBody}"))

/-- What `parse_response` is to make of a text: a value exactly from a status of 200 with its JSON,
and from another status that status with a front of the body. -/
structure ParsedRight (J : JsonText) (raw : String) (r : Option (Except (ℕ × String) Value)) :
    Prop where
  returns : ∃ x, r = some x
  ok_iff : ∀ v, r = some (.ok v) ↔ ∃ head body, splitResponseBody raw = .ok (head, body) ∧
    statusCode head = some 200 ∧ J.fromStr body = some v
  failure : ∀ head body status, splitResponseBody raw = .ok (head, body) →
    statusCode head = some status → status ≠ 200 →
    ∃ front rest, body = front ++ rest ∧ r = some (.error (status, front))

/-- The whole of a text is one of its fronts. -/
theorem takeBytes_min_eq_none_iff {s : String} :
    takeBytes (min s.utf8ByteSize 400) s.toList = none ↔ ¬Cuttable 400 s := by
  rw [takeBytes_eq_none_iff, Cuttable, not_or, not_le]
  have hwhole : CharBoundary s.utf8ByteSize s := ⟨s, "", by simp, rfl⟩
  rcases le_or_gt s.utf8ByteSize 400 with hle | hlt
  · rw [min_eq_left hle]
    exact iff_of_false (not_not.mpr hwhole) fun h => absurd h.1 (not_lt.mpr hle)
  · rw [min_eq_right hlt.le, and_iff_right hlt]

variable {J : JsonText} {formats : Formats} {jsonError : String → String} {raw : String}

theorem parseResponse_of_failure {head body : String} {status : ℕ}
    (hsplit : splitResponseBody raw = .ok (head, body)) (hstatus : statusCode head = some status)
    (hfail : status ≠ 200) :
    parseResponse J formats jsonError raw =
      (takeBytes (min body.utf8ByteSize 400) body.toList).map fun front =>
        .error (status, String.ofList front) := by
  unfold parseResponse
  simp only [hsplit, hstatus]
  rw [if_pos hfail]

theorem parseResponse_of_ok {head body : String}
    (hsplit : splitResponseBody raw = .ok (head, body)) (hstatus : statusCode head = some 200) :
    parseResponse J formats jsonError raw = match J.fromStr body with
      | some v => some (.ok v)
      | none => some (.error (200, s!"bad response JSON: {jsonError body}")) := by
  unfold parseResponse
  simp only [hsplit, hstatus]
  rw [if_neg (by simp)]

variable (J raw) in
inductive Parses : Option (Except (ℕ × String) Value) → Prop
  | unread {msg} : Parses (some (.error (0, msg)))
  | failure {head body status} : splitResponseBody raw = .ok (head, body) →
      statusCode head = some status → status ≠ 200 →
      Parses ((takeBytes (min body.utf8ByteSize 400) body.toList).map fun front =>
        .error (status, String.ofList front))
  | value {head body v} : splitResponseBody raw = .ok (head, body) →
      statusCode head = some 200 → J.fromStr body = some v → Parses (some (.ok v))
  | malformed {head body msg} : splitResponseBody raw = .ok (head, body) →
      statusCode head = some 200 → Parses (some (.error (200, msg)))

variable (J formats jsonError raw) in
theorem parseResponse_parses : Parses J raw (parseResponse J formats jsonError raw) := by
  cases hsplit : splitResponseBody raw with
  | error e =>
    unfold parseResponse
    rw [hsplit]
    exact .unread
  | ok parts =>
    obtain ⟨head, body⟩ := parts
    cases hstatus : statusCode head with
    | none =>
      unfold parseResponse
      simp only [hsplit, hstatus]
      exact .unread
    | some status =>
      by_cases hfail : status = 200
      · subst hfail
        rw [parseResponse_of_ok hsplit hstatus]
        cases hjson : J.fromStr body with
        | none => exact .malformed hsplit hstatus
        | some v => exact .value hsplit hstatus hjson
      · rw [parseResponse_of_failure hsplit hstatus hfail]
        exact .failure hsplit hstatus hfail

/-- The body of a failure that is too long and cannot be cut. -/
def Uncuttable (raw : String) : Prop :=
  ∃ head body status, splitResponseBody raw = .ok (head, body) ∧ statusCode head = some status ∧
    status ≠ 200 ∧ ¬Cuttable 400 body

variable (J formats jsonError) in
theorem parseResponse_eq_none_iff :
    parseResponse J formats jsonError raw = none ↔ Uncuttable raw := by
  constructor
  · intro h
    have hparses := parseResponse_parses J formats jsonError raw
    generalize parseResponse J formats jsonError raw = r at h hparses
    cases hparses with
    | unread => cases h
    | @failure head body status hsplit hstatus hfail =>
      have hcut := Option.map_eq_none_iff.mp h
      exact ⟨head, body, status, hsplit, hstatus, hfail, takeBytes_min_eq_none_iff.mp hcut⟩
    | value => cases h
    | malformed => cases h
  · rintro ⟨head, body, status, hsplit, hstatus, hfail, hcut⟩
    rw [parseResponse_of_failure hsplit hstatus hfail, takeBytes_min_eq_none_iff.mpr hcut]
    rfl

variable (J formats jsonError) in
theorem parseResponse_eq_ok_iff {v : Value} :
    parseResponse J formats jsonError raw = some (.ok v) ↔
      ∃ head body, splitResponseBody raw = .ok (head, body) ∧ statusCode head = some 200 ∧
        J.fromStr body = some v := by
  constructor
  · intro h
    have hparses := parseResponse_parses J formats jsonError raw
    generalize parseResponse J formats jsonError raw = r at h hparses
    cases hparses with
    | unread => cases h
    | failure =>
      obtain ⟨front, -, hfront⟩ := Option.map_eq_some_iff.mp h
      cases hfront
    | @value head body v hsplit hstatus hjson =>
      cases h
      exact ⟨head, body, hsplit, hstatus, hjson⟩
    | malformed => cases h
  · rintro ⟨head, body, hsplit, hstatus, hjson⟩
    rw [parseResponse_of_ok hsplit hstatus, hjson]

/-- The status of an error is that of the response, or nought where none is read. -/
theorem exists_of_parseResponse_eq_error {status : ℕ} {msg : String}
    (h : parseResponse J formats jsonError raw = some (.error (status, msg)))
    (hstatus : status ≠ 0) :
    ∃ head body, splitResponseBody raw = .ok (head, body) ∧ statusCode head = some status := by
  have hparses := parseResponse_parses J formats jsonError raw
  generalize parseResponse J formats jsonError raw = r at h hparses
  cases hparses with
  | unread =>
    cases h
    exact absurd rfl hstatus
  | @failure head body status' hsplit hcode =>
    obtain ⟨front, -, hfront⟩ := Option.map_eq_some_iff.mp h
    cases hfront
    exact ⟨head, body, hsplit, hcode⟩
  | value => cases h
  | @malformed head body _ hsplit hcode =>
    cases h
    exact ⟨head, body, hsplit, hcode⟩

variable (J formats jsonError) in
/-- A failure that can be cut brings its status and a front of its body. -/
theorem exists_front_of_failure {head body : String} {status : ℕ}
    (hsplit : splitResponseBody raw = .ok (head, body)) (hstatus : statusCode head = some status)
    (hfail : status ≠ 200) (hcut : ¬Uncuttable raw) :
    ∃ front rest, body = front ++ rest ∧
      parseResponse J formats jsonError raw = some (.error (status, front)) := by
  rw [parseResponse_of_failure hsplit hstatus hfail]
  cases hfront : takeBytes (min body.utf8ByteSize 400) body.toList with
  | none =>
    exact absurd ⟨head, body, status, hsplit, hstatus, hfail,
      takeBytes_min_eq_none_iff.mp hfront⟩ hcut
  | some front =>
    obtain ⟨rest, hbody, -⟩ := takeBytes_toList_eq_some_iff.mp hfront
    exact ⟨String.ofList front, rest, hbody, rfl⟩

variable (J formats jsonError raw) in
/-- Every text is parsed as it is meant, except the failures whose body cannot be cut. -/
theorem parseResponse_right_iff :
    ParsedRight J raw (parseResponse J formats jsonError raw) ↔ ¬Uncuttable raw := by
  constructor
  · rintro ⟨⟨x, hx⟩, -, -⟩ hcut
    rw [(parseResponse_eq_none_iff J formats jsonError).mpr hcut] at hx
    cases hx
  · intro hcut
    refine ⟨?_, fun v => parseResponse_eq_ok_iff J formats jsonError, ?_⟩
    · rw [← Option.ne_none_iff_exists']
      exact mt (parseResponse_eq_none_iff J formats jsonError).mp hcut
    · intro head body status hsplit hstatus hfail
      exact exists_front_of_failure J formats jsonError hsplit hstatus hfail hcut

def accentedFailure : String :=
  String.ofList ("HTTP/1.0 500 x\r\n\r\na".toList ++ List.replicate 200 'é')

theorem splitResponseBody_accentedFailure : splitResponseBody accentedFailure =
    .ok ("HTTP/1.0 500 x", String.ofList ('a' :: (List.replicate 200 'é' ++ []))) := by
  have hall : ∀ l, splitResponseBody (String.ofList ("HTTP/1.0 500 x\r\n\r\na".toList ++ l)) =
      .ok ("HTTP/1.0 500 x", String.ofList ('a' :: l)) := by
    intro l
    rw [splitResponseBody, String.toList_ofList]
    rfl
  rw [List.append_nil]
  exact hall _

theorem uncuttable_accentedFailure : Uncuttable accentedFailure := by
  refine ⟨_, _, 500, splitResponseBody_accentedFailure, by decide, by decide, ?_⟩
  rintro (hsize | hboundary)
  · have ha : ('a' : Char).utf8Size = 1 := by decide
    have hc : ('é' : Char).utf8Size = 2 := by decide
    rw [Text.utf8ByteSize_ofList_cons, utf8ByteSize_replicate, ha, hc] at hsize
    omega
  · have hfew : 199 < 200 := by decide
    exact not_charBoundary_of_replicate rfl rfl hfew [] hboundary

theorem accentedFailure_not_parsed :
    ¬ParsedRight ⟨fun _ => "", fun _ => none⟩ accentedFailure
      (parseResponse ⟨fun _ => "", fun _ => none⟩ ⟨fun _ => "", id⟩ id accentedFailure) := by
  rintro ⟨⟨x, hx⟩, -, -⟩
  rw [(parseResponse_eq_none_iff _ _ _).mpr uncuttable_accentedFailure] at hx
  cases hx

/-! ## Bytes -/

/-- `as_bytes()` -/
def asBytes (s : String) : List UInt8 := s.toByteArray.data.toList

def crlfBytes : List UInt8 := [13, 10, 13, 10]

def lfBytes : List UInt8 := [10, 10]

/-- The loop over the places that have more than the pattern behind them. -/
def scanFor (pat bytes : List UInt8) : Option (List UInt8 × List UInt8) :=
  ((List.range (bytes.length - pat.length)).find? fun i => pat.isPrefixOf (bytes.drop i)).map
    fun i => (bytes.take i, bytes.drop (i + pat.length))

def splitHttpResponse (bytes : List UInt8) : Option (List UInt8 × List UInt8) :=
  match scanFor crlfBytes bytes with
  | some parts => some parts
  | none => scanFor lfBytes bytes

/-- The head and the body around the first blank line, in either style of line ends. -/
def firstBlankLine (bytes : List UInt8) : Option (List UInt8 × List UInt8) :=
  Text.splitAtEither crlfBytes lfBytes bytes

def IsUtf8 (bytes : List UInt8) : Prop := ∃ s, asBytes s = bytes

/-- The splitter of bytes cuts at the first blank line, and so does that of texts where the bytes
are one. -/
structure SplittersAgree (bytes : List UInt8) : Prop where
  first : splitHttpResponse bytes = firstBlankLine bytes
  text : ∀ s, asBytes s = bytes →
    (splitResponseBody s).toOption.map (fun p => (asBytes p.1, asBytes p.2)) =
      splitHttpResponse bytes

/-- Something stands behind the boundary, and no blank line of the other style stands before it.
For bytes that are no text it may also stand at the very end with another before it. -/
def BoundaryInside (bytes : List UInt8) : Prop :=
  match Text.splitAtPattern crlfBytes bytes, Text.splitAtPattern lfBytes bytes with
  | none, none => True
  | none, some (_, body) => body ≠ []
  | some (_, body), none => body ≠ []
  | some (head, body), some (head', _) =>
    (body ≠ [] ∧ head.length ≤ head'.length) ∨ (body = [] ∧ ¬IsUtf8 bytes)

theorem not_isPrefixOf {pat bytes : List UInt8} {i : ℕ} (h : ¬pat <+: bytes.drop i) :
    (!pat.isPrefixOf (bytes.drop i)) = true := by
  rw [Bool.not_eq_true', Bool.eq_false_iff]
  exact mt List.isPrefixOf_iff_prefix.mp h

theorem scanFor_eq_none {pat bytes : List UInt8}
    (h : ∀ i < bytes.length - pat.length, ¬pat <+: bytes.drop i) : scanFor pat bytes = none := by
  have hfind : (List.range (bytes.length - pat.length)).find?
      (fun i => pat.isPrefixOf (bytes.drop i)) = none := by
    rw [List.find?_range_eq_none]
    exact fun i hi => not_isPrefixOf (h i hi)
  unfold scanFor
  rw [hfind]
  rfl

/-- The loop stops before a pattern that ends the bytes. -/
theorem scanFor_eq {pat : List UInt8} (hpat : pat ≠ []) (bytes : List UInt8) :
    scanFor pat bytes = (Text.splitAtPattern pat bytes).filter fun p => p.2 ≠ [] := by
  cases hsplit : Text.splitAtPattern pat bytes with
  | none =>
    have hnone := (Text.splitAtPattern_eq_none hpat).mp hsplit
    rw [scanFor_eq_none fun i _ => hnone i]
    rfl
  | some p =>
    obtain ⟨head, body⟩ := p
    obtain ⟨hbytes, hfirst⟩ := (Text.splitAtPattern_eq_some hpat).mp hsplit
    have hlength : bytes.length = head.length + pat.length + body.length := by
      rw [hbytes, List.length_append, List.length_append, Nat.add_assoc]
    by_cases hbody : body = []
    · have hbefore : ∀ i < bytes.length - pat.length, ¬pat <+: bytes.drop i := by
        intro i hi
        apply hfirst
        rw [hlength, hbody, List.length_nil] at hi
        omega
      rw [scanFor_eq_none hbefore]
      simp [Option.filter, hbody]
    · have hpos := List.length_pos_iff.mpr hbody
      have hhere : pat.isPrefixOf (bytes.drop head.length) = true := by
        rw [hbytes, List.drop_left]
        exact List.isPrefixOf_iff_prefix.mpr (List.prefix_append _ _)
      have hfind : (List.range (bytes.length - pat.length)).find?
          (fun i => pat.isPrefixOf (bytes.drop i)) = some head.length := by
        rw [List.find?_range_eq_some]
        exact ⟨hhere, List.mem_range.mpr (by omega), fun i hi => not_isPrefixOf (hfirst i hi)⟩
      have htake : bytes.take head.length = head := by rw [hbytes, List.take_left]
      have hdrop : bytes.drop (head.length + pat.length) = body := by
        rw [hbytes, ← List.append_assoc, ← List.length_append, List.drop_left]
      rw [scanFor, hfind, Option.map_some, htake, hdrop]
      simp [Option.filter, hbody]

/-! ### Encodings -/

/-- `std::str::from_utf8` -/
def decodeUtf8 (bytes : List UInt8) : Option String := String.fromUTF8? ⟨bytes.toArray⟩

/-- After a byte that begins no character, the number of bytes that are replaced with it. They are
those that could still have gone on to be one. -/
def replacedMore (first : UInt8) (rest : List UInt8) : ℕ :=
  let first := first.toNat
  let second := (rest[0]?.getD 0).toNat
  let third := (rest[1]?.getD 0).toNat
  let three := (first = 0xE0 ∧ 0xA0 ≤ second ∧ second ≤ 0xBF) ∨
    (0xE1 ≤ first ∧ first ≤ 0xEC ∧ 0x80 ≤ second ∧ second ≤ 0xBF) ∨
    (first = 0xED ∧ 0x80 ≤ second ∧ second ≤ 0x9F) ∨
    (0xEE ≤ first ∧ first ≤ 0xEF ∧ 0x80 ≤ second ∧ second ≤ 0xBF)
  let four := (first = 0xF0 ∧ 0x90 ≤ second ∧ second ≤ 0xBF) ∨
    (0xF1 ≤ first ∧ first ≤ 0xF3 ∧ 0x80 ≤ second ∧ second ≤ 0xBF) ∨
    (first = 0xF4 ∧ 0x80 ≤ second ∧ second ≤ 0x8F)
  if three then 1
  else if four then if 0x80 ≤ third ∧ third ≤ 0xBF then 2 else 1
  else 0

def lossyChars : List UInt8 → List Char
  | [] => []
  | b :: rest =>
    match (b :: rest).toByteArray.utf8DecodeChar? 0 with
    | some c => c :: lossyChars (rest.drop (c.utf8Size - 1))
    | none => '\uFFFD' :: lossyChars (rest.drop (replacedMore b rest))
termination_by bytes => bytes.length
decreasing_by
  all_goals
    rw [List.length_drop]
    exact Nat.lt_succ_of_le (Nat.sub_le _ _)

/-- `String::from_utf8_lossy` -/
def fromUtf8Lossy (bytes : List UInt8) : String := String.ofList (lossyChars bytes)

theorem asBytes_eq (s : String) : asBytes s = s.toList.flatMap String.utf8EncodeChar := by
  unfold asBytes
  rw [← String.ofList_toList (s := s), String.toByteArray_ofList, String.toList_ofList,
    List.utf8Encode]
  simp

theorem utf8EncodeChar_ne_nil (c : Char) : String.utf8EncodeChar c ≠ [] := by
  unfold String.utf8EncodeChar
  dsimp only
  split_ifs <;> simp

theorem utf8EncodeChar_of_ascii {c : Char} (hc : c.toNat < 128) :
    String.utf8EncodeChar c = [UInt8.ofNat c.toNat] := by
  have hc' : c.val.toNat ≤ 127 := Nat.le_of_lt_succ hc
  unfold String.utf8EncodeChar
  dsimp only
  rw [if_pos hc']
  rfl

/-- A character of ASCII is one byte, and the bytes of any other are beyond ASCII. -/
theorem isLetter_of_ascii {c : Char} (hc : c.toNat < 128) :
    Text.IsLetter String.utf8EncodeChar c := by
  have hbyte : ∀ n < 128, 128 ≤ (UInt8.ofNat (n + 128)).toNat := by
    intro n hn
    rw [UInt8.toNat_ofNat']
    omega
  have hlarge : ∀ d : Char, ¬d.toNat < 128 → ∀ b ∈ String.utf8EncodeChar d, 128 ≤ b.toNat := by
    intro d hd
    have hd' : ¬d.val.toNat ≤ 127 := fun h => hd (Nat.lt_succ_of_le h)
    unfold String.utf8EncodeChar
    dsimp only
    rw [if_neg hd']
    split_ifs
    · simp only [List.forall_mem_cons, List.not_mem_nil, IsEmpty.forall_iff, implies_true, and_true]
      exact ⟨hbyte (_ + 64) (by omega), hbyte _ (by omega)⟩
    · simp only [List.forall_mem_cons, List.not_mem_nil, IsEmpty.forall_iff, implies_true, and_true]
      exact ⟨hbyte (_ + 96) (by omega), hbyte _ (by omega), hbyte _ (by omega)⟩
    · simp only [List.forall_mem_cons, List.not_mem_nil, IsEmpty.forall_iff, implies_true, and_true]
      exact ⟨hbyte (_ + 112) (by omega), hbyte _ (by omega), hbyte _ (by omega),
        hbyte _ (by omega)⟩
  refine ⟨UInt8.ofNat c.toNat, utf8EncodeChar_of_ascii hc, ?_⟩
  intro d hd
  by_cases hascii : d.toNat < 128
  · rw [utf8EncodeChar_of_ascii hascii, List.mem_singleton] at hd
    have := congrArg UInt8.toNat hd
    rw [UInt8.toNat_ofNat', UInt8.toNat_ofNat'] at this
    apply Char.toNat_inj.mp
    omega
  · have := hlarge d hascii _ hd
    rw [UInt8.toNat_ofNat'] at this
    omega

theorem asBytes_append (s t : String) : asBytes (s ++ t) = asBytes s ++ asBytes t := by
  rw [asBytes_eq, asBytes_eq, asBytes_eq, String.toList_append, List.flatMap_append]

/-- A text is cut at a pattern of ASCII where its bytes are. -/
theorem splitAtPattern_asBytes {pat : List Char} (hpat : pat ≠ [])
    (hascii : ∀ c ∈ pat, c.toNat < 128) (s : String) :
    Text.splitAtPattern (pat.flatMap String.utf8EncodeChar) (asBytes s) =
      (Text.splitAtPattern pat s.toList).map fun p =>
        (asBytes (String.ofList p.1), asBytes (String.ofList p.2)) := by
  rw [asBytes_eq, Text.splitAtPattern_flatMap utf8EncodeChar_ne_nil hpat fun c hc =>
    isLetter_of_ascii (hascii c hc)]
  congr 1
  funext p
  rw [asBytes_eq, asBytes_eq, String.toList_ofList, String.toList_ofList]

theorem decodeUtf8_eq_some {bytes : List UInt8} {s : String} :
    decodeUtf8 bytes = some s ↔ asBytes s = bytes := by
  unfold decodeUtf8 asBytes String.fromUTF8?
  constructor
  · intro h
    split_ifs at h
    obtain rfl := Option.some.inj h
    rfl
  · rintro rfl
    exact dif_pos s.isValidUTF8

theorem lossyChars_encode (c : Char) (rest : List UInt8) :
    lossyChars (String.utf8EncodeChar c ++ rest) = c :: lossyChars rest := by
  have hdecode : (String.utf8EncodeChar c ++ rest).toByteArray.utf8DecodeChar? 0 = some c := by
    rw [List.toByteArray_append]
    exact ByteArray.utf8DecodeChar?_utf8EncodeChar_append
  have hlength := String.length_utf8EncodeChar c
  obtain ⟨b, code, hcode⟩ := List.exists_cons_of_ne_nil (utf8EncodeChar_ne_nil c)
  rw [hcode] at hdecode hlength ⊢
  rw [List.cons_append] at hdecode ⊢
  rw [lossyChars, hdecode]
  dsimp only
  have hdrop : (code ++ rest).drop (c.utf8Size - 1) = rest := List.drop_left' (by
    rw [← hlength, List.length_cons, Nat.add_sub_cancel])
  rw [hdrop]

theorem fromUtf8Lossy_asBytes (s : String) : fromUtf8Lossy (asBytes s) = s := by
  have hall : ∀ l : List Char, lossyChars (l.flatMap String.utf8EncodeChar) = l := by
    intro l
    induction l with
    | nil => rw [List.flatMap_nil, lossyChars]
    | cons c l ih => rw [List.flatMap_cons, lossyChars_encode, ih]
  rw [fromUtf8Lossy, asBytes_eq, hall, String.ofList_toList]

/-- The splitter of texts, on bytes. -/
theorem splitResponseBody_asBytes (s : String) :
    (splitResponseBody s).toOption.map (fun p => (asBytes p.1, asBytes p.2)) =
      match Text.splitAtPattern crlfBytes (asBytes s) with
      | some p => some p
      | none => Text.splitAtPattern lfBytes (asBytes s) := by
  have hcrlf : crlfBlank.flatMap String.utf8EncodeChar = crlfBytes := by decide
  have hlf : lfBlank.flatMap String.utf8EncodeChar = lfBytes := by decide
  have h : _ = (Text.splitAtPattern crlfBlank s.toList).map _ :=
    splitAtPattern_asBytes (by decide) (by simp [crlfBlank]) s
  have h' : _ = (Text.splitAtPattern lfBlank s.toList).map _ :=
    splitAtPattern_asBytes (by decide) (by simp [lfBlank]) s
  rw [hcrlf] at h
  rw [hlf] at h'
  unfold splitResponseBody
  cases hsplit : Text.splitAtPattern crlfBlank s.toList with
  | some p =>
    rw [h, hsplit]
    rfl
  | none =>
    rw [h, h', hsplit]
    cases Text.splitAtPattern lfBlank s.toList <;> rfl

/-- Before a CRLF blank line at the very end, a LF blank line stands farther ahead. -/
theorem lt_of_splitAtPattern {bytes head head' body' : List UInt8}
    (h : Text.splitAtPattern crlfBytes bytes = some (head, []))
    (h' : Text.splitAtPattern lfBytes bytes = some (head', body')) :
    head'.length < head.length ∧ body' ≠ [] := by
  obtain ⟨hbytes, -⟩ := (Text.splitAtPattern_eq_some (by decide)).mp h
  obtain ⟨hbytes', -⟩ := (Text.splitAtPattern_eq_some (by decide)).mp h'
  have hlength : head'.length + (2 + body'.length) = head.length + 4 := by
    have hsame := congrArg List.length (hbytes'.symm.trans hbytes)
    rw [List.length_append, List.length_append, List.length_append, List.length_append] at hsame
    exact hsame
  have hlt : head'.length < head.length := by
    by_contra hge
    have hpre : lfBytes <+: crlfBytes.drop (head'.length - head.length) := by
      have hdrop : bytes.drop head'.length = crlfBytes.drop (head'.length - head.length) := by
        rw [hbytes, List.append_nil, List.drop_append, List.drop_eq_nil_of_le (not_lt.mp hge),
          List.nil_append]
      rw [← hdrop, hbytes', List.drop_left]
      exact List.prefix_append _ _
    have hnone : ∀ j < 3, ¬lfBytes <+: crlfBytes.drop j := by decide
    exact hnone _ (by omega) hpre
  refine ⟨hlt, ?_⟩
  rintro rfl
  rw [List.length_nil] at hlength
  omega

/-- The two splitters agree on the first blank line exactly if something stands behind it and it
is the boundary that both look for first. -/
theorem splitters_agree_iff (bytes : List UInt8) :
    SplittersAgree bytes ↔ BoundaryInside bytes := by
  have hcrlf : crlfBytes ≠ [] := by decide
  have hlf : lfBytes ≠ [] := by decide
  have htext : SplittersAgree bytes ↔ splitHttpResponse bytes = firstBlankLine bytes ∧
      (IsUtf8 bytes → (match Text.splitAtPattern crlfBytes bytes with
        | some p => some p
        | none => Text.splitAtPattern lfBytes bytes) = splitHttpResponse bytes) := by
    constructor
    · rintro ⟨hfirst, htext⟩
      refine ⟨hfirst, ?_⟩
      rintro ⟨s, rfl⟩
      rw [← splitResponseBody_asBytes]
      exact htext s rfl
    · rintro ⟨hfirst, htext⟩
      refine ⟨hfirst, fun s hs => ?_⟩
      rw [splitResponseBody_asBytes, hs]
      exact htext ⟨s, hs⟩
  rw [htext, BoundaryInside, firstBlankLine, Text.splitAtEither_eq hcrlf hlf, splitHttpResponse,
    scanFor_eq hcrlf, scanFor_eq hlf]
  -- which of the two blank lines occur, whether a body is left and which one is first
  rcases hX : Text.splitAtPattern crlfBytes bytes with _ | ⟨head, body⟩ <;>
    rcases hY : Text.splitAtPattern lfBytes bytes with _ | ⟨head', body'⟩
  · simp
  · by_cases hbody : body' = [] <;> simp [Option.filter, hbody]
  · by_cases hbody : body = [] <;> simp [Option.filter, hbody]
  · by_cases hbody : body = []
    · subst hbody
      obtain ⟨hlt, hbody'⟩ := lt_of_splitAtPattern hX hY
      have hne : head ≠ head' := fun h => absurd (congrArg List.length h) (ne_of_gt hlt)
      simp [Option.filter, hbody', not_le.mpr hlt, hne]
    · by_cases hle : head.length ≤ head'.length
      · simp [Option.filter, hbody, hle]
      · have hne : head ≠ head' := fun h => hle (congrArg List.length h).le
        simp [Option.filter, hbody, hle, hne]

/-- A response without a body. -/
theorem not_splittersAgree_noContent :
    ¬SplittersAgree (asBytes "HTTP/1.0 204 No Content\r\n\r\n") := by
  intro h
  have := h.first
  revert this
  decide

end Pan
