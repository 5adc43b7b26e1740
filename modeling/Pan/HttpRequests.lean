import Pan.Library.Http
import Pan.Responses
import Pan.Transcript

namespace Pan

namespace HttpCaps

/-- The text of a request, sent to a host and a port. -/
structure Exchange where
  host : String
  port : ℕ
  request : String

def buildRequest (method host path : String) (headers : Value) (body : Option String) : String :=
  let req := s!"{method} {path} HTTP/1.0\r\nHost: {host}\r\nConnection: close\r\n"
  let req := match headers.asObject with
    | some headersObj => headersObj.foldl (fun req (k, v) =>
        match v.asStr with
        | some val => req ++ s!"{k}: {val}\r\n"
        | none => req) req
    | none => req
  match body with
  | some b => req ++ s!"Content-Length: {b.utf8ByteSize}\r\n\r\n{b}"
  | none => req ++ "\r\n"

section Calls

variable (formats : Formats) (replies : ℕ → Except String (List UInt8))

def exchange (host : String) (port : ℕ) (request : String) :
    Eff Exchange ℕ (Except String (ℕ × String)) := do
  Eff.emit ⟨host, port, request⟩
  match ← Eff.ask fun n => (replies n, n + 1) with
  | .error e => return .error e
  | .ok buf =>
    let raw := fromUtf8Lossy buf
    let (head, responseBody) := match Text.splitAtPattern crlfBlank raw.toList with
      | some (head, body) => (String.ofList head, String.ofList body)
      | none => (raw, "")
    return match statusCode head with
      | some status => .ok (status, responseBody)
      | none => .error s!"bad status line: {formats.debugStr (statusLine head)}"

/-- `json!({ "status": status, "body": body })` -/
def response (status : ℕ) (body : String) : Value :=
  Value.ofFields [("status", .number (.posInt status)), ("body", .string body)]

def doGet (url : String) (headers : Value) : Eff Exchange ℕ (Except ExecError Value) :=
  match parseUrl formats url with
  | .error e => return .error e
  | .ok parsed => do
    let request := buildRequest "GET" parsed.host parsed.path headers none
    match ← exchange formats replies parsed.host parsed.port request with
    | .error e => return .error ⟨e⟩
    | .ok (status, body) => return .ok (response status body)

def doPost (url : String) (headers : Value) (body : String) :
    Eff Exchange ℕ (Except ExecError Value) :=
  match parseUrl formats url with
  | .error e => return .error e
  | .ok parsed => do
    let request := buildRequest "POST" parsed.host parsed.path headers (some body)
    match ← exchange formats replies parsed.host parsed.port request with
    | .error e => return .error ⟨e⟩
    | .ok (status, body) => return .ok (response status body)

end Calls

/-! ## The request that is meant -/

/-- The headers of a caller. -/
def callerHeaders (headers : Value) : List (String × Value) := headers.asObject.getD []

def ofStrings (given : List (String × String)) : List (String × Value) :=
  given.map fun h => (h.1, .string h.2)

def field (h : String × String) : Http.Field := (asBytes h.1, asBytes h.2)

def lengthFields (body : Option String) : List Http.Field :=
  body.elim [] fun b => [field ("Content-Length", toString b.utf8ByteSize)]

/-- The request for a url with the headers that are given and a body. -/
def meant (method : String) (u : ParsedUrl) (given : List (String × String))
    (body : Option String) : Http.Message where
  method := asBytes method
  target := asBytes u.path
  fields := field ("Host", u.host) :: field ("Connection", "close") ::
    (given.map field ++ lengthFields body)
  body := asBytes (body.getD "")

/-- One request goes to the host of the url, and a server reads it as it is meant, with each header
of the caller. -/
def Sends (method : String) (u : ParsedUrl) (headers : Value) (body : Option String)
    (sent : List Exchange) : Prop :=
  ∃ given request, callerHeaders headers = ofStrings given ∧
    sent = [⟨u.host, u.port, request⟩] ∧
    Http.parse (asBytes request) = some (meant method u given body)

/-- A header can stand in a request with a body of so many bytes. -/
structure Sendable (n : ℕ) (h : String × String) : Prop where
  name : Http.IsToken (asBytes h.1)
  value : Http.IsValue (asBytes h.2)
  not_host : Http.lowerName (asBytes h.1) ≠ Http.hostName
  not_coding : Http.lowerName (asBytes h.1) ≠ Http.codingName
  length : Http.lowerName (asBytes h.1) = Http.lengthName → Http.number (asBytes h.2) = some n

/-- The parts of the url and the headers of the caller can stand in a request. -/
structure Framable (u : ParsedUrl) (headers : Value) (body : Option String) : Prop where
  path : Http.IsTarget (asBytes u.path)
  host : Http.IsValue (asBytes u.host)
  headers : ∀ h ∈ callerHeaders headers, ∃ v, h.2 = .string v ∧
    Sendable (body.getD "").utf8ByteSize (h.1, v)

/-! ## What is written -/

def stringHeaders (headers : Value) : List (String × String) :=
  (callerHeaders headers).filterMap fun h => h.2.asStr.map fun v => (h.1, v)

theorem asBytes_header (k v : String) :
    asBytes s!"{k}: {v}\r\n" = Http.renderField (field (k, v)) := by
  have hcolon : asBytes ": " = [58, 32] := by decide
  have hcrlf : asBytes "\r\n" = Http.crlf := by decide
  change asBytes (k ++ ": " ++ v ++ "\r\n") = _
  rw [asBytes_append, asBytes_append, asBytes_append, hcolon, hcrlf]
  simp [Http.renderField, field]

theorem asBytes_headers (fields : List (String × Value)) (req : String) :
    asBytes (fields.foldl (fun req (k, v) =>
        match v.asStr with
        | some val => req ++ s!"{k}: {val}\r\n"
        | none => req) req) =
      asBytes req ++ ((fields.filterMap fun h => h.2.asStr.map fun v => (h.1, v)).map
        field).flatMap Http.renderField := by
  induction fields generalizing req with
  | nil => simp
  | cons h fields ih =>
    rw [List.foldl_cons, ih]
    dsimp only
    cases hv : h.2.asStr with
    | none => simp [hv]
    | some v =>
      simp only [List.filterMap_cons, hv, Option.map_some, List.map_cons, List.flatMap_cons]
      rw [asBytes_append, asBytes_header, List.append_assoc]

theorem asBytes_start (method path host : String) :
    asBytes s!"{method} {path} HTTP/1.0\r\nHost: {host}\r\nConnection: close\r\n" =
      asBytes method ++ 32 :: asBytes path ++ 32 :: Http.version ++ (Http.crlf ++
        [field ("Host", host), field ("Connection", "close")].flatMap Http.renderField) := by
  have hspace : asBytes " " = [32] := by decide
  have hhost : asBytes " HTTP/1.0\r\nHost: " =
      32 :: Http.version ++ (Http.crlf ++ asBytes "Host" ++ [58, 32]) := by decide
  have hconnection : asBytes "\r\nConnection: close\r\n" =
      Http.crlf ++ Http.renderField (field ("Connection", "close")) := by decide
  change asBytes (method ++ " " ++ path ++ " HTTP/1.0\r\nHost: " ++ host ++
    "\r\nConnection: close\r\n") = _
  rw [asBytes_append, asBytes_append, asBytes_append, asBytes_append, asBytes_append, hspace,
    hhost, hconnection]
  simp [Http.renderField, field]

theorem asBytes_end (req : String) (body : Option String) :
    asBytes (match body with
      | some b => req ++ s!"Content-Length: {b.utf8ByteSize}\r\n\r\n{b}"
      | none => req ++ "\r\n") =
      asBytes req ++ Http.renderFields (lengthFields body) (asBytes (body.getD "")) := by
  cases body with
  | none =>
    have hcrlf : asBytes "\r\n" = Http.crlf ++ asBytes "" := by decide
    rw [asBytes_append, hcrlf]
    rfl
  | some b =>
    have hname : asBytes "Content-Length: " = asBytes "Content-Length" ++ [58, 32] := by decide
    have hblank : asBytes "\r\n\r\n" = Http.crlf ++ Http.crlf := by decide
    dsimp only
    change asBytes (req ++ ("Content-Length: " ++ toString b.utf8ByteSize ++ "\r\n\r\n" ++ b)) = _
    rw [asBytes_append, asBytes_append, asBytes_append, asBytes_append, hname, hblank]
    simp [Http.renderFields, Http.renderField, lengthFields, field]

theorem asBytes_buildRequest (method : String) (u : ParsedUrl) (headers : Value)
    (body : Option String) :
    asBytes (buildRequest method u.host u.path headers body) =
      Http.render (meant method u (stringHeaders headers) body) := by
  have hheaders : (match headers.asObject with
      | some headersObj => headersObj.foldl (fun req (k, v) =>
          match v.asStr with
          | some val => req ++ s!"{k}: {val}\r\n"
          | none => req)
            s!"{method} {u.path} HTTP/1.0\r\nHost: {u.host}\r\nConnection: close\r\n"
      | none => s!"{method} {u.path} HTTP/1.0\r\nHost: {u.host}\r\nConnection: close\r\n") =
        (callerHeaders headers).foldl (fun req (k, v) =>
          match v.asStr with
          | some val => req ++ s!"{k}: {val}\r\n"
          | none => req)
            s!"{method} {u.path} HTTP/1.0\r\nHost: {u.host}\r\nConnection: close\r\n" := by
    unfold callerHeaders
    cases headers.asObject <;> rfl
  unfold buildRequest
  dsimp only
  rw [asBytes_end, hheaders, asBytes_headers, asBytes_start]
  simp [Http.render, Http.renderFields, meant, stringHeaders]

/-! ## What is read -/

/-- The digits of a number, as characters and as bytes. -/
theorem toNat_digit {n : ℕ} {c : Char} (hc : c ∈ Nat.toDigits 10 n) :
    48 ≤ c.toNat ∧ c.toNat ≤ 57 ∧ (UInt8.ofNat c.toNat).toNat = c.toNat := by
  have hdigit : c.isDigit = true := Nat.isDigit_of_mem_toDigits (by decide) (by decide) hc
  have hbounds : 48 ≤ c.toNat ∧ c.toNat ≤ 57 := Char.isDigit_iff_toNat.mp hdigit
  refine ⟨hbounds.1, hbounds.2, ?_⟩
  rw [UInt8.toNat_ofNat']
  omega

theorem asBytes_toString (n : ℕ) :
    asBytes (toString n) = (Nat.toDigits 10 n).map fun c => UInt8.ofNat c.toNat := by
  rw [asBytes_eq, Nat.toString_eq_ofList_toDigits, String.toList_ofList, List.map_eq_flatMap]
  refine List.flatMap_congr fun c hc => ?_
  have := toNat_digit hc
  exact utf8EncodeChar_of_ascii (by omega)

theorem number_toString (n : ℕ) : Http.number (asBytes (toString n)) = some n := by
  have hall : ((Nat.toDigits 10 n).map fun c => UInt8.ofNat c.toNat).all
      (fun b => 48 ≤ b && b ≤ 57) = true := by
    rw [List.all_map, List.all_eq_true]
    intro c hc
    obtain ⟨hle, hge, hbyte⟩ := toNat_digit hc
    simp [UInt8.le_iff_toNat_le, hbyte, hle, hge]
  have hvalue : ((Nat.toDigits 10 n).map fun c => UInt8.ofNat c.toNat).foldl
      (fun n b => 10 * n + (b.toNat - 48)) 0 = n := by
    rw [List.foldl_map]
    refine Eq.trans ?_ Nat.ofDigitChars_ten_toDigits
    refine List.foldl_ext _ _ _ fun a c hc => ?_
    rw [(toNat_digit hc).2.2]
    rfl
  have hne : (Nat.toDigits 10 n).map (fun c => UInt8.ofNat c.toNat) ≠ [] := by
    simp [Nat.toDigits_ne_nil]
  rw [asBytes_toString, Http.number, if_pos ⟨hne, hall⟩, hvalue]

theorem isValue_toString (n : ℕ) : Http.IsValue (asBytes (toString n)) := by
  rw [asBytes_toString]
  refine Http.isValue_of_visible ?_
  rw [List.all_map, List.all_eq_true]
  intro c hc
  obtain ⟨hle, hge, hbyte⟩ := toNat_digit hc
  have hne : UInt8.ofNat c.toNat ≠ 127 := by
    intro h
    have := congrArg UInt8.toNat h
    rw [hbyte] at this
    have h127 : (127 : UInt8).toNat = 127 := by decide
    omega
  have hvisible : 33 ≤ c.toNat := by omega
  simp [Http.isVisible, UInt8.le_iff_toNat_le, hbyte, hvisible, hne]

theorem mem_lengthFields {body : Option String} {f : Http.Field} :
    f ∈ lengthFields body ↔ ∃ b, body = some b ∧
      f = field ("Content-Length", toString b.utf8ByteSize) := by
  cases body <;> simp [lengthFields]

theorem lowerName_lengthFields {body : Option String} {f : Http.Field}
    (hf : f ∈ lengthFields body) : Http.lowerName f.1 = Http.lengthName := by
  obtain ⟨b, -, rfl⟩ := mem_lengthFields.mp hf
  have hname : Http.lowerName (asBytes "Content-Length") = Http.lengthName := by decide
  exact hname

/-- There is one host exactly if the caller gives none. -/
theorem length_filter_host (method : String) (u : ParsedUrl) (given : List (String × String))
    (body : Option String) :
    ((meant method u given body).fields.filter fun f =>
        Http.lowerName f.1 = Http.hostName).length = 1 ↔
      ∀ h ∈ given, Http.lowerName (asBytes h.1) ≠ Http.hostName := by
  have hhost : Http.lowerName (field ("Host", u.host)).1 = Http.hostName := by
    have hname : Http.lowerName (asBytes "Host") = Http.hostName := by decide
    exact hname
  have hconnection : Http.lowerName (field ("Connection", "close")).1 ≠ Http.hostName := by decide
  have hlength : ∀ f ∈ lengthFields body, Http.lowerName f.1 ≠ Http.hostName := by
    intro f hf
    rw [lowerName_lengthFields hf]
    decide
  have hnone : (lengthFields body).filter (fun f => Http.lowerName f.1 = Http.hostName) = [] := by
    rw [List.filter_eq_nil_iff]
    exact fun f hf => by simpa using hlength f hf
  have hcount : ((meant method u given body).fields.filter fun f =>
      Http.lowerName f.1 = Http.hostName) = field ("Host", u.host) ::
        (given.map field).filter fun f => Http.lowerName f.1 = Http.hostName := by
    change (field ("Host", u.host) :: field ("Connection", "close") ::
      (given.map field ++ lengthFields body)).filter _ = _
    rw [List.filter_cons, if_pos (decide_eq_true hhost), List.filter_cons,
      if_neg (mt of_decide_eq_true hconnection), List.filter_append, hnone, List.append_nil]
  rw [hcount, List.length_cons, Nat.add_eq_right, List.length_eq_zero_iff, List.filter_eq_nil_iff,
    List.forall_mem_map]
  refine forall₂_congr fun h _ => ?_
  rw [decide_eq_true_iff]
  rfl

section Fields

variable {method : String} {u : ParsedUrl} {given : List (String × String)} {body : Option String}

theorem forall_mem_fields {P : Http.Field → Prop} :
    (∀ f ∈ (meant method u given body).fields, P f) ↔
      P (field ("Host", u.host)) ∧ P (field ("Connection", "close")) ∧
        (∀ h ∈ given, P (field h)) ∧ ∀ f ∈ lengthFields body, P f := by
  change (∀ f ∈ field ("Host", u.host) :: field ("Connection", "close") ::
    (given.map field ++ lengthFields body), P f) ↔ _
  rw [List.forall_mem_cons, List.forall_mem_cons, List.forall_mem_append, List.forall_mem_map]

theorem fields_clean_iff :
    (∀ f ∈ (meant method u given body).fields, Http.IsToken f.1 ∧ Http.IsValue f.2) ↔
      Http.IsValue (asBytes u.host) ∧
        ∀ h ∈ given, Http.IsToken (asBytes h.1) ∧ Http.IsValue (asBytes h.2) := by
  have hhost : Http.IsToken (asBytes "Host") := by decide
  have hconnection : Http.IsToken (asBytes "Connection") ∧ Http.IsValue (asBytes "close") := by
    decide
  have hlength : ∀ f ∈ lengthFields body, Http.IsToken f.1 ∧ Http.IsValue f.2 := by
    intro f hf
    obtain ⟨b, -, rfl⟩ := mem_lengthFields.mp hf
    have hname : Http.IsToken (asBytes "Content-Length") := by decide
    exact ⟨hname, isValue_toString _⟩
  rw [forall_mem_fields]
  constructor
  · rintro ⟨hu, -, hgiven, -⟩
    exact ⟨hu.2, hgiven⟩
  · rintro ⟨hu, hgiven⟩
    exact ⟨⟨hhost, hu⟩, hconnection, hgiven, hlength⟩

theorem fields_coding_iff :
    (∀ f ∈ (meant method u given body).fields, Http.lowerName f.1 ≠ Http.codingName) ↔
      ∀ h ∈ given, Http.lowerName (asBytes h.1) ≠ Http.codingName := by
  have hhost : Http.lowerName (asBytes "Host") ≠ Http.codingName := by decide
  have hconnection : Http.lowerName (asBytes "Connection") ≠ Http.codingName := by decide
  have hlength : ∀ f ∈ lengthFields body, Http.lowerName f.1 ≠ Http.codingName := by
    intro f hf
    rw [lowerName_lengthFields hf]
    decide
  rw [forall_mem_fields]
  constructor
  · rintro ⟨-, -, hgiven, -⟩
    exact hgiven
  · exact fun hgiven => ⟨hhost, hconnection, hgiven, hlength⟩

/-- The length that is written is that of the body. -/
theorem fields_length_iff :
    (∀ f ∈ (meant method u given body).fields, Http.lowerName f.1 = Http.lengthName →
        Http.number f.2 = some (body.getD "").utf8ByteSize) ↔
      ∀ h ∈ given, Http.lowerName (asBytes h.1) = Http.lengthName →
        Http.number (asBytes h.2) = some (body.getD "").utf8ByteSize := by
  have hhost : Http.lowerName (asBytes "Host") ≠ Http.lengthName := by decide
  have hconnection : Http.lowerName (asBytes "Connection") ≠ Http.lengthName := by decide
  have hlength : ∀ f ∈ lengthFields body, Http.lowerName f.1 = Http.lengthName →
      Http.number f.2 = some (body.getD "").utf8ByteSize := by
    intro f hf _
    obtain ⟨b, rfl, rfl⟩ := mem_lengthFields.mp hf
    exact number_toString _
  rw [forall_mem_fields]
  constructor
  · rintro ⟨-, -, hgiven, -⟩
    exact hgiven
  · exact fun hgiven => ⟨fun h => absurd h hhost, fun h => absurd h hconnection, hgiven, hlength⟩

theorem exists_length_of_body (hbody : asBytes (body.getD "") ≠ []) :
    ∃ f ∈ (meant method u given body).fields, Http.lowerName f.1 = Http.lengthName := by
  cases body with
  | none => exact absurd rfl hbody
  | some b =>
    have hf := mem_lengthFields.mpr ⟨b, rfl, rfl⟩
    have hmem : _ ∈ (meant method u given (some b)).fields :=
      List.mem_cons_of_mem _ (List.mem_cons_of_mem _ (List.mem_append_right _ hf))
    exact ⟨_, hmem, lowerName_lengthFields hf⟩

end Fields

/-- What is meant is well formed exactly if its parts can stand in a request. -/
theorem meant_wellFormed_iff {method : String} (hmethod : Http.IsToken (asBytes method))
    (u : ParsedUrl) (given : List (String × String)) (body : Option String) :
    (meant method u given body).WellFormed ↔
      Http.IsTarget (asBytes u.path) ∧ Http.IsValue (asBytes u.host) ∧
        ∀ h ∈ given, Sendable (body.getD "").utf8ByteSize h := by
  constructor
  · rintro ⟨-, htarget, hfields, hhost, hcoding, hlength, -⟩
    obtain ⟨hvalue, hgiven⟩ := fields_clean_iff.mp hfields
    refine ⟨htarget, hvalue, fun h hh => ?_⟩
    exact ⟨(hgiven h hh).1, (hgiven h hh).2,
      (length_filter_host method u given body).mp hhost h hh, fields_coding_iff.mp hcoding h hh,
      fields_length_iff.mp hlength h hh⟩
  · rintro ⟨htarget, hvalue, hgiven⟩
    refine ⟨hmethod, htarget, ?_, ?_, ?_, ?_, exists_length_of_body⟩
    · exact fields_clean_iff.mpr ⟨hvalue, fun h hh => ⟨(hgiven h hh).name, (hgiven h hh).value⟩⟩
    · exact (length_filter_host method u given body).mpr fun h hh => (hgiven h hh).not_host
    · exact fields_coding_iff.mpr fun h hh => (hgiven h hh).not_coding
    · exact fields_length_iff.mpr fun h hh => (hgiven h hh).length

/-! ## What is sent -/

theorem exists_ofStrings_iff {l : List (String × Value)} {P : String × String → Prop} :
    (∃ given, l = ofStrings given ∧ ∀ h ∈ given, P h) ↔
      ∀ h ∈ l, ∃ v, h.2 = .string v ∧ P (h.1, v) := by
  constructor
  · rintro ⟨given, rfl, hgiven⟩
    rw [ofStrings, List.forall_mem_map]
    exact fun h hh => ⟨h.2, rfl, hgiven h hh⟩
  · intro h
    induction l with
    | nil => exact ⟨[], rfl, List.forall_mem_nil _⟩
    | cons p l ih =>
      obtain ⟨⟨v, hv, hp⟩, hl⟩ := List.forall_mem_cons.mp h
      obtain ⟨given, rfl, hgiven⟩ := ih hl
      refine ⟨(p.1, v) :: given, ?_, List.forall_mem_cons.mpr ⟨hp, hgiven⟩⟩
      change _ = (p.1, .string v) :: ofStrings given
      rw [← hv]

theorem stringHeaders_of_eq {headers : Value} {given : List (String × String)}
    (h : callerHeaders headers = ofStrings given) : stringHeaders headers = given := by
  rw [stringHeaders, h, ofStrings, List.filterMap_map]
  exact List.filterMap_some

theorem sends_iff_of_sent {method : String} (hmethod : Http.IsToken (asBytes method))
    (u : ParsedUrl) (headers : Value) (body : Option String) :
    Sends method u headers body
        [⟨u.host, u.port, buildRequest method u.host u.path headers body⟩] ↔
      Framable u headers body := by
  constructor
  · rintro ⟨given, request, hgiven, hsent, hparse⟩
    obtain rfl : buildRequest method u.host u.path headers body = request := by
      simpa using hsent
    rw [asBytes_buildRequest, stringHeaders_of_eq hgiven, Http.parse_render_iff,
      meant_wellFormed_iff hmethod] at hparse
    obtain ⟨hpath, hhost, hsendable⟩ := hparse
    exact ⟨hpath, hhost, exists_ofStrings_iff.mp ⟨given, hgiven, hsendable⟩⟩
  · rintro ⟨hpath, hhost, hheaders⟩
    obtain ⟨given, hgiven, hsendable⟩ := exists_ofStrings_iff.mpr hheaders
    refine ⟨given, _, hgiven, rfl, ?_⟩
    rw [asBytes_buildRequest, stringHeaders_of_eq hgiven, Http.parse_render_iff,
      meant_wellFormed_iff hmethod]
    exact ⟨hpath, hhost, hsendable⟩

theorem exchange_sent (formats : Formats) (replies : ℕ → Except String (List UInt8))
    (host : String) (port : ℕ) (request : String) (n : ℕ) :
    (exchange formats replies host port request n).1 = [⟨host, port, request⟩] := by
  unfold exchange
  rw [Eff.actions_bind_of_silent]
  · rfl
  · intro _ w
    rw [Eff.actions_bind_of_silent]
    · rfl
    · rintro (e | buf) w <;> rfl

variable {formats : Formats} {url : String} {u : ParsedUrl}

theorem doGet_sent (hurl : parseUrl formats url = .ok u)
    (replies : ℕ → Except String (List UInt8)) (headers : Value) (n : ℕ) :
    (doGet formats replies url headers n).1 =
      [⟨u.host, u.port, buildRequest "GET" u.host u.path headers none⟩] := by
  unfold doGet
  rw [hurl]
  dsimp only
  rw [Eff.actions_bind_of_silent, exchange_sent]
  rintro (e | ⟨status, body⟩) w <;> rfl

theorem doPost_sent (hurl : parseUrl formats url = .ok u)
    (replies : ℕ → Except String (List UInt8)) (headers : Value) (body : String) (n : ℕ) :
    (doPost formats replies url headers body n).1 =
      [⟨u.host, u.port, buildRequest "POST" u.host u.path headers (some body)⟩] := by
  unfold doPost
  rw [hurl]
  dsimp only
  rw [Eff.actions_bind_of_silent, exchange_sent]
  rintro (e | ⟨status, body⟩) w <;> rfl

/-- For a url that is accepted, a server reads the request that is meant exactly if the parts of
the url and the headers of the caller can stand in one. -/
theorem sends_iff (hurl : parseUrl formats url = .ok u)
    (replies : ℕ → Except String (List UInt8)) (headers : Value) (n : ℕ) :
    (Sends "GET" u headers none (doGet formats replies url headers n).1 ↔
        Framable u headers none) ∧
      ∀ body, Sends "POST" u headers (some body) (doPost formats replies url headers body n).1 ↔
        Framable u headers (some body) := by
  constructor
  · rw [doGet_sent hurl]
    exact sends_iff_of_sent (by decide) u headers none
  · intro body
    rw [doPost_sent hurl]
    exact sends_iff_of_sent (by decide) u headers (some body)

theorem sends_iff_traced :
    Sends "POST" ⟨"example.com", 8080, "/a?q=1"⟩ (.object [("X-Trace", .string "a b")]) (some "hi")
      (doPost ⟨fun _ => "", id⟩ (fun _ => .error "read: timed out") "http://example.com:8080/a?q=1"
        (.object [("X-Trace", .string "a b")]) "hi" 0).1 := by
  have hurl : parseUrl ⟨fun _ => "", id⟩ "http://example.com:8080/a?q=1" =
      .ok ⟨"example.com", 8080, "/a?q=1"⟩ := by rfl
  refine ((sends_iff hurl _ _ 0).2 "hi").mpr ⟨by decide, by decide, ?_⟩
  intro h hh
  rw [List.mem_singleton.mp hh]
  exact ⟨"a b", rfl, by decide, by decide, by decide, by decide, by decide⟩

/-- The value of a header brings a header of its own. -/
theorem not_sends_injected :
    ¬Sends "GET" ⟨"example.com", 80, "/"⟩
      (.object [("X-Trace", .string "a\r\nAuthorization: Basic Zm9v")]) none
      (doGet ⟨fun _ => "", id⟩ (fun _ => .error "read: timed out") "http://example.com/"
        (.object [("X-Trace", .string "a\r\nAuthorization: Basic Zm9v")]) 0).1 := by
  have hurl : parseUrl ⟨fun _ => "", id⟩ "http://example.com/" = .ok ⟨"example.com", 80, "/"⟩ := by
    rfl
  rw [doGet_sent hurl, sends_iff_of_sent (by decide)]
  intro h
  obtain ⟨v, hv, hsendable⟩ := h.headers _ List.mem_cons_self
  obtain rfl := Value.string.inj hv
  have hvalue := hsendable.value
  revert hvalue
  decide

end HttpCaps

end Pan
