import Mathlib.Data.List.Infix
import Pan.Urls

namespace Pan

/-- The value of the first `Location` header of a head. -/
def parseLocation (head : String) : Option String := do
  let line ← (lines head).find? fun line =>
    "location:".toList.isPrefixOf (asciiLowercase line).toList
  let (_, value) ← Text.splitOnce ':' line.toList
  return trim (String.ofList value)

inductive BytesResult where
  | body (bytes : List UInt8)
  | redirect (loc : String)

section Downloads

variable (formats : Formats) (utf8Error : List UInt8 → String)

/-- What is read in the bytes of a response. `utf8Error` says why bytes are no UTF-8. -/
def readBytes (raw : List UInt8) : Except String BytesResult :=
  match splitHttpResponse raw with
  | none => .error "malformed HTTP response"
  | some (headBytes, body) =>
    match decodeUtf8 headBytes with
    | none => .error s!"bad response headers: {utf8Error headBytes}"
    | some head =>
      -- a status that is no number counts as 0, so it is an error
      let code := (statusCode head).getD 0
      if 300 ≤ code ∧ code < 400 then
        match parseLocation head with
        | some loc => .ok (.redirect loc)
        | none => .error s!"HTTP {code}: redirect with no Location"
      else if ¬(200 ≤ code ∧ code < 300) then
        .error s!"HTTP {code}: {fromUtf8Lossy (body.take 200)}"
      else .ok (.body body)

variable (replies : ℕ → Except String (List UInt8))

def getBytesOnce (url : String) : Eff HttpStep ℕ (Except String BytesResult) :=
  match parseBase formats url "" with
  | .error e => return .error e
  | .ok target => do
    match ← exchange replies target (buildGetRequest target.host target.fullPath) with
    | .error e => return .error e
    | .ok raw => return readBytes utf8Error raw

def nextUrl (url loc : String) : String :=
  if ['/'].isPrefixOf loc.toList then
    String.ofList (['/'].intercalate ((url.toList.splitOn '/').take 3)) ++ loc
  else loc

def getHops : ℕ → String → Eff HttpStep ℕ (Except String (List UInt8))
  | 0, _ => return .error "too many redirects"
  | more + 1, url => do
    match ← getBytesOnce formats utf8Error replies url with
    | .error e => return .error e
    | .ok (.body bytes) => return .ok bytes
    | .ok (.redirect loc) => getHops more (nextUrl url loc)

def getBytesAsync (url : String) : Eff HttpStep ℕ (Except String (List UInt8)) :=
  getHops formats utf8Error replies 5 url

end Downloads

/-! ## Chains -/

def Redirects (reply : Except String (List UInt8)) (loc : Location) : Prop :=
  ∃ raw head body code, reply = .ok raw ∧ firstBlankLine raw = some (head, body) ∧
    statusCode (fromUtf8Lossy head) = some code ∧ 300 ≤ code ∧ code < 400 ∧
    parseLocation (fromUtf8Lossy head) = some loc.text

/-- The bytes are a response with a status of 2xx and this body. -/
def Delivers (reply : Except String (List UInt8)) (body : List UInt8) : Prop :=
  ∃ raw head code, reply = .ok raw ∧ firstBlankLine raw = some (head, body) ∧
    statusCode (fromUtf8Lossy head) = some code ∧ 200 ≤ code ∧ code < 300

/-- From the reply number `n` on there is a redirect for each location, and then the body. -/
def Chain (replies : ℕ → Except String (List UInt8)) (body : List UInt8) :
    ℕ → List Location → Prop
  | n, [] => Delivers (replies n) body
  | n, loc :: locs => Redirects (replies n) loc ∧ Chain replies body (n + 1) locs

def HttpUrl.request (v : HttpUrl) : Target × String :=
  (v.target, buildGetRequest v.target.host v.target.fullPath)

structure Follows (v : HttpUrl) (locs : List Location) (body : List UInt8)
    (run : List (Target × String) × Option (Except String (List UInt8) × ℕ)) : Prop where
  few : locs.length ≤ 5 →
    run.1 = (v.chain locs).map HttpUrl.request ∧ run.2.map Prod.fst = some (.ok body)
  many : 5 < locs.length → ∃ e, run.2.map Prod.fst = some (.error e)
  length_le : run.1.length ≤ 6

/-! ## Heads -/

def chomp (line : List Char) : List Char :=
  if line.getLast? = some '\r' then line.dropLast else line

theorem chomp_eq (line : List Char) : chomp line = line ∨ line = chomp line ++ ['\r'] := by
  unfold chomp
  split_ifs with h
  · right
    exact (List.dropLast_append_getLast? _ h).symm
  · left
    rfl

/-- The lines of a text are those of the text with more lines behind it, but for the last. -/
theorem exists_lines_append (l rest : List Char) : ∃ (front : List String) (last : List Char)
    (more : List String),
      lines (String.ofList l) = front ++ (if last = [] then [] else [String.ofList last]) ∧
      lines (String.ofList (l ++ '\n' :: rest)) = front ++ String.ofList (chomp last) :: more := by
  obtain ⟨init, last, hinit⟩ : ∃ init last, l.splitOn '\n' = init ++ [last] :=
    ⟨_, _, (List.dropLast_concat_getLast (List.splitOn_ne_nil '\n' l)).symm⟩
  obtain ⟨init', last', hinit'⟩ : ∃ init last, rest.splitOn '\n' = init ++ [last] :=
    ⟨_, _, (List.dropLast_concat_getLast (List.splitOn_ne_nil '\n' rest)).symm⟩
  refine ⟨init.map (fun line => String.ofList (chomp line)), last,
    (init'.map chomp ++ ((some last').filter fun line => line ≠ []).toList).map String.ofList,
    ?_, ?_⟩
  · unfold lines
    rw [String.toList_ofList, hinit]
    dsimp only
    rw [List.dropLast_concat, List.getLast?_concat, List.map_append, List.map_map]
    congr 1
    by_cases h : last = [] <;> simp [Option.filter, h]
  · unfold lines
    rw [String.toList_ofList, List.splitOn_append_cons_self, hinit, hinit']
    dsimp only
    rw [← List.append_assoc, List.dropLast_concat, List.getLast?_concat, List.map_append,
      List.map_append, List.map_append, List.map_append]
    simp [chomp, Function.comp_def]

theorem splitWhitespace_chomp (line : List Char) :
    splitWhitespace (String.ofList (chomp line)) = splitWhitespace (String.ofList line) := by
  rcases chomp_eq line with h | h
  · rw [h]
  · have hcr : isWhitespace '\r' = true := by decide
    conv_rhs => rw [h]
    unfold splitWhitespace
    rw [String.toList_ofList, String.toList_ofList, List.splitOnP_append_cons _ _ hcr]
    simp

theorem trim_append_cr (l : List Char) :
    trim (String.ofList (l ++ ['\r'])) = trim (String.ofList l) := by
  have hcr : isWhitespace '\r' = true := by decide
  unfold trim
  rw [String.toList_ofList, String.toList_ofList, List.dropWhile_append]
  split_ifs with h
  · rw [List.isEmpty_iff.mp h, List.dropWhile_cons_of_pos hcr]
    rfl
  · rw [List.rdropWhile_concat_pos _ _ _ hcr]

theorem location_prefix_chomp {line : List Char}
    (h : "location:".toList <+: (asciiLowercase (String.ofList line)).toList) :
    "location:".toList <+: (asciiLowercase (String.ofList (chomp line))).toList := by
  rcases chomp_eq line with heq | heq
  · rwa [heq]
  · have hlower : (asciiLowercase (String.ofList line)).toList =
        (asciiLowercase (String.ofList (chomp line))).toList ++ ['\r'] := by
      conv_lhs => rw [heq]
      have hcr : Char.toLower '\r' = '\r' := by decide
      simp only [asciiLowercase, String.toList_ofList, List.map_append, List.map_cons, List.map_nil,
        hcr]
    rw [hlower, List.prefix_concat_iff] at h
    refine h.resolve_left fun hsame => ?_
    have hcr : '\r' ∈ "location:".toList := hsame ▸ List.mem_append_right _ List.mem_cons_self
    revert hcr
    decide

theorem splitOnce_chomp {line name value : List Char}
    (h : Text.splitOnce ':' line = some (name, value)) :
    ∃ value', Text.splitOnce ':' (chomp line) = some (name, value') ∧
      trim (String.ofList value') = trim (String.ofList value) := by
  rcases chomp_eq line with heq | heq
  · exact ⟨value, by rw [heq, h], rfl⟩
  · obtain ⟨hline, hname⟩ := Text.splitOnce_eq_some.mp h
    rw [heq] at hline
    rcases List.eq_nil_or_concat value with rfl | ⟨value', c, rfl⟩
    · have hne : ['\r'] ≠ [':'] := by decide
      exact absurd (List.append_inj' hline rfl).2 hne
    · rw [List.concat_eq_append, ← List.cons_append, ← List.append_assoc] at hline
      obtain ⟨hfront, hc⟩ := List.append_inj' hline rfl
      obtain rfl := List.head_eq_of_cons_eq hc
      refine ⟨value', ?_, ?_⟩
      · rw [hfront, Text.splitOnce_append _ _ hname]
      · rw [List.concat_eq_append, trim_append_cr]

/-- What stands behind a head does not change its status. -/
theorem statusCode_append (l rest : List Char) :
    statusCode (String.ofList (l ++ '\n' :: rest)) = statusCode (String.ofList l) := by
  obtain ⟨front, last, more, hlines, hlines'⟩ := exists_lines_append l rest
  unfold statusCode statusLine
  rw [hlines, hlines']
  cases front with
  | cons line front => rfl
  | nil =>
    rw [List.nil_append, List.nil_append, List.head?_cons, Option.getD_some, splitWhitespace_chomp]
    by_cases h : last = []
    · rw [if_pos h, h]
      rfl
    · rw [if_neg h]
      rfl

/-- A location in a head is found as well where more stands behind it. -/
theorem parseLocation_append {l : List Char} {loc : String}
    (h : parseLocation (String.ofList l) = some loc) (rest : List Char) :
    parseLocation (String.ofList (l ++ '\n' :: rest)) = some loc := by
  obtain ⟨front, last, more, hlines, hlines'⟩ := exists_lines_append l rest
  unfold parseLocation at h ⊢
  rw [hlines, List.find?_append] at h
  rw [hlines', List.find?_append]
  -- the last line may have been cut in the middle, those before it are whole
  cases hfront : front.find? fun line =>
      "location:".toList.isPrefixOf (asciiLowercase line).toList with
  | some line =>
    rw [hfront, Option.some_or] at h
    rw [Option.some_or]
    exact h
  | none =>
    rw [hfront, Option.none_or] at h
    rw [Option.none_or]
    obtain ⟨line, hline, hvalue⟩ := Option.bind_eq_some_iff.mp h
    have hlast : line = String.ofList last := by
      have hmem := List.mem_of_find?_eq_some hline
      split_ifs at hmem
      · cases hmem
      · exact List.mem_singleton.mp hmem
    subst hlast
    have hstart : "location:".toList <+: (asciiLowercase (String.ofList last)).toList := by
      simpa only [List.isPrefixOf_iff_prefix] using List.find?_some hline
    obtain ⟨⟨name, value⟩, hsplit, hloc⟩ := Option.bind_eq_some_iff.mp hvalue
    rw [String.toList_ofList] at hsplit
    obtain ⟨value', hsplit', htrim⟩ := splitOnce_chomp hsplit
    have hfind : (String.ofList (chomp last) :: more).find? (fun line =>
        "location:".toList.isPrefixOf (asciiLowercase line).toList) =
          some (String.ofList (chomp last)) := by
      refine List.find?_cons_of_pos ?_
      simpa only [List.isPrefixOf_iff_prefix] using location_prefix_chomp hstart
    refine Option.bind_eq_some_iff.mpr
      ⟨_, hfind, Option.bind_eq_some_iff.mpr ⟨(name, value'), ?_, ?_⟩⟩
    · rw [String.toList_ofList]
      exact hsplit'
    · rw [← hloc]
      exact congrArg some htrim

/-- A blank line before the one that was found is in the head. -/
theorem splitAtPattern_head {raw head head' body body' : List UInt8}
    (h : Text.splitAtPattern crlfBytes raw = some (head, body))
    (h' : Text.splitAtPattern lfBytes raw = some (head', body'))
    (hlt : head'.length < head.length) :
    ∃ rest, Text.splitAtPattern lfBytes head = some (head', rest) := by
  obtain ⟨hraw, -⟩ := (Text.splitAtPattern_eq_some (by decide)).mp h
  obtain ⟨hraw', hfirst⟩ := (Text.splitAtPattern_eq_some (by decide)).mp h'
  have hroom : (head' ++ lfBytes).length ≤ head.length := by
    rw [List.length_append]
    by_contra hno
    -- a line feed would be a carriage return
    have hlength : head.length = head'.length + 1 := by
      have : lfBytes.length = 2 := rfl
      omega
    have hdrop : raw.drop head.length = crlfBytes ++ body := by rw [hraw, List.drop_left]
    have hdrop' : raw.drop head.length = 10 :: body' := by
      have hraw'' : raw = (head' ++ [10]) ++ (10 :: body') := by simp [hraw', lfBytes]
      rw [hraw'']
      exact List.drop_left' (by simp [hlength])
    rw [hdrop'] at hdrop
    have hne : (10 : UInt8) ≠ 13 := by decide
    exact hne (List.head_eq_of_cons_eq hdrop)
  have hpre : head' ++ lfBytes <+: head :=
    List.prefix_of_prefix_length_le ⟨body', by rw [hraw', List.append_assoc]⟩
      ⟨crlfBytes ++ body, hraw.symm⟩ hroom
  obtain ⟨rest, hrest⟩ := hpre
  refine ⟨rest, (Text.splitAtPattern_eq_some (by decide)).mpr ⟨?_, fun i hi hlf => ?_⟩⟩
  · rw [← hrest, List.append_assoc]
  · refine hfirst i hi (hlf.trans ?_)
    rw [hraw]
    exact List.IsPrefix.drop (List.prefix_append _ _) i

/-- The head that the splitter of bytes finds is the head of the response, or goes on behind the
blank line after it. -/
theorem head_of_split {raw head head' body body' : List UInt8}
    (h : splitHttpResponse raw = some (head, body))
    (h' : firstBlankLine raw = some (head', body')) :
    head = head' ∨ ∃ rest, Text.splitAtPattern lfBytes head = some (head', rest) := by
  have hcrlf : crlfBytes ≠ [] := by decide
  have hlf : lfBytes ≠ [] := by decide
  rw [splitHttpResponse, scanFor_eq hcrlf, scanFor_eq hlf] at h
  rw [firstBlankLine, Text.splitAtEither_eq hcrlf hlf] at h'
  -- which of the two blank lines occur, and which one first
  rcases hX : Text.splitAtPattern crlfBytes raw with _ | ⟨x, y⟩ <;>
    rcases hY : Text.splitAtPattern lfBytes raw with _ | ⟨x', y'⟩ <;> rw [hX, hY] at h h'
  · cases h'
  · left
    have hsame := (Option.eq_some_of_filter_eq_some h).symm.trans h'
    exact (Prod.mk.inj (Option.some.inj hsame)).1
  · left
    by_cases hy : y = []
    · simp [Option.filter, hy] at h
    · have hx : x = head := by simpa [Option.filter, hy] using congrArg (Option.map Prod.fst) h
      have hx' : x = head' := congrArg Prod.fst (Option.some.inj h')
      rw [← hx, hx']
  · by_cases hle : x.length ≤ x'.length
    · left
      have hy : y ≠ [] := by
        rintro rfl
        exact absurd (lt_of_splitAtPattern hX hY).1 (not_lt.mpr hle)
      have hx : x = head := by simpa [Option.filter, hy] using congrArg (Option.map Prod.fst) h
      have hx' : x = head' := by simpa [hle] using congrArg (Option.map Prod.fst) h'
      rw [← hx, hx']
    · have hx' : x' = head' := by simpa [hle] using congrArg (Option.map Prod.fst) h'
      by_cases hy : y = []
      · left
        have hsame : x' = head := by
          by_cases hy' : y' = []
          · simp [Option.filter, hy, hy'] at h
          · simpa [Option.filter, hy, hy'] using congrArg (Option.map Prod.fst) h
        rw [← hsame, hx']
      · right
        have hx : x = head := by simpa [Option.filter, hy] using congrArg (Option.map Prod.fst) h
        rw [← hx, ← hx']
        exact splitAtPattern_head hX hY (not_le.mp hle)

/-- The text of the head that is found has the status and the location of the head of the
response. -/
theorem exists_text_of_head {raw head head' body body' : List UInt8} {s : String}
    (h : splitHttpResponse raw = some (head, body)) (h' : firstBlankLine raw = some (head', body'))
    (hs : asBytes s = head) :
    ∃ s', asBytes s' = head' ∧ statusCode s = statusCode s' ∧
      ∀ loc, parseLocation s' = some loc → parseLocation s = some loc := by
  rcases head_of_split h h' with rfl | ⟨rest, hrest⟩
  · exact ⟨s, hs, rfl, fun loc hloc => hloc⟩
  · have hlf : lfBlank.flatMap String.utf8EncodeChar = lfBytes := by decide
    rw [← hs, ← hlf, splitAtPattern_asBytes (by decide) (by simp [lfBlank])] at hrest
    obtain ⟨⟨l, rest'⟩, hl, hp⟩ := Option.map_eq_some_iff.mp hrest
    obtain ⟨hs', -⟩ := (Text.splitAtPattern_eq_some (by decide)).mp hl
    have htext : s = String.ofList (l ++ '\n' :: ('\n' :: rest')) := by
      rw [← String.ofList_toList (s := s), hs']
      rfl
    refine ⟨String.ofList l, (Prod.mk.inj hp).1, ?_, fun loc hloc => ?_⟩
    · rw [htext, statusCode_append]
    · rw [htext]
      exact parseLocation_append hloc _

/-- The splitter of bytes finds a head, and this is a text. -/
def HeadRead (raw : List UInt8) : Prop :=
  ∃ head body, splitHttpResponse raw = some (head, body) ∧ IsUtf8 head

/-- The splitter of bytes finds this body, and the head before it is a text. -/
def BodyRead (raw body : List UInt8) : Prop :=
  ∃ head, splitHttpResponse raw = some (head, body) ∧ IsUtf8 head

section Reading

variable {utf8Error : List UInt8 → String} {raw head body : List UInt8} {code : ℕ}

variable (utf8Error) in
theorem readBytes_of_not_headRead (h : ¬HeadRead raw) :
    ∃ e, readBytes utf8Error raw = .error e := by
  unfold readBytes
  cases hsplit : splitHttpResponse raw with
  | none => exact ⟨_, rfl⟩
  | some parts =>
    cases hdecode : decodeUtf8 parts.1 with
    | none => exact ⟨s!"bad response headers: {utf8Error parts.1}", by simp [hdecode]⟩
    | some s => exact absurd ⟨parts.1, parts.2, hsplit, s, decodeUtf8_eq_some.mp hdecode⟩ h

variable (utf8Error) in
/-- What is read where the head of a response is found. -/
theorem exists_readBytes_eq
    (hraw : firstBlankLine raw = some (head, body)) {head' rest : List UInt8}
    (hsplit : splitHttpResponse raw = some (head', rest)) (hutf8 : IsUtf8 head')
    (hcode : statusCode (fromUtf8Lossy head) = some code) :
    ∃ s, (∀ loc, parseLocation (fromUtf8Lossy head) = some loc → parseLocation s = some loc) ∧
      readBytes utf8Error raw =
        if 300 ≤ code ∧ code < 400 then
          match parseLocation s with
          | some loc => .ok (.redirect loc)
          | none => .error s!"HTTP {code}: redirect with no Location"
        else if ¬(200 ≤ code ∧ code < 300) then
          .error s!"HTTP {code}: {fromUtf8Lossy (rest.take 200)}"
        else .ok (.body rest) := by
  obtain ⟨s, hs⟩ := hutf8
  obtain ⟨s', hs', hstatus, hlocation⟩ := exists_text_of_head hsplit hraw hs
  rw [← hs', fromUtf8Lossy_asBytes] at hcode ⊢
  refine ⟨s, hlocation, ?_⟩
  unfold readBytes
  rw [hsplit]
  dsimp only
  rw [decodeUtf8_eq_some.mpr hs]
  dsimp only
  rw [hstatus, hcode, Option.getD_some]

theorem readBytes_of_redirects {loc : Location}
    (h : Redirects (.ok raw) loc) (hread : HeadRead raw) :
    readBytes utf8Error raw = .ok (.redirect loc.text) := by
  obtain ⟨_, head, body, code, ⟨rfl⟩, hraw, hcode, hle, hlt, hloc⟩ := h
  obtain ⟨head', rest, hsplit, hutf8⟩ := hread
  obtain ⟨s, hlocation, hbytes⟩ :=
    exists_readBytes_eq utf8Error hraw hsplit hutf8 hcode
  rw [hbytes, if_pos ⟨hle, hlt⟩, hlocation _ hloc]

variable (utf8Error) in
/-- The body of a response is read exactly if the splitter of bytes finds it. -/
theorem readBytes_of_delivers
    (h : Delivers (.ok raw) body) :
    (readBytes utf8Error raw = .ok (.body body) ↔ BodyRead raw body) ∧
      ∀ loc, readBytes utf8Error raw ≠ .ok (.redirect loc) := by
  obtain ⟨_, head, code, ⟨rfl⟩, hraw, hcode, hle, hlt⟩ := h
  by_cases hread : HeadRead raw
  · obtain ⟨head', body', hsplit, hutf8⟩ := hread
    obtain ⟨s, -, hbytes⟩ :=
      exists_readBytes_eq utf8Error hraw hsplit hutf8 hcode
    have hno : ¬(300 ≤ code ∧ code < 400) := by omega
    rw [if_neg hno, if_neg (not_not.mpr ⟨hle, hlt⟩)] at hbytes
    rw [hbytes]
    constructor
    · constructor
      · intro hbody
        have hsame : body' = body := by simpa using hbody
        exact ⟨head', by rw [hsplit, hsame], hutf8⟩
      · rintro ⟨head'', hsplit', -⟩
        rw [(Prod.mk.inj (Option.some.inj (hsplit.symm.trans hsplit'))).2]
    · simp
  · obtain ⟨e, he⟩ := readBytes_of_not_headRead utf8Error hread
    rw [he]
    refine ⟨iff_of_false (by simp) ?_, by simp⟩
    rintro ⟨head', hsplit, hutf8⟩
    exact hread ⟨head', body, hsplit, hutf8⟩

end Reading

/-! ## Urls that are asked for next -/

theorem nextUrl_absolute (v u : HttpUrl) : nextUrl v.text u.text = u.text := by
  have hslash : ¬['/'] <+: u.text.toList := by
    intro h
    have htext : u.text.toList =
        u.schemeText.toList ++ ("://".toList ++ (u.authority ++ u.resource.text)) := by
      simp [HttpUrl.text]
    obtain ⟨c, rest, hscheme⟩ := List.exists_cons_of_ne_nil
      (mt String.toList_eq_nil_iff.mp u.schemeText_ne_empty)
    rw [htext, hscheme, List.cons_append, List.cons_prefix_cons] at h
    refine HttpUrl.not_mem_schemeText (c := '/') (by decide) u ?_
    rw [hscheme, h.1]
    exact List.mem_cons_self
  unfold nextUrl
  rw [if_neg (mt List.isPrefixOf_iff_prefix.mp hslash)]

/-- The first three segments of a url are its server. -/
theorem nextUrl_rooted {v : HttpUrl} (hv : v.resource.path ≠ []) {r : Resource} (hr : r.path ≠ []) :
    nextUrl v.text (String.ofList r.text) =
      v.schemeText ++ "://" ++ String.ofList (v.authority ++ r.text) := by
  obtain ⟨b, hb⟩ := Resource.exists_asked_eq hv
  obtain ⟨b', hb'⟩ := Resource.exists_asked_eq hr
  have hslash : ['/'] <+: (String.ofList r.text).toList := by
    rw [String.toList_ofList, Resource.text, hb', List.cons_append]
    exact List.cons_prefix_cons.mpr ⟨rfl, List.nil_prefix⟩
  have htext : v.text.toList = (v.schemeText.toList ++ [':']) ++ '/' :: ([] ++ '/' ::
      (v.authority ++ '/' :: (b ++ v.resource.fragment.elim [] fun f => '#' :: f))) := by
    simp [HttpUrl.text, Resource.text, hb]
  have hscheme : '/' ∉ v.schemeText.toList ++ [':'] := by
    rw [List.mem_append, not_or]
    exact ⟨HttpUrl.not_mem_schemeText (by decide) v, by decide⟩
  unfold nextUrl
  rw [if_pos (List.isPrefixOf_iff_prefix.mpr hslash), htext, List.splitOn_append_cons_self,
    List.splitOn_append_cons_self, List.splitOn_append_cons_self,
    List.splitOn_eq_singleton hscheme, List.splitOn_eq_singleton List.not_mem_nil,
    List.splitOn_eq_singleton (HttpUrl.not_mem_authority (by decide) v)]
  rw [← String.toList_inj]
  simp [List.intercalate_cons_cons]

/-- The url that is asked for next is the one that the location stands for, if this one has a
path. -/
theorem nextUrl_eq {v : HttpUrl} (hv : v.resource.path ≠ []) (loc : Location) :
    nextUrl v.text loc.text = (v.resolve loc).text := by
  cases loc with
  | absolute u => exact nextUrl_absolute v u
  | rooted r hr _ => exact nextUrl_rooted hv hr

/-! ## Downloads -/

/-- Every reply on the way is read, and the last one is read to its body. -/
def Readable (replies : ℕ → Except String (List UInt8)) (body : List UInt8) :
    ℕ → List Location → Prop
  | n, [] => ∃ raw, replies n = .ok raw ∧ BodyRead raw body
  | n, _ :: locs => (∃ raw, replies n = .ok raw ∧ HeadRead raw) ∧ Readable replies body (n + 1) locs

section Runs

variable {formats : Formats} {utf8Error : List UInt8 → String}
  {replies : ℕ → Except String (List UInt8)} {body : List UInt8}

def readReply (utf8Error : List UInt8 → String) :
    Except String (List UInt8) → Except String BytesResult
  | .error e => .error e
  | .ok raw => readBytes utf8Error raw

theorem keepActions_getBytesOnce {url : String} {target : Target}
    (htarget : parseBase formats url "" = .ok target) (n : ℕ) :
    (getBytesOnce formats utf8Error replies url).keepActions HttpStep.exchanged n =
      ([(target, buildGetRequest target.host target.fullPath)],
        some (readReply utf8Error (replies n), n + 1)) := by
  unfold getBytesOnce
  rw [htarget]
  dsimp only
  rw [Eff.keepActions_bind, Eff.bind_eq, keepActions_exchange]
  cases replies n <;> rfl

/-- The url cannot be read, so nothing is asked for. -/
theorem getHops_of_unparsed {url e : String} (h : parseBase formats url "" = .error e)
    (more n : ℕ) :
    (getHops formats utf8Error replies (more + 1) url).keepActions HttpStep.exchanged n =
      ([], some (.error e, n)) := by
  unfold getHops getBytesOnce
  rw [h]
  rfl

/-- One turn of the loop. -/
theorem getHops_of_parsed {url : String} {target : Target}
    (htarget : parseBase formats url "" = .ok target) (more n : ℕ) :
    (getHops formats utf8Error replies (more + 1) url).keepActions HttpStep.exchanged n =
      let request := (target, buildGetRequest target.host target.fullPath)
      match readReply utf8Error (replies n) with
      | .error e => ([request], some (.error e, n + 1))
      | .ok (.body bytes) => ([request], some (.ok bytes, n + 1))
      | .ok (.redirect loc) =>
        let run := (getHops formats utf8Error replies more (nextUrl url loc)).keepActions
          HttpStep.exchanged (n + 1)
        (request :: run.1, run.2) := by
  rw [getHops, Eff.keepActions_bind, Eff.bind_eq, keepActions_getBytesOnce htarget]
  rcases readReply utf8Error (replies n) with e | bytes | loc <;> rfl

variable (formats utf8Error replies) in
theorem getHops_length_le (more : ℕ) (url : String) (n : ℕ) :
    ((getHops formats utf8Error replies more url).keepActions
      HttpStep.exchanged n).1.length ≤ more := by
  induction more generalizing url n with
  | zero => exact le_refl 0
  | succ more ih =>
    cases htarget : parseBase formats url "" with
    | error e =>
      rw [getHops_of_unparsed htarget]
      exact Nat.zero_le _
    | ok target =>
      rw [getHops_of_parsed htarget]
      rcases readReply utf8Error (replies n) with e | bytes | loc
      · exact Nat.succ_le_succ (Nat.zero_le _)
      · exact Nat.succ_le_succ (Nat.zero_le _)
      · exact Nat.succ_le_succ (ih _ _)

variable (utf8Error) in
theorem readReply_of_redirects {reply : Except String (List UInt8)} {loc : Location}
    (h : Redirects reply loc) :
    ((∃ raw, reply = .ok raw ∧ HeadRead raw) ∧
        readReply utf8Error reply = .ok (.redirect loc.text)) ∨
      ((¬∃ raw, reply = .ok raw ∧ HeadRead raw) ∧
        ∃ e, readReply utf8Error reply = .error e) := by
  obtain ⟨raw, -, -, -, rfl, -⟩ := id h
  by_cases hread : HeadRead raw
  · left
    exact ⟨⟨raw, rfl, hread⟩, readBytes_of_redirects h hread⟩
  · right
    refine ⟨?_, readBytes_of_not_headRead utf8Error hread⟩
    rintro ⟨raw', hraw', hread'⟩
    exact hread ((Except.ok.inj hraw') ▸ hread')

variable (formats utf8Error) in
/-- With no more requests than redirects no body is returned. -/
theorem getHops_error {more n : ℕ} {locs : List Location}
    (hchain : Chain replies body n locs) (hmore : more ≤ locs.length) (url : String) :
    ∃ e, ((getHops formats utf8Error replies more url).keepActions
      HttpStep.exchanged n).2.map Prod.fst = some (.error e) := by
  induction more generalizing n locs url with
  | zero => exact ⟨"too many redirects", rfl⟩
  | succ more ih =>
    obtain ⟨loc, locs, rfl⟩ := List.exists_cons_of_length_pos (Nat.zero_lt_of_lt hmore)
    obtain ⟨hredirects, hchain⟩ := hchain
    cases htarget : parseBase formats url "" with
    | error e =>
      rw [getHops_of_unparsed htarget]
      exact ⟨e, rfl⟩
    | ok target =>
      rw [getHops_of_parsed htarget]
      rcases readReply_of_redirects utf8Error hredirects with
        ⟨-, hread⟩ | ⟨-, e, hread⟩
      · rw [hread]
        exact ih hchain (Nat.le_of_succ_le_succ hmore) _
      · rw [hread]
        exact ⟨e, rfl⟩

/-- A url that is not plain is not what is asked for. -/
theorem plain_of_getHops {v : HttpUrl} {more n : ℕ}
    (h : ((getHops formats utf8Error replies (more + 1) v.text).keepActions
      HttpStep.exchanged n).1.head? = some v.request) : v.Plain := by
  rw [← HttpUrl.parseBase_text_iff v formats]
  cases htarget : parseBase formats v.text "" with
  | error e =>
    rw [getHops_of_unparsed htarget] at h
    cases h
  | ok target =>
    have hfirst : (target, buildGetRequest target.host target.fullPath) = v.request := by
      rw [getHops_of_parsed htarget] at h
      dsimp only at h
      rcases hread : readReply utf8Error (replies n) with e | bytes | loc <;>
        rw [hread] at h <;> exact Option.some.inj h
    rw [(Prod.mk.inj hfirst).1]

theorem follows_iff_of_not_plain {v : HttpUrl} (hplain : ¬v.Plain) {more n : ℕ}
    {rest : List HttpUrl} {P Q : Prop} :
    ((((getHops formats utf8Error replies (more + 1) v.text).keepActions
        HttpStep.exchanged n).1 = (v :: rest).map HttpUrl.request ∧ P) ↔
      (∀ u ∈ v :: rest, u.Plain) ∧ Q) := by
  refine iff_of_false ?_ fun h => hplain (h.1 v List.mem_cons_self)
  rintro ⟨hrequests, -⟩
  exact hplain (plain_of_getHops (congrArg List.head? hrequests))

/-- With more requests than redirects the download follows the chain exactly if every url in it is
plain and every reply is readable. -/
theorem getHops_follows_iff {more n : ℕ}
    {locs : List Location} (hchain : Chain replies body n locs) (hmore : locs.length < more)
    (v : HttpUrl) :
    let run := (getHops formats utf8Error replies more v.text).keepActions
      HttpStep.exchanged n
    (run.1 = (v.chain locs).map HttpUrl.request ∧ run.2.map Prod.fst = some (.ok body)) ↔
      (∀ u ∈ v.chain locs, u.Plain) ∧ Readable replies body n locs := by
  induction locs generalizing more n v with
  | nil =>
    obtain ⟨more, rfl⟩ := Nat.exists_eq_succ_of_ne_zero (Nat.ne_zero_of_lt hmore)
    obtain ⟨raw, -, -, hraw, -⟩ := id hchain
    by_cases hplain : v.Plain
    · have hdelivers : Delivers (.ok raw) body := hraw ▸ hchain
      have htarget := (HttpUrl.parseBase_text_iff v formats).mpr hplain
      obtain ⟨hbody, hstay⟩ := readBytes_of_delivers utf8Error hdelivers
      have hreadable : Readable replies body n [] ↔ BodyRead raw body := by
        simp [Readable, hraw]
      dsimp only
      rw [getHops_of_parsed htarget, hreadable, ← hbody, hraw, readReply]
      rcases hread : readBytes utf8Error raw with e | bytes | loc
      · simp
      · simp [HttpUrl.chain, HttpUrl.request, hplain]
      · exact absurd hread (hstay loc)
    · exact follows_iff_of_not_plain hplain
  | cons loc locs ih =>
    obtain ⟨more, rfl⟩ := Nat.exists_eq_succ_of_ne_zero (Nat.ne_zero_of_lt hmore)
    obtain ⟨hredirects, hchain⟩ := hchain
    have hiff := ih hchain (Nat.lt_of_succ_lt_succ hmore) (v.resolve loc)
    by_cases hplain : v.Plain
    · have htarget := (HttpUrl.parseBase_text_iff v formats).mpr hplain
      dsimp only
      rw [getHops_of_parsed htarget, HttpUrl.chain, Readable]
      -- the reply is followed if its head is read as it was written; otherwise the request fails
      rcases readReply_of_redirects utf8Error hredirects with
        ⟨hhead, hread⟩ | ⟨hhead, e, hread⟩
      · rw [hread]
        dsimp only
        rw [nextUrl_eq hplain.path, List.map_cons, List.forall_mem_cons, and_iff_right hplain,
          and_iff_right hhead, List.cons_eq_cons]
        exact (and_congr_left fun _ => and_iff_right rfl).trans hiff
      · rw [hread]
        refine iff_of_false ?_ fun h => hhead h.2.1
        simp
    · exact follows_iff_of_not_plain hplain

end Runs

/-- `http://example.org/a` -/
def exampleUrl : HttpUrl where
  scheme := .http
  schemeText := "http"
  userinfo := none
  host := "example.org".toList
  port := none
  resource := ⟨"/a".toList, none, none, fun _ => rfl, by decide, by simp⟩
  scheme_eq := by decide
  userinfo_clean := by simp
  host_ne := by decide
  host_clean := by simp
  host_colon := by simp
  port_eq := by simp

def exampleLocation : Location := .rooted exampleUrl.resource (by decide) (by decide)

def exampleReplies (n i : ℕ) : Except String (List UInt8) :=
  .ok (asBytes (if i < n then "HTTP/1.0 302 Found\r\nLocation: /a\r\n\r\n." else
    "HTTP/1.0 200 OK\r\n\r\nhi"))

theorem chain_exampleReplies {i n k : ℕ} (h : i + k = n) :
    Chain (exampleReplies n) (asBytes "hi") i (List.replicate k exampleLocation) := by
  induction k generalizing i with
  | zero =>
    have hi : ¬i < n := by omega
    refine ⟨_, asBytes "HTTP/1.0 200 OK", 200, rfl, ?_, ?_, by decide⟩
    · rw [if_neg hi]
      decide
    · rw [fromUtf8Lossy_asBytes]
      decide
  | succ k ih =>
    have hi : i < n := by omega
    refine ⟨⟨_, asBytes "HTTP/1.0 302 Found\r\nLocation: /a", asBytes ".", 302, rfl, ?_, ?_,
      by decide, by decide, ?_⟩, ih (by omega)⟩
    · rw [if_pos hi]
      decide
    · rw [fromUtf8Lossy_asBytes]
      decide
    · rw [fromUtf8Lossy_asBytes]
      decide

end Pan
