import Pan.Governors

namespace Pan

/-! ## The executor's reading of a url -/

structure ParsedUrl where
  host : String
  port : ℕ
  path : String
deriving DecidableEq

/-- `parse::<u16>`: digits, with or without a plus before them. -/
def parseU16 (s : List Char) : Option ℕ :=
  let digits : List Char := match s with
    | '+' :: rest => rest
    | _ => s
  let n : ℕ := digits.foldl (fun n c => 10 * n + (c.toNat - '0'.toNat)) 0
  if digits ≠ [] ∧ digits.all Char.isDigit ∧ n < 2 ^ 16 then some n else none

/-- The text up to the first `/`, and the path from there on. -/
def splitAuthority (rest : String) : List Char × String :=
  match Text.splitOnce '/' rest.toList with
  | some (authority, path) => (authority, "/" ++ String.ofList path)
  | none => (rest.toList, "/")

def splitPort (formats : Formats) (authority : List Char) : Except ExecError (List Char × ℕ) :=
  match Text.rsplitOnce ':' authority with
  | some (host, p) =>
    match parseU16 p with
    | some port => .ok (host, port)
    | none => .error ⟨s!"bad port {formats.debugStr (String.ofList p)}"⟩
  | none => .ok (authority, 80)

def parseUrl (formats : Formats) (url : String) : Except ExecError ParsedUrl :=
  match Text.stripPrefix "http://" url with
  | none =>
    .error ⟨s!"unsupported URL scheme (only http:// is supported): {formats.debugStr url}"⟩
  | some rest => do
    let (host, port) ← splitPort formats (splitAuthority rest).1
    if host.isEmpty then .error ⟨"empty host in URL"⟩
    else .ok ⟨String.ofList host, port, (splitAuthority rest).2⟩

theorem not_mem_of_parseU16 {s : List Char} {n : ℕ} (h : parseU16 s = some n) {c : Char}
    (hdigit : c.isDigit = false) (hplus : c ≠ '+') : c ∉ s := by
  unfold parseU16 at h
  intro hc
  have hmem : ∀ l : List Char, c ∈ l → l.all Char.isDigit = false := by
    intro l hl
    rw [List.all_eq_false]
    exact ⟨c, hl, by simp [hdigit]⟩
  split at h
  · have := hmem _ (List.mem_of_ne_of_mem hplus hc)
    simp [this] at h
  · simp [hmem _ hc] at h

/-- A port has no colon, so the last colon stands before it. -/
theorem rsplitOnce_of_parseU16 {p : List Char} {port : ℕ} (h : parseU16 p = some port)
    (host : List Char) : Text.rsplitOnce ':' (host ++ ':' :: p) = some (host, p) :=
  Text.rsplitOnce_eq_some.mpr ⟨rfl, not_mem_of_parseU16 h (by decide) (by decide)⟩

theorem splitPort_eq_ok {formats : Formats} {authority host : List Char} {port : ℕ} :
    splitPort formats authority = .ok (host, port) ↔
      (':' ∉ authority ∧ host = authority ∧ port = 80) ∨
        ∃ p, authority = host ++ ':' :: p ∧ parseU16 p = some port := by
  unfold splitPort
  cases hsplit : Text.rsplitOnce ':' authority with
  | none =>
    have hcolon : ':' ∉ authority := Text.rsplitOnce_eq_none.mp hsplit
    constructor
    · intro h
      obtain ⟨rfl, rfl⟩ := Prod.mk.inj (Except.ok.inj h)
      exact Or.inl ⟨hcolon, rfl, rfl⟩
    · rintro (⟨-, rfl, rfl⟩ | ⟨p, rfl, -⟩)
      · rfl
      · simp at hcolon
  | some parts =>
    obtain ⟨h', p'⟩ := parts
    obtain ⟨hauthority, hp'⟩ := Text.rsplitOnce_eq_some.mp hsplit
    constructor
    · intro h
      -- what is behind the last colon has to be a port
      cases hport : parseU16 p' with
      | none => simp [hport] at h
      | some port' =>
        simp only [hport] at h
        obtain ⟨rfl, rfl⟩ := Prod.mk.inj (Except.ok.inj h)
        exact Or.inr ⟨p', hauthority, hport⟩
    · rintro (⟨hcolon, -⟩ | ⟨p, hp, hport⟩)
      · simp [hauthority] at hcolon
      · rw [hp, rsplitOnce_of_parseU16 hport] at hsplit
        obtain ⟨rfl, rfl⟩ := Prod.mk.inj (Option.some.inj hsplit)
        simp [hport]

theorem parseUrl_eq_ok {formats : Formats} {url : String} {u : ParsedUrl}
    (h : parseUrl formats url = .ok u) :
    ∃ rest, url = "http://" ++ rest ∧ u.host ≠ "" ∧
      splitPort formats (splitAuthority rest).1 = .ok (u.host.toList, u.port) := by
  unfold parseUrl at h
  cases hscheme : Text.stripPrefix "http://" url with
  | none => simp [hscheme] at h
  | some rest =>
    simp only [hscheme] at h
    refine ⟨rest, Text.stripPrefix_eq_some.mp hscheme, ?_⟩
    cases hport : splitPort formats (splitAuthority rest).1 with
    | error e => simp [hport, bind, Except.bind] at h
    | ok hostPort =>
      simp only [hport, bind, Except.bind] at h
      split_ifs at h with hempty
      cases h
      refine ⟨?_, by simp⟩
      rw [ne_eq, ← String.toList_inj]
      simpa using hempty

/-- Any host that is not empty is contacted for some url. -/
theorem parseUrl_of_splitPort {formats : Formats} {rest : String} {host : List Char} {port : ℕ}
    (hport : splitPort formats (splitAuthority rest).1 = .ok (host, port)) (hhost : host ≠ []) :
    parseUrl formats ("http://" ++ rest) =
      .ok ⟨String.ofList host, port, (splitAuthority rest).2⟩ := by
  unfold parseUrl
  simp [Text.stripPrefix_append, hport, bind, Except.bind, hhost]

theorem splitAuthority_of_not_mem {rest : String} (h : '/' ∉ rest.toList) :
    splitAuthority rest = (rest.toList, "/") := by
  unfold splitAuthority
  rw [Text.splitOnce_eq_none.mpr h]

theorem slash_not_mem_splitAuthority (rest : String) : '/' ∉ (splitAuthority rest).1 := by
  unfold splitAuthority
  cases h : Text.splitOnce '/' rest.toList with
  | none => exact Text.splitOnce_eq_none.mp h
  | some parts => exact (Text.splitOnce_eq_some.mp h).2

/-! ## The governor's reading of a url -/

theorem stripPrefix_https_http (rest : String) :
    Text.stripPrefix "https://" ("http://" ++ rest) = none := by
  rw [Option.eq_none_iff_forall_ne_some]
  intro r hr
  have := congrArg String.toList (Text.stripPrefix_eq_some.mp hr)
  simp at this

namespace HostAllowlistGovernor

/-- The governor takes all of the authority for the host. -/
theorem extractHost_http (rest : String) :
    extractHost ("http://" ++ rest) = String.ofList (splitAuthority rest).1 := by
  unfold extractHost splitAuthority
  rw [stripPrefix_https_http, Text.stripPrefix_append]
  cases h : Text.splitOnce '/' rest.toList <;> simp [h]

def patternsOf (allowHosts : HostGrants) (origin : String) : List String :=
  (SortedMap.get origin allowHosts).getD []

def Granted (allowHosts : HostGrants) (origin host : String) : Prop :=
  ∃ pattern ∈ patternsOf allowHosts origin, hostMatches pattern host = true

theorem onList_iff {allowHosts : HostGrants} {origin host : String} :
    onList allowHosts origin host = true ↔ Granted allowHosts origin host := by
  unfold onList Granted patternsOf
  cases SortedMap.get origin allowHosts <;> simp

theorem not_granted_nil {origin host : String} : ¬Granted [] origin host := by
  rintro ⟨pattern, hpattern, -⟩
  cases hpattern

def urlArg (args : Value) : Option String := (args.get "url").bind Value.asStr

def argsFor (url : String) : Value := .object [("url", .string url)]

theorem urlArg_argsFor (url : String) : urlArg (argsFor url) = some url := by
  simp [urlArg, argsFor, Value.asStr]

theorem host_of_urlArg {args : Value} {url : String} (h : urlArg args = some url) :
    host args = extractHost url := by
  unfold urlArg at h
  unfold host
  rw [h, Option.getD_some]

/-- A `cap.http.*` capability. -/
def IsHttp (capability : String) : Prop := "cap.http.".toList <+: capability.toList

theorem isHttp_get : IsHttp "cap.http.get" := ⟨"get".toList, by decide⟩

variable {W : Type} {inner : Governor W} {allowHosts : HostGrants} {scope : Scope}
  {capability : String} {args : Value} {w : W}

/-- What the governor asks for beyond the one within. -/
theorem allows_iff :
    (HostAllowlistGovernor inner allowHosts).Allows scope capability args w ↔
      inner.Allows scope capability args w ∧
        (IsHttp capability → allowHosts = [] ∨ Granted allowHosts scope.origin (host args)) := by
  unfold Governor.Allows HostAllowlistGovernor
  dsimp only
  rcases hinner : inner.govern scope capability args w with _ | ⟨_ | _ | _, w'⟩
  · simp
  · by_cases hhttp : IsHttp capability
    · have hstarts : "cap.http.".toList.isPrefixOf capability.toList = true :=
        List.isPrefixOf_iff_prefix.mpr hhttp
      simp only [hstarts, true_and]
      by_cases hempty : allowHosts = []
      · simp [hempty]
      · by_cases hlist : onList allowHosts scope.origin (host args) = true
        · simp [hempty, hlist, onList_iff.mp hlist]
        · simp [hhttp, hempty, hlist, mt onList_iff.mpr hlist]
    · have hstarts : ¬"cap.http.".toList.isPrefixOf capability.toList = true :=
        mt List.isPrefixOf_iff_prefix.mp hhttp
      simp only [hstarts]
      simp [hhttp]
  · simp
  · simp

/-! ## Soundness -/

/-- A `cap.http.*` call that is allowed comes from an origin with a grant, and the host that the
executor contacts for it is granted. -/
def Sound (formats : Formats) (allowHosts : HostGrants) (origin : String) : Prop :=
  ∀ (W : Type) (inner : Governor W) capability args w, IsHttp capability →
    (HostAllowlistGovernor inner allowHosts).Allows ⟨origin⟩ capability args w →
      patternsOf allowHosts origin ≠ [] ∧
        ∀ url u, urlArg args = some url → parseUrl formats url = .ok u →
          Granted allowHosts origin u.host

/-- A host is granted if it is granted with a port after it. -/
def PortsApart (allowHosts : HostGrants) (origin : String) : Prop :=
  ∀ host p : String, host ≠ "" → '/' ∉ host.toList → (parseU16 p.toList).isSome →
    Granted allowHosts origin (host ++ ":" ++ p) → Granted allowHosts origin host

theorem Sound.portsApart {formats : Formats} {origin : String}
    (h : Sound formats allowHosts origin) : PortsApart allowHosts origin := by
  intro host p hhost hslash hvalid hgranted
  obtain ⟨port, hport⟩ := Option.isSome_iff_exists.mp hvalid
  -- the url that is all authority
  have hmem : '/' ∉ (host ++ ":" ++ p).toList := by
    have hp : '/' ∉ p.toList := not_mem_of_parseU16 hport (by decide) (by decide)
    simpa using ⟨hslash, hp⟩
  have hauthority := splitAuthority_of_not_mem hmem
  have hsplit : splitPort formats (splitAuthority (host ++ ":" ++ p)).1 =
      .ok (host.toList, port) :=
    splitPort_eq_ok.mpr (Or.inr ⟨p.toList, by simp [hauthority], hport⟩)
  have hparse := parseUrl_of_splitPort hsplit (by simpa using hhost)
  have hread : HostAllowlistGovernor.host (argsFor ("http://" ++ (host ++ ":" ++ p))) =
      host ++ ":" ++ p := by
    rw [host_of_urlArg (urlArg_argsFor _), extractHost_http, hauthority, String.ofList_toList]
  have hallows : (HostAllowlistGovernor (AllowAll Unit) allowHosts).Allows ⟨origin⟩
      "cap.http.get" (argsFor ("http://" ++ (host ++ ":" ++ p))) () := by
    rw [allows_iff, hread]
    exact ⟨⟨(), rfl⟩, fun _ => Or.inr hgranted⟩
  simpa using (h Unit (AllowAll Unit) _ _ () isHttp_get hallows).2 _ _ (urlArg_argsFor _) hparse

theorem Sound.ne_nil {formats : Formats} {origin : String}
    (h : Sound formats allowHosts origin) : allowHosts ≠ [] := by
  rintro rfl
  have hallows : (HostAllowlistGovernor (AllowAll Unit) []).Allows ⟨origin⟩ "cap.http.get"
      .null () :=
    allows_iff.mpr ⟨⟨(), rfl⟩, fun _ => Or.inl rfl⟩
  exact (h Unit (AllowAll Unit) _ _ () isHttp_get hallows).1 rfl

/-- What the executor contacts for a url whose authority is granted. -/
theorem PortsApart.granted {formats : Formats} {origin url : String} {u : ParsedUrl}
    (h : PortsApart allowHosts origin) (hparse : parseUrl formats url = .ok u)
    (hgranted : Granted allowHosts origin (extractHost url)) :
    Granted allowHosts origin u.host := by
  obtain ⟨rest, rfl, hhost, hport⟩ := parseUrl_eq_ok hparse
  -- the governor read the whole authority, the executor what stands before the port
  have hslash := slash_not_mem_splitAuthority rest
  rw [extractHost_http] at hgranted
  rcases splitPort_eq_ok.mp hport with ⟨-, hsame, -⟩ | ⟨p, hauthority, hp⟩
  · rwa [← hsame, String.ofList_toList] at hgranted
  · rw [hauthority] at hslash hgranted
    have htext : String.ofList (u.host.toList ++ ':' :: p) =
        u.host ++ ":" ++ String.ofList p := by
      rw [← String.toList_inj]
      simp
    rw [htext] at hgranted
    apply h u.host (String.ofList p) hhost (fun hmem => hslash (by simp [hmem])) _ hgranted
    rw [String.toList_ofList, hp, Option.isSome_some]

/-- Only a pattern with a colon of its own matches a host with a port after it. -/
theorem colon_mem_of_hostMatches {pattern host p : String} (hvalid : (parseU16 p.toList).isSome)
    (h : hostMatches pattern (host ++ ":" ++ p) = true) : ':' ∈ pattern.toList := by
  obtain ⟨port, hport⟩ := Option.isSome_iff_exists.mp hvalid
  have hdot : '.' ∉ p.toList := not_mem_of_parseU16 hport (by decide) (by decide)
  have hcolon : ':' ∈ (host ++ ":" ++ p).toList := by simp
  unfold hostMatches at h
  cases hwild : Text.stripPrefix "*." pattern with
  | none =>
    have hsame : host ++ ":" ++ p = pattern := by simpa [hwild] using h
    rwa [hsame] at hcolon
  | some suffix =>
    have hpattern := Text.stripPrefix_eq_some.mp hwild
    suffices ':' ∈ suffix.toList by simp [hpattern, this]
    have hmatch : host ++ ":" ++ p = suffix ∨
        ("." ++ suffix).toList <:+ (host ++ ":" ++ p).toList := by
      simpa [hwild, List.isSuffixOf_iff_suffix] using h
    rcases hmatch with hsame | hsuffix
    · rwa [hsame] at hcolon
    · -- of the two ends of the text, the one with the dot is the longer
      have htail : ':' :: p.toList <:+ (host ++ ":" ++ p).toList := ⟨host.toList, by simp⟩
      rcases List.suffix_or_suffix_of_suffix hsuffix htail with hshort | hlong
      · have hmem : '.' ∈ ':' :: p.toList := hshort.subset (by simp)
        simp [hdot] at hmem
      · have hmem : ':' ∈ ("." ++ suffix).toList := hlong.subset (by simp)
        simpa using hmem

/-- Patterns without a colon keep hosts and ports apart. -/
theorem portsApart_of_colon_not_mem {origin : String}
    (h : ∀ pattern ∈ patternsOf allowHosts origin, ':' ∉ pattern.toList) :
    PortsApart allowHosts origin := by
  rintro host p - - hvalid ⟨pattern, hpattern, hmatch⟩
  exact absurd (colon_mem_of_hostMatches hvalid hmatch) (h pattern hpattern)

end HostAllowlistGovernor

open HostAllowlistGovernor

/-- Exactly these allowlists are sound: those that are not empty and grant no host only with a
port after it. -/
theorem host_allowlist_sound_iff (formats : Formats) (allowHosts : HostGrants) (origin : String) :
    Sound formats allowHosts origin ↔ allowHosts ≠ [] ∧ PortsApart allowHosts origin := by
  constructor
  · exact fun h => ⟨h.ne_nil, h.portsApart⟩
  · rintro ⟨hne, hports⟩ W inner capability args w hhttp hallows
    have hgranted := ((allows_iff.mp hallows).2 hhttp).resolve_left hne
    constructor
    · obtain ⟨pattern, hpattern, -⟩ := hgranted
      exact List.ne_nil_of_mem hpattern
    · intro url u hurl hparse
      rw [host_of_urlArg hurl] at hgranted
      exact hports.granted hparse hgranted

theorem allowlist_empty_unsound :
    patternsOf [] "persona.clerk" = [] ∧
    (HostAllowlistGovernor (ScopedGovernor Unit [("persona.clerk", ["cap.http"])]) []).govern
      ⟨"persona.clerk"⟩ "cap.http.get" (argsFor "http://evil.org/") () = some (.allow, ()) ∧
    (parseUrl ⟨fun _ => "", id⟩ "http://evil.org/").toOption = some ⟨"evil.org", 80, "/"⟩ := by
  decide

/-! ## Completeness -/

def authority (url : String) : String :=
  ((Text.stripPrefix "http://" url).map fun rest => String.ofList (splitAuthority rest).1).getD ""

theorem authority_http (rest : String) :
    authority ("http://" ++ rest) = String.ofList (splitAuthority rest).1 := by
  unfold authority
  rw [Text.stripPrefix_append, Option.map_some, Option.getD_some]

/-- Allowed by the governor within and for a granted host, a call of the url is allowed. -/
def HostAllowlistGovernor.Complete (formats : Formats) (allowHosts : HostGrants)
    (origin url : String) : Prop :=
  ∀ (W : Type) (inner : Governor W) capability args w u, urlArg args = some url →
    parseUrl formats url = .ok u → Granted allowHosts origin u.host →
      inner.Allows ⟨origin⟩ capability args w →
        (HostAllowlistGovernor inner allowHosts).Allows ⟨origin⟩ capability args w

/-- Without a port the two readings of the host agree. -/
theorem host_eq_authority {formats : Formats} {url : String} {u : ParsedUrl}
    (hparse : parseUrl formats url = .ok u) (hcolon : ':' ∉ (authority url).toList) :
    u.host = authority url := by
  obtain ⟨rest, rfl, -, hport⟩ := parseUrl_eq_ok hparse
  rw [authority_http] at hcolon ⊢
  rcases splitPort_eq_ok.mp hport with ⟨-, hsame, -⟩ | ⟨p, hauthority, -⟩
  · rw [← hsame, String.ofList_toList]
  · simp [hauthority] at hcolon

/-- A call of a granted host is allowed exactly if its url has no port or the host is granted with
the port after it as well. -/
theorem host_allowlist_complete_iff {formats : Formats} {allowHosts : HostGrants}
    {origin url : String} {u : ParsedUrl} (hparse : parseUrl formats url = .ok u) :
    Complete formats allowHosts origin url ↔
      ':' ∉ (authority url).toList ∨ ¬Granted allowHosts origin u.host ∨
        Granted allowHosts origin (authority url) := by
  have hread : extractHost url = authority url := by
    obtain ⟨rest, rfl, -⟩ := parseUrl_eq_ok hparse
    rw [extractHost_http, authority_http]
  constructor
  · intro h
    by_cases hgranted : Granted allowHosts origin u.host
    · have hallows := h Unit (AllowAll Unit) "cap.http.get" (argsFor url) () u
        (urlArg_argsFor url) hparse hgranted ⟨(), rfl⟩
      rcases (allows_iff.mp hallows).2 isHttp_get with rfl | hauthority
      · exact absurd hgranted not_granted_nil
      · rw [host_of_urlArg (urlArg_argsFor url), hread] at hauthority
        exact Or.inr (Or.inr hauthority)
    · exact Or.inr (Or.inl hgranted)
  · intro h W inner capability args w u' hurl hparse' hgranted hinner
    obtain rfl : u = u' := Except.ok.inj (hparse.symm.trans hparse')
    have hauthority : Granted allowHosts origin (authority url) := by
      rcases h with hcolon | hnot | hauthority
      · rwa [← host_eq_authority hparse hcolon]
      · exact absurd hgranted hnot
      · exact hauthority
    rw [allows_iff, host_of_urlArg hurl, hread]
    exact ⟨hinner, fun _ => Or.inr hauthority⟩

theorem host_allowlist_complete_iff_data :
    Complete ⟨fun _ => "", id⟩ [("persona.clerk", ["*.example.com"])] "persona.clerk"
      "http://api.example.com/data" :=
  (host_allowlist_complete_iff (u := ⟨"api.example.com", 80, "/data"⟩) (by rfl)).mpr
    (Or.inl (by decide))

theorem granted_host_denied_on_port :
    (parseUrl ⟨fun _ => "", id⟩ "http://api.example.com:8080/data").toOption =
      some ⟨"api.example.com", 8080, "/data"⟩ ∧
    Granted [("persona.clerk", ["api.example.com"])] "persona.clerk" "api.example.com" ∧
    (AllowAll Unit).Allows ⟨"persona.clerk"⟩ "cap.http.get"
      (argsFor "http://api.example.com:8080/data") () ∧
    (HostAllowlistGovernor (AllowAll Unit) [("persona.clerk", ["api.example.com"])]).govern
      ⟨"persona.clerk"⟩ "cap.http.get" (argsFor "http://api.example.com:8080/data") () =
      some (.deny
        "host `api.example.com:8080` is not in the allowlist for origin `persona.clerk`", ()) := by
  refine ⟨by decide +kernel, onList_iff.mp (by decide +kernel), ⟨(), rfl⟩, by decide⟩

end Pan
