import Pan.Requests

namespace Pan

def Scheme.text : Scheme → String
  | .http => "http"
  | .https => "https"

def Scheme.defaultPort : Scheme → ℕ
  | .http => 80
  | .https => 443

/-! ## The base of a provider -/

def HostAndPort (authority : List Char) (t : Target) : Prop :=
  (':' ∉ authority ∧ authority = t.host.toList ∧ t.port = t.scheme.defaultPort) ∨
    ∃ p, authority = t.host.toList ++ ':' :: p ∧ parseU16 p = some t.port

/-- What is asked for with something behind the authority, without the slashes at its end. -/
def behindAuthority (behind : List Char) : List Char :=
  let front := behind.tail.rdropWhile fun c => c = '/'
  if front = [] then [] else '/' :: front

theorem behindAuthority_eq_cons {behind front : List Char}
    (h : behindAuthority behind = '/' :: front) :
    front ≠ [] ∧ front.getLast? ≠ some '/' ∧
      ∃ slashes, behind.tail = front ++ slashes ∧ ∀ c ∈ slashes, c = '/' := by
  unfold behindAuthority at h
  dsimp only at h
  split_ifs at h with hempty
  obtain rfl := (List.cons.inj h).2
  refine ⟨hempty, ?_, behind.tail.rtakeWhile fun c => c = '/',
    List.rdropWhile_append_rtakeWhile.symm, ?_⟩
  · have hnot := List.rdropWhile_last_not (fun c => decide (c = '/')) _ hempty
    rw [List.getLast?_eq_getLast_of_ne_nil hempty, ne_eq, Option.some_inj]
    simpa only [decide_eq_true_eq] using hnot
  · intro c hc
    simpa using List.mem_rtakeWhile_imp hc

def parseRest (formats : Formats) (scheme : Scheme) (rest path : String) :
    Except String Target := do
  let (authority, front) := match Text.splitOnce '/' rest.toList with
    | some (a, p) => (a, p.rdropWhile fun c => c = '/')
    | none => (rest.toList, [])
  let (host, port) ← match Text.rsplitOnce ':' authority with
    | some (h, p) =>
      match parseU16 p with
      | some port => .ok (h, port)
      | none => .error s!"bad port {formats.debugStr (String.ofList p)}"
    | none => .ok (authority, scheme.defaultPort)
  if host.isEmpty then .error "empty host"
  else .ok ⟨scheme, String.ofList host, port,
    if front.isEmpty then path else s!"/{String.ofList front}{path}"⟩

theorem parseBase_of_scheme (formats : Formats) (scheme : Scheme) (rest path : String) :
    parseBase formats (scheme.text ++ "://" ++ rest) path =
      parseRest formats scheme rest path := by
  unfold parseBase parseRest
  cases scheme with
  | http =>
    have hhttp : Scheme.http.text ++ "://" = "http://" := by decide
    rw [hhttp, stripPrefix_https_http, Text.stripPrefix_append]
    rfl
  | https =>
    have hhttps : Scheme.https.text ++ "://" = "https://" := by decide
    rw [hhttps, Text.stripPrefix_append]
    rfl

theorem exists_scheme_of_parseBase {formats : Formats} {base path : String} {t : Target}
    (h : parseBase formats base path = .ok t) :
    ∃ (scheme : Scheme) (rest : String), base = scheme.text ++ "://" ++ rest := by
  unfold parseBase at h
  cases hhttps : Text.stripPrefix "https://" base with
  | some rest => exact ⟨.https, rest, Text.stripPrefix_eq_some.mp hhttps⟩
  | none =>
    cases hhttp : Text.stripPrefix "http://" base with
    | some rest => exact ⟨.http, rest, Text.stripPrefix_eq_some.mp hhttp⟩
    | none =>
      rw [hhttps, hhttp] at h
      cases h

theorem HostAndPort.not_mem {authority : List Char} {t : Target} (h : HostAndPort authority t)
    {c : Char} (hhost : c ∉ t.host.toList) (hcolon : c ≠ ':') (hdigit : c.isDigit = false)
    (hplus : c ≠ '+') : c ∉ authority := by
  rcases h with ⟨-, rfl, -⟩ | ⟨p, rfl, hp⟩
  · exact hhost
  · rw [List.mem_append, not_or]
    exact ⟨hhost, List.not_mem_cons_of_ne_of_not_mem hcolon (not_mem_of_parseU16 hp hdigit hplus)⟩

/-- An authority without a colon is a host at the default port. -/
theorem hostAndPort_of_rsplitOnce_none {authority : List Char} {t : Target}
    (h : Text.rsplitOnce ':' authority = none) :
    HostAndPort authority t ↔ authority = t.host.toList ∧ t.scheme.defaultPort = t.port := by
  have hcolon := Text.rsplitOnce_eq_none.mp h
  constructor
  · rintro (⟨-, hhost, hport⟩ | ⟨p, rfl, -⟩)
    · exact ⟨hhost, hport.symm⟩
    · simp at hcolon
  · rintro ⟨hhost, hport⟩
    exact Or.inl ⟨hcolon, hhost, hport.symm⟩

/-- The port of an authority is behind its last colon. -/
theorem hostAndPort_of_rsplitOnce_some {authority host p : List Char} {t : Target}
    (h : Text.rsplitOnce ':' authority = some (host, p)) :
    HostAndPort authority t ↔ host = t.host.toList ∧ parseU16 p = some t.port := by
  obtain ⟨rfl, -⟩ := Text.rsplitOnce_eq_some.mp h
  constructor
  · rintro (⟨hno, -⟩ | ⟨p', hsame, hport⟩)
    · have hcolon : ':' ∈ host ++ ':' :: p := by simp
      exact absurd hcolon hno
    · rw [hsame, rsplitOnce_of_parseU16 hport] at h
      obtain ⟨hhost, rfl⟩ := Prod.mk.inj (Option.some.inj h)
      exact ⟨hhost.symm, hport⟩
  · rintro ⟨rfl, hport⟩
    exact Or.inr ⟨p, rfl, hport⟩

/-- The cut at the first slash. -/
theorem authority_and_front {authority behind : List Char} (hslash : '/' ∉ authority)
    (hbehind : behind ≠ [] → behind.head? = some '/') :
    (match Text.splitOnce '/' (authority ++ behind) with
      | some (a, p) => (a, p.rdropWhile fun c => c = '/')
      | none => (authority ++ behind, [])) =
        (authority, behind.tail.rdropWhile fun c => c = '/') := by
  cases behind with
  | nil =>
    rw [List.append_nil, Text.splitOnce_eq_none.mpr hslash]
    rfl
  | cons c behind =>
    obtain rfl := Option.some_inj.mp (hbehind (List.cons_ne_nil _ _))
    rw [Text.splitOnce_append _ _ hslash]
    rfl

theorem fullPath_eq {behind front : List Char}
    (hfront : front = behind.tail.rdropWhile fun c => c = '/') (path : String) :
    (if front.isEmpty then path else s!"/{String.ofList front}{path}") =
      String.ofList (behindAuthority behind) ++ path := by
  subst hfront
  unfold behindAuthority
  by_cases h : (behind.tail.rdropWhile fun c => c = '/') = []
  · simp [h]
  · rw [if_neg (mt List.isEmpty_iff.mp h)]
    dsimp only
    rw [if_neg h]
    change "/" ++ String.ofList _ ++ path = _
    rw [← String.toList_inj]
    simp

/-- A target is read where its host is not empty. -/
theorem target_eq_ok_iff {scheme : Scheme} {host : List Char} {port : ℕ} {fullPath : String}
    {t : Target} :
    (if host.isEmpty then Except.error "empty host"
      else .ok ⟨scheme, String.ofList host, port, fullPath⟩) = (.ok t : Except String Target) ↔
      t.scheme = scheme ∧ (host = t.host.toList ∧ port = t.port) ∧ t.host ≠ "" ∧
        t.fullPath = fullPath := by
  by_cases hempty : host = []
  · subst hempty
    refine iff_of_false (by simp) ?_
    rintro ⟨-, ⟨hhost, -⟩, hne, -⟩
    exact hne (String.toList_inj.mp hhost.symm)
  · rw [if_neg (mt List.isEmpty_iff.mp hempty), Except.ok.injEq]
    constructor
    · rintro rfl
      exact ⟨rfl, ⟨String.toList_ofList.symm, rfl⟩, by simpa using hempty, rfl⟩
    · rintro ⟨rfl, ⟨rfl, rfl⟩, -, rfl⟩
      rw [String.ofList_toList]

theorem parseRest_eq_ok_iff {formats : Formats} {scheme : Scheme} {authority behind : List Char}
    {path : String} {t : Target} (hslash : '/' ∉ authority)
    (hbehind : behind ≠ [] → behind.head? = some '/') :
    parseRest formats scheme (String.ofList (authority ++ behind)) path = .ok t ↔
      t.scheme = scheme ∧ HostAndPort authority t ∧ t.host ≠ "" ∧
        t.fullPath = String.ofList (behindAuthority behind) ++ path := by
  unfold parseRest
  rw [String.toList_ofList, authority_and_front hslash hbehind]
  dsimp only
  rw [fullPath_eq rfl]
  cases hsplit : Text.rsplitOnce ':' authority with
  | none =>
    simp only [bind, Except.bind]
    rw [target_eq_ok_iff, hostAndPort_of_rsplitOnce_none hsplit]
    refine and_congr_right fun hscheme => ?_
    rw [hscheme]
  | some parts =>
    rw [hostAndPort_of_rsplitOnce_some hsplit]
    cases hport : parseU16 parts.2 with
    | none => simp [bind, Except.bind, hport]
    | some port =>
      simp only [bind, Except.bind, hport]
      rw [target_eq_ok_iff, Option.some_inj]

theorem parseBase_eq_ok_iff {formats : Formats} {base path : String} {t : Target} :
    parseBase formats base path = .ok t ↔
      ∃ authority behind, base = t.scheme.text ++ "://" ++ String.ofList (authority ++ behind) ∧
        '/' ∉ authority ∧ (behind ≠ [] → behind.head? = some '/') ∧ HostAndPort authority t ∧
        t.host ≠ "" ∧ t.fullPath = String.ofList (behindAuthority behind) ++ path := by
  constructor
  · intro h
    obtain ⟨scheme, rest, rfl⟩ := exists_scheme_of_parseBase h
    rw [parseBase_of_scheme] at h
    have hcut : ∃ authority behind, rest = String.ofList (authority ++ behind) ∧
        '/' ∉ authority ∧ (behind ≠ [] → behind.head? = some '/') := by
      cases hsplit : Text.splitOnce '/' rest.toList with
      | none =>
        exact ⟨rest.toList, [], by simp, Text.splitOnce_eq_none.mp hsplit, fun h => absurd rfl h⟩
      | some parts =>
        obtain ⟨hrest, hmem⟩ := Text.splitOnce_eq_some.mp hsplit
        refine ⟨parts.1, '/' :: parts.2, ?_, hmem, fun _ => rfl⟩
        rw [← hrest, String.ofList_toList]
    obtain ⟨authority, behind, rfl, hslash, hbehind⟩ := hcut
    obtain ⟨rfl, hread⟩ := (parseRest_eq_ok_iff hslash hbehind).mp h
    exact ⟨authority, behind, rfl, hslash, hbehind, hread⟩
  · rintro ⟨authority, behind, rfl, hslash, hbehind, hread⟩
    rw [parseBase_of_scheme, parseRest_eq_ok_iff hslash hbehind]
    exact ⟨rfl, hread⟩

/-! ## The parts of a url -/

structure Resource where
  path : List Char
  query : Option (List Char)
  fragment : Option (List Char)
  path_start : path ≠ [] → path.head? = some '/'
  path_clean : '?' ∉ path ∧ '#' ∉ path
  query_clean : ∀ q ∈ query, '#' ∉ q

namespace Resource

def asked (r : Resource) : List Char := r.path ++ r.query.elim [] fun q => '?' :: q

def text (r : Resource) : List Char := r.asked ++ r.fragment.elim [] fun f => '#' :: f

theorem exists_asked_eq {r : Resource} (h : r.path ≠ []) : ∃ b, r.asked = '/' :: b := by
  obtain ⟨c, path, hpath⟩ := List.exists_cons_of_ne_nil h
  have hstart := r.path_start h
  rw [hpath, List.head?_cons, Option.some_inj] at hstart
  unfold asked
  rw [hpath, hstart, List.cons_append]
  exact ⟨_, rfl⟩

/-- What is asked for behind an authority is what the resource asks for, unless it has a fragment
or a slash at its end. -/
theorem behindAuthority_text_iff {r : Resource} (h : r.path ≠ []) :
    behindAuthority r.text = r.asked ↔
      r.fragment = none ∧ r.asked.getLast? ≠ some '/' := by
  obtain ⟨b, hb⟩ := exists_asked_eq h
  have htail : r.text.tail = b ++ r.fragment.elim [] fun f => '#' :: f := by
    rw [text, hb]
    rfl
  constructor
  · intro hfront
    obtain ⟨hne, hlast, slashes, hslashes, hall⟩ := behindAuthority_eq_cons (hfront.trans hb)
    constructor
    · by_contra hsome
      obtain ⟨f, hf⟩ := Option.ne_none_iff_exists'.mp hsome
      -- the fragment was taken for slashes
      rw [htail, List.append_cancel_left_eq, hf] at hslashes
      have hhash := hall '#' (hslashes ▸ List.mem_cons_self)
      revert hhash
      decide
    · rwa [hb, List.getLast?_cons_of_ne_nil hne]
  · rintro ⟨hfragment, hslash⟩
    have hne : b ≠ [] := by
      rintro rfl
      rw [hb] at hslash
      exact hslash rfl
    have hself : b.rdropWhile (fun c => decide (c = '/')) = b := by
      rw [List.rdropWhile_eq_self_iff]
      intro hne' hlast
      rw [hb, List.getLast?_cons_of_ne_nil hne, List.getLast?_eq_getLast_of_ne_nil hne,
        decide_eq_true_eq.mp hlast] at hslash
      exact hslash rfl
    unfold behindAuthority
    rw [htail, hfragment, Option.elim_none, List.append_nil, hself, hb]
    exact if_neg hne

end Resource

/-- An absolute http(s) url in its parts. A host with colons is an address in brackets. -/
structure HttpUrl where
  scheme : Scheme
  schemeText : String
  userinfo : Option (List Char)
  host : List Char
  port : Option (List Char)
  resource : Resource
  scheme_eq : asciiLowercase schemeText = scheme.text
  userinfo_clean : ∀ u ∈ userinfo, ∀ c ∈ u, c ∉ ['/', '?', '#', '@']
  host_ne : host ≠ []
  host_clean : ∀ c ∈ host, c ∉ ['/', '?', '#', '@']
  host_colon : ':' ∈ host → host.head? = some '[' ∧ host.getLast? = some ']'
  port_eq : ∀ p ∈ port, p = [] ∨ (p.all Char.isDigit = true ∧ (parseU16 p).isSome)

namespace HttpUrl

def authority (v : HttpUrl) : List Char :=
  (v.userinfo.elim [] fun u => u ++ ['@']) ++ v.host ++ v.port.elim [] fun p => ':' :: p

def text (v : HttpUrl) : String :=
  v.schemeText ++ "://" ++ String.ofList (v.authority ++ v.resource.text)

/-- Where a client connects to for the url, and the path that it asks for there. -/
def target (v : HttpUrl) : Target where
  scheme := v.scheme
  host := String.ofList v.host
  port := (v.port.bind parseU16).getD v.scheme.defaultPort
  fullPath := String.ofList ((if v.resource.path = [] then ['/'] else []) ++ v.resource.asked)

/-- A url that is no more than a host, perhaps a port, and a path with no slash at its end. -/
structure Plain (v : HttpUrl) : Prop where
  scheme : v.schemeText = v.scheme.text
  userinfo : v.userinfo = none
  host : v.port = none → ':' ∉ v.host
  port : v.port ≠ some []
  path : v.resource.path ≠ []
  slash : v.resource.asked.getLast? ≠ some '/'
  fragment : v.resource.fragment = none

variable {v : HttpUrl} {formats : Formats}

theorem not_mem_authority {c : Char} (hc : c ∈ ['/', '?', '#']) (v : HttpUrl) :
    c ∉ v.authority := by
  have hclean : c ∈ ['/', '?', '#', '@'] := List.mem_append_left ['@'] hc
  unfold authority
  rw [List.mem_append, List.mem_append, not_or, not_or]
  refine ⟨⟨?_, fun h => v.host_clean c h hclean⟩, ?_⟩
  · cases huser : v.userinfo with
    | none => exact List.not_mem_nil
    | some u =>
      rw [Option.elim_some, List.mem_append, List.mem_singleton, not_or]
      refine ⟨fun h => v.userinfo_clean u huser c h hclean, ?_⟩
      rintro rfl
      revert hc
      decide
  · cases hport : v.port with
    | none => exact List.not_mem_nil
    | some p =>
      have hcolon : c ≠ ':' := by
        rintro rfl
        revert hc
        decide
      refine List.not_mem_cons_of_ne_of_not_mem hcolon fun h => ?_
      rcases v.port_eq p hport with rfl | ⟨hdigits, -⟩
      · cases h
      · have hdigit := List.all_eq_true.mp hdigits c h
        have hnone : ∀ d ∈ ['/', '?', '#'], d.isDigit = false := by simp
        rw [hnone c hc] at hdigit
        cases hdigit

theorem not_mem_schemeText {c : Char} (hc : c ∈ [':', '/']) (v : HttpUrl) :
    c ∉ v.schemeText.toList := by
  have hlower : ∀ d ∈ [':', '/'], d.toLower = d ∧ ∀ scheme : Scheme, d ∉ scheme.text.toList := by
    intro d hd
    refine ⟨?_, fun scheme => ?_⟩
    · revert d
      simp
    · cases scheme <;> revert d <;> simp [Scheme.text]
  intro h
  refine (hlower c hc).2 v.scheme ?_
  rw [← v.scheme_eq, asciiLowercase, String.toList_ofList]
  exact List.mem_map.mpr ⟨c, h, (hlower c hc).1⟩

/-- A text has one scheme. -/
theorem text_eq_iff {scheme : Scheme} {rest : List Char} :
    v.text = scheme.text ++ "://" ++ String.ofList rest ↔
      v.schemeText = scheme.text ∧ v.authority ++ v.resource.text = rest := by
  constructor
  · intro h
    have hscheme : ':' ∉ scheme.text.toList := by cases scheme <;> decide
    have hlist : v.schemeText.toList ++ ':' :: ('/' :: '/' :: (v.authority ++ v.resource.text)) =
        scheme.text.toList ++ ':' :: ('/' :: '/' :: rest) := by
      simpa [text] using congrArg String.toList h
    have hcut := Text.splitOnce_append ':' ('/' :: '/' :: (v.authority ++ v.resource.text))
      (not_mem_schemeText (by decide) v)
    rw [hlist, Text.splitOnce_append _ _ hscheme] at hcut
    obtain ⟨hsame, hrest⟩ := Prod.mk.inj (Option.some.inj hcut)
    exact ⟨String.toList_inj.mp hsame.symm, by simpa using hrest.symm⟩
  · rintro ⟨hscheme, rfl⟩
    rw [text, hscheme]

theorem Plain.hostAndPort (h : v.Plain) : HostAndPort v.authority v.target := by
  have hhost : v.target.host.toList = v.host := String.toList_ofList
  unfold HostAndPort
  rw [authority, h.userinfo, hhost]
  cases hport : v.port with
  | none =>
    left
    simpa [target, hport] using h.host hport
  | some p =>
    right
    refine ⟨p, rfl, ?_⟩
    rcases v.port_eq p hport with rfl | ⟨-, hp⟩
    · exact absurd hport h.port
    · obtain ⟨port, hvalue⟩ := Option.isSome_iff_exists.mp hp
      simp [target, hport, hvalue]

/-- Behind a host and a port there is no more than that. -/
theorem plain_of_hostAndPort (h : HostAndPort v.authority v.target) :
    v.userinfo = none ∧ (v.port = none → ':' ∉ v.host) ∧ v.port ≠ some [] := by
  have hhost : v.target.host.toList = v.host := String.toList_ofList
  have huser : v.userinfo = none := by
    by_contra hsome
    obtain ⟨u, hu⟩ := Option.ne_none_iff_exists'.mp hsome
    have hat : '@' ∈ v.authority := by simp [authority, hu]
    refine h.not_mem (c := '@') ?_ (by decide) (by decide) (by decide) hat
    rw [hhost]
    exact fun hmem => v.host_clean '@' hmem (by decide)
  unfold HostAndPort at h
  rw [authority, huser, hhost] at h
  refine ⟨huser, ?_, ?_⟩
  · intro hport
    rw [hport] at h
    rcases h with ⟨hcolon, -⟩ | ⟨p, hp, -⟩
    · simpa using hcolon
    · simp at hp
  · intro hport
    rw [hport] at h
    rcases h with ⟨hcolon, -⟩ | ⟨p, hp, hvalue⟩
    · simp at hcolon
    · obtain rfl : [] = p := by simpa using hp
      revert hvalue
      simp [parseU16]

/-- Something is asked for only where the url has a path. -/
theorem path_ne_nil_of_behindAuthority {authority behind : List Char}
    (hauthority : HostAndPort authority v.target) (hbehind : behind ≠ [] → behind.head? = some '/')
    (htext : v.authority ++ v.resource.text = authority ++ behind)
    (hfull : v.target.fullPath.toList = behindAuthority behind) :
    v.resource.path ≠ [] := by
  intro hpath
  have hquestion : '?' ∉ authority ++ ['/'] := by
    rw [List.mem_append, not_or]
    refine ⟨hauthority.not_mem ?_ (by decide) (by decide) (by decide), by decide⟩
    rw [target, String.toList_ofList]
    exact fun hmem => v.host_clean '?' hmem (by decide)
  rw [target, String.toList_ofList, if_pos hpath] at hfull
  obtain ⟨hne, -, slashes, hslashes, -⟩ := behindAuthority_eq_cons hfull.symm
  obtain ⟨q, hq⟩ : ∃ q, v.resource.query = some q := by
    rw [← Option.ne_none_iff_exists']
    intro hquery
    simp [Resource.asked, hpath, hquery] at hne
  have hasked : v.resource.asked = '?' :: q := by
    rw [Resource.asked, hpath, hq]
    rfl
  have hcons : behind = '/' :: behind.tail := by
    cases behind with
    | nil => simp [hasked] at hslashes
    | cons c behind => rw [Option.some_inj.mp (hbehind (List.cons_ne_nil _ _)), List.tail_cons]
  -- the client reads one slash more before the query
  have hsame : v.authority ++ '?' :: (q ++ v.resource.fragment.elim [] fun f => '#' :: f) =
      (authority ++ ['/']) ++ '?' :: (q ++ slashes) := by
    rw [hcons, hslashes, hasked, Resource.text, hasked] at htext
    simpa using htext
  have hcut := Text.splitOnce_append '?' (q ++ v.resource.fragment.elim [] fun f => '#' :: f)
    (not_mem_authority (by decide) v)
  rw [hsame, Text.splitOnce_append _ _ hquestion] at hcut
  have hauthority' := (Prod.mk.inj (Option.some.inj hcut)).1
  refine not_mem_authority (c := '/') (by decide) v ?_
  rw [← hauthority']
  simp

variable (formats v) in
/-- The client reads a url as it is meant exactly if it is plain. -/
theorem parseBase_text_iff : parseBase formats v.text "" = .ok v.target ↔ v.Plain := by
  rw [parseBase_eq_ok_iff]
  constructor
  · rintro ⟨authority, behind, htext, hslash, hbehind, hauthority, -, hfull⟩
    obtain ⟨hscheme, htext⟩ := text_eq_iff.mp htext
    have hfull' : v.target.fullPath.toList = behindAuthority behind := by
      rw [hfull, String.append_empty, String.toList_ofList]
    have hpath := path_ne_nil_of_behindAuthority hauthority hbehind htext hfull'
    obtain ⟨b, hb⟩ := Resource.exists_asked_eq hpath
    rw [target, String.toList_ofList, if_neg hpath, List.nil_append, hb] at hfull'
    have hcons : behind = '/' :: behind.tail := by
      cases behind with
      | nil => cases hfull'
      | cons c behind => rw [Option.some_inj.mp (hbehind (List.cons_ne_nil _ _)), List.tail_cons]
    -- both begin with the first slash
    have hcut := Text.splitOnce_append '/' (b ++ v.resource.fragment.elim [] fun f => '#' :: f)
      (not_mem_authority (by decide) v)
    have hsame : v.authority ++ '/' :: (b ++ v.resource.fragment.elim [] fun f => '#' :: f) =
        authority ++ '/' :: behind.tail := by
      rw [← hcons, ← htext, Resource.text, hb, List.cons_append]
    rw [hsame, Text.splitOnce_append _ _ hslash] at hcut
    obtain ⟨rfl, -⟩ := Prod.mk.inj (Option.some.inj hcut)
    have hbehind' : behindAuthority v.resource.text = v.resource.asked := by
      rw [List.append_cancel_left htext, ← hfull', hb]
    obtain ⟨hfragment, hlast⟩ := (Resource.behindAuthority_text_iff hpath).mp hbehind'
    obtain ⟨huser, hhost, hport⟩ := plain_of_hostAndPort hauthority
    exact ⟨hscheme, huser, hhost, hport, hpath, hlast, hfragment⟩
  · intro h
    have hfull := (Resource.behindAuthority_text_iff h.path).mpr ⟨h.fragment, h.slash⟩
    refine ⟨v.authority, v.resource.text, text_eq_iff.mpr ⟨h.scheme, rfl⟩,
      not_mem_authority (by decide) v, ?_, h.hostAndPort, ?_, ?_⟩
    · obtain ⟨b, hb⟩ := Resource.exists_asked_eq h.path
      intro _
      rw [Resource.text, hb]
      rfl
    · simpa [target] using v.host_ne
    · rw [hfull, String.append_empty, target, if_neg h.path]
      rfl

theorem schemeText_ne_empty (v : HttpUrl) : v.schemeText ≠ "" := by
  intro h
  have hscheme := v.scheme_eq
  rw [h] at hscheme
  revert hscheme
  cases v.scheme <;> decide

end HttpUrl

/-! ## Locations -/

/-- Where a redirect leads: to another url, or to a resource of the same server. A path from two
slashes on would name another server. -/
inductive Location where
  | absolute (url : HttpUrl)
  | rooted (resource : Resource) (path_ne : resource.path ≠ [])
      (same_server : resource.path[1]? ≠ some '/')

def Location.text : Location → String
  | .absolute url => url.text
  | .rooted resource _ _ => String.ofList resource.text

namespace HttpUrl

/-- The url that a location stands for where it is found at the url `v`. -/
def resolve (v : HttpUrl) : Location → HttpUrl
  | .absolute url => url
  | .rooted resource _ _ => { v with resource := resource }

def chain (v : HttpUrl) : List Location → List HttpUrl
  | [] => [v]
  | loc :: locs => v :: (v.resolve loc).chain locs

theorem length_chain (v : HttpUrl) (locs : List Location) :
    (v.chain locs).length = locs.length + 1 := by
  induction locs generalizing v with
  | nil => rfl
  | cons loc locs ih => rw [chain, List.length_cons, ih, List.length_cons]

end HttpUrl

end Pan
