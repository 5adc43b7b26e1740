import Pan.Responses

namespace Pan

inductive Scheme where
  | http
  | https
deriving DecidableEq

structure Target where
  scheme : Scheme
  host : String
  port : ℕ
  fullPath : String
deriving DecidableEq

/-- `http(s)://host[:port][/prefix]` with a path behind it. -/
def parseBase (formats : Formats) (base path : String) : Except String Target := do
  let (scheme, rest, defaultPort) ←
    match Text.stripPrefix "https://" base, Text.stripPrefix "http://" base with
    | some rest, _ => .ok (Scheme.https, rest, 443)
    | none, some rest => .ok (Scheme.http, rest, 80)
    | none, none =>
      .error s!"base {formats.debugStr base} must start with http:// or https://"
  let (authority, front) := match Text.splitOnce '/' rest.toList with
    | some (a, p) => (a, p.rdropWhile fun c => c = '/')
    | none => (rest.toList, [])
  -- the last colon counts, whatever the host is
  let (host, port) ← match Text.rsplitOnce ':' authority with
    | some (h, p) =>
      match parseU16 p with
      | some port => .ok (h, port)
      | none => .error s!"bad port {formats.debugStr (String.ofList p)}"
    | none => .ok (authority, defaultPort)
  if host.isEmpty then .error "empty host"
  else .ok ⟨scheme, String.ofList host, port,
    if front.isEmpty then path else s!"/{String.ofList front}{path}"⟩

/-- `CARGO_PKG_VERSION` -/
def PKG_VERSION : String := "0.1.7"

def buildRequestEx (J : JsonText) (host fullPath : String) (body : Value)
    (extraHeaders : List (String × String)) : String :=
  let payload := J.write body
  let head := s!"POST {fullPath} HTTP/1.0\r\nHost: {host}\r\nUser-Agent: pan/{PKG_VERSION}\r\n" ++
    s!"Content-Type: application/json\r\nContent-Length: {payload.utf8ByteSize}\r\n"
  let headers := String.join (extraHeaders.map fun (name, value) => s!"{name}: {value}\r\n")
  head ++ headers ++ "\r\n" ++ payload

def buildGetRequest (host fullPath : String) : String :=
  s!"GET {fullPath} HTTP/1.0\r\nHost: {host}\r\nUser-Agent: pan/{PKG_VERSION}\r\n" ++
    "Connection: close\r\nAccept: */*\r\n\r\n"

/-! ## Exchanges -/

inductive HttpStep where
  | sleep (ms : ℕ)
  | exchange (target : Target) (request : String)
deriving DecidableEq

def HttpStep.exchanged : HttpStep → Option (Target × String)
  | .sleep _ => none
  | .exchange target request => some (target, request)

/-- The exchange number `n` brings the reply number `n`. -/
def exchange {α : Type} (replies : ℕ → Except String α) (target : Target) (request : String) :
    Eff HttpStep ℕ (Except String α) := do
  Eff.emit (.exchange target request)
  Eff.ask fun n => (replies n, n + 1)

theorem keepActions_exchange {α : Type} (replies : ℕ → Except String α) (target : Target)
    (request : String) (n : ℕ) :
    (exchange replies target request).keepActions HttpStep.exchanged n =
      ([(target, request)], some (replies n, n + 1)) := by
  unfold exchange
  rw [Eff.keepActions_bind, Eff.keepActions_emit_of_some HttpStep.exchanged rfl,
    Eff.keepActions_ask, Eff.bind_eq]
  rfl

end Pan
