import Pan.Library.Text
import Pan.Plugins

namespace Pan

/-- The governor allows a request in the world `w`. -/
def Governor.Allows {W : Type} (governor : Governor W) (scope : Scope) (capability : String)
    (args : Value) (w : W) : Prop :=
  ∃ w', governor.govern scope capability args w = some (.allow, w')

/-- The granted prefix itself or a dotted descendant of it. -/
def prefixMatches (pre capability : String) : Bool :=
  capability = pre ||
    (Text.stripPrefix pre capability).any fun rest => rest.toList.head? = some '.'

theorem prefixMatches_self (capability : String) : prefixMatches capability capability = true := by
  simp [prefixMatches]

/-! ## Grants of capabilities -/

/-- The prefixes that are granted, by origin. -/
abbrev Grants := List (String × List String)

def Grants.grant (grants : Grants) (origin : String) (prefixes : List String) : Grants :=
  SortedMap.insert origin prefixes grants

def ScopedGovernor.verdict (grants : Grants) (origin capability : String) : Verdict :=
  match SortedMap.get origin grants with
  | some prefixes =>
    if prefixes.any fun pre => prefixMatches pre capability then .allow
    else .deny s!"origin `{origin}` is not granted capability `{capability}`"
  | none => .deny s!"origin `{origin}` has no capability grants"

def ScopedGovernor (W : Type) (grants : Grants) : Governor W where
  govern scope capability _ w := some (ScopedGovernor.verdict grants scope.origin capability, w)

theorem ScopedGovernor.verdict_eq_allow {grants : Grants} {origin capability : String} :
    ScopedGovernor.verdict grants origin capability = .allow ↔
      ∃ prefixes, SortedMap.get origin grants = some prefixes ∧
        ∃ pre ∈ prefixes, prefixMatches pre capability = true := by
  unfold ScopedGovernor.verdict
  cases SortedMap.get origin grants with
  | none => simp
  | some prefixes => simp

/-! ## Rules on paths -/

structure PathRule where
  capabilityPrefix : String
  pathGlob : String
  allowed : Bool

/-- `*` stops anywhere but before a `/`, so that it passes over separators. -/
def globMatchRec : List Char → List Char → Bool
  | [], path => path.isEmpty
  | '*' :: '*' :: '/' :: pat, path => path.tails.any fun rest => globMatchRec pat rest
  | '*' :: '*' :: pat, path => path.tails.any fun rest => globMatchRec pat rest
  | '*' :: pat, path =>
    path.tails.any fun rest => rest.head? ≠ some '/' && globMatchRec pat rest
  | '?' :: pat, c :: path => c ≠ '/' && globMatchRec pat path
  | d :: pat, c :: path => c = d && globMatchRec pat path
  | _ :: _, [] => false

def globMatchSimple (pattern path : String) : Bool := globMatchRec pattern.toList path.toList

def PathRule.appliesTo (rule : PathRule) (capability path : String) : Bool :=
  prefixMatches rule.capabilityPrefix capability && globMatchSimple rule.pathGlob path

namespace PathGovernor

/-- The reason for which the first rule about a path denies it. -/
def denial (capability path : String) : List PathRule → Option String
  | [] => none
  | rule :: rules =>
    if rule.appliesTo capability path then
      if rule.allowed then none
      else some s!"path `{path}` denied by rule `{rule.pathGlob}` for `{capability}`"
    else denial capability path rules

def path (args : Value) : Option String := (args.get "path").bind Value.asStr

end PathGovernor

def PathGovernor {W : Type} (inner : Governor W) (rules : List PathRule) : Governor W where
  govern scope capability args w :=
    match (PathGovernor.path args).bind fun p => PathGovernor.denial capability p rules with
    | some reason => some (.deny reason, w)
    | none => inner.govern scope capability args w

/-! ## An allowlist of hosts -/

/-- The patterns of hosts, by origin. -/
abbrev HostGrants := List (String × List String)

namespace HostAllowlistGovernor

/-- `*.example.com` stands for the domain and all below it. -/
def hostMatches (pattern host : String) : Bool :=
  match Text.stripPrefix "*." pattern with
  | some suffix => host = suffix || ("." ++ suffix).toList.isSuffixOf host.toList
  | none => host = pattern

/-- The text between the scheme and the first `/`, or all of a text without such a scheme. -/
def extractHost (url : String) : String :=
  match (Text.stripPrefix "https://" url).or (Text.stripPrefix "http://" url) with
  | some rest =>
    match Text.splitOnce '/' rest.toList with
    | some (host, _) => String.ofList host
    | none => rest
  | none => url

def onList (allowHosts : HostGrants) (origin host : String) : Bool :=
  ((SortedMap.get origin allowHosts).map fun patterns =>
    patterns.any fun pattern => hostMatches pattern host).getD false

def host (args : Value) : String :=
  extractHost (((args.get "url").bind Value.asStr).getD "")

end HostAllowlistGovernor

open HostAllowlistGovernor in
def HostAllowlistGovernor {W : Type} (inner : Governor W) (allowHosts : HostGrants) :
    Governor W where
  govern scope capability args w :=
    match inner.govern scope capability args w with
    | some (.allow, w') =>
      if "cap.http.".toList.isPrefixOf capability.toList ∧ ¬allowHosts.isEmpty then
        if onList allowHosts scope.origin (host args) then some (.allow, w')
        else some (.deny
          s!"host `{host args}` is not in the allowlist for origin `{scope.origin}`", w')
      else some (.allow, w')
    | other => other

/-! ## A chain of governors -/

/-- The governors are asked in turn, until one of them does not allow. -/
def PolicyChain.govern {W : Type} (scope : Scope) (capability : String) (args : Value) :
    List (Governor W) → Call W Verdict
  | [], w => some (.allow, w)
  | governor :: governors, w =>
    match governor.govern scope capability args w with
    | some (.allow, w') => govern scope capability args governors w'
    | other => other

def PolicyChain {W : Type} (governors : List (Governor W)) : Governor W where
  govern scope capability args := PolicyChain.govern scope capability args governors

end Pan
