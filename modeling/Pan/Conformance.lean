import Mathlib.Data.List.Dedup
import Pan.Acceptance
import Pan.Discovery
import Pan.Library.Collect

namespace Pan

/-! ## Comparing values -/

/-- `==` on doubles: no NaN equals itself, and both zeros are equal. -/
def F64.same (x y : F64) : Bool :=
  !x.isNaN && !y.isNaN && (x == y || (x.magnitude == 0 && y.magnitude == 0))

def Number.same : Number → Number → Bool
  | .posInt n, .posInt m => n == m
  | .negInt i, .negInt j => i == j
  | .float x, .float y => x.same y
  | _, _ => false

namespace Value

mutual

/-- `==` on values. -/
def same : Value → Value → Bool
  | null, null => true
  | bool b, bool c => b == c
  | number n, number m => n.same m
  | string s, string t => s == t
  | array xs, array ys => sameAll xs ys
  | object members, object members' => sameMembers members members'
  | _, _ => false

def sameAll : List Value → List Value → Bool
  | [], [] => true
  | x :: xs, y :: ys => same x y && sameAll xs ys
  | _, _ => false

def sameMembers : List (String × Value) → List (String × Value) → Bool
  | [], [] => true
  | (key, v) :: members, (key', v') :: members' =>
    key == key' && same v v' && sameMembers members members'
  | _, _ => false

end

theorem sameAll_self {xs : List Value} (h : ∀ x ∈ xs, x.same x = true) :
    sameAll xs xs = true := by
  induction xs with
  | nil => rfl
  | cons x xs ih =>
    rw [sameAll, h x (by simp), ih fun y hy => h y (by simp [hy])]
    rfl

theorem sameMembers_self {members : List (String × Value)}
    (h : ∀ m ∈ members, m.2.same m.2 = true) : sameMembers members members = true := by
  induction members with
  | nil => rfl
  | cons m members ih =>
    rw [sameMembers, h m (by simp), ih fun m' hm => h m' (by simp [hm])]
    simp

theorem same_self {v : Value} (h : v.Plain) : v.same v = true := by
  induction h with
  | null => rfl
  | bool b => simp [same]
  | @number n hn =>
    cases n with
    | posInt n => simp [same, Number.same]
    | negInt i => simp [same, Number.same]
    | float x =>
      have hfinite : x.magnitude < 0x7ff0000000000000 := hn
      have hnan : x.isNaN = false := by
        unfold F64.isNaN
        exact decide_eq_false (by omega)
      simp [same, Number.same, F64.same, hnan]
  | string s => simp [same]
  | array _ ih => exact sameAll_self ih
  | object _ ih => exact sameMembers_self ih

end Value

/-! ## Fixtures -/

structure Fixture where
  name : String
  direction : String
  envelope : Envelope

structure FixturesDir where
  path : String
  readDir : Except String (List (Except String DirEntry))
  readToString : String → Except String String

/-- How JSON is read and written, and what is said of a text or a message that does not parse. -/
structure Checker where
  json : JsonText
  textError : String → String
  envelopeError : Value → String

def MessageType.all : List MessageType :=
  [.hello, .welcome, .registerCapabilities, .instantiateSoul, .releaseSoul, .perceive, .decision,
    .ack, .error, .shutdown]

theorem MessageType.mem_all (ty : MessageType) : ty ∈ MessageType.all := by
  cases ty <;> decide

/-- The name of the variant, which `{:?}` shows. -/
def MessageType.debug : MessageType → String
  | hello => "Hello"
  | welcome => "Welcome"
  | registerCapabilities => "RegisterCapabilities"
  | instantiateSoul => "InstantiateSoul"
  | releaseSoul => "ReleaseSoul"
  | perceive => "Perceive"
  | decision => "Decision"
  | ack => "Ack"
  | error => "Error"
  | shutdown => "Shutdown"

structure ConformanceReport where
  fixtureCount : ℕ
  typeCount : ℕ
  errors : List String

def validateEnvelopeShape (env : Envelope) (errors : List String) : List String :=
  let errors := if env.v ≠ 0 then errors ++ [s!"v must be 0, got {env.v}"] else errors
  let errors := if env.ty ∉ MessageType.all then
      errors ++ [s!"type must be one of the closed set, got {env.ty.debug}"] else errors
  if env.body.ty ≠ env.ty then errors ++ ["envelope " ++ "`type` (" ++ env.ty.debug ++
    ") does not match body discriminator (" ++ env.body.ty.debug ++ ")"] else errors

namespace Checker

variable (C : Checker) (D : FixturesDir)

def fixtureOf (name : String) (value : Value) : Except String Fixture :=
  match (value.get "direction").bind Value.asStr with
  | none => .error s!"{name}: missing `direction` field"
  | some direction =>
    match value.get "message" with
    | none => .error s!"{name}: missing `message` field"
    | some message =>
      match Envelope.decode message with
      | none => .error s!"{name}: {C.envelopeError message}"
      | some envelope => .ok ⟨name, direction, envelope⟩

/-- One entry of the directory. What is no `.json` file is passed over. -/
def loadFixture (entry : DirEntry) : Except String (List Fixture) :=
  if entry.extension ≠ some "json" then .ok []
  else do
    let raw ← D.readToString (joinPath D.path entry.name)
    match C.json.read raw with
    | none => .error s!"{entry.name}: {C.textError raw}"
    | some tree => return [← C.fixtureOf entry.name tree.collect]

def loadFixtures : Except String (List Fixture) := do
  let entries ← (← D.readDir).mapM id
  (entries.mergeSort fun a b => decide (a.name ≤ b.name)).flatMapM (C.loadFixture D)

def reparse (fx : Fixture) : Except String (List String) :=
  let line := fx.envelope.toNdjson C.json
  match C.json.read line with
  | none => .error s!"{fx.name}: ndjson reparse: {C.textError line}"
  | some reparsed =>
    if reparsed.collect.same fx.envelope.toTree.collect then .ok []
    else .ok [s!"{fx.name}: ndjson round-trip drifted"]

/-- One fixture, after the errors so far and the types that have been seen. -/
def checkFixture (s : List String × List String) (fx : Fixture) :
    Except String (List String × List String) := do
  let errors := validateEnvelopeShape fx.envelope s.1
  let errors ← if errors.isEmpty then C.reparse fx else .ok errors
  return (errors, s.2.insert fx.envelope.ty.asStr)

def checkFixtures : Except String ConformanceReport := do
  let fixtures ← C.loadFixtures D
  let s ← fixtures.foldlM C.checkFixture ([], [])
  let missing := (MessageType.all.filter fun ty => ty.asStr ∉ s.2).map MessageType.asStr
  return {
    fixtureCount := fixtures.length
    typeCount := s.2.length
    errors := s.1 ++ (sortStrings missing).map fun t => s!"no fixture covers message type `{t}`" }

end Checker

/-! ## What is loaded -/

namespace Checker

variable {C : Checker} {D : FixturesDir}

variable (C D) in
/-- The entry is a `.json` file, and this fixture is read from it. -/
structure Reads (entry : DirEntry) (fx : Fixture) : Prop where
  json : entry.extension = some "json"
  read : ∃ raw tree message, D.readToString (joinPath D.path entry.name) = .ok raw ∧
    C.json.read raw = some tree ∧
    tree.collect.get "direction" = some (.string fx.direction) ∧
    tree.collect.get "message" = some message ∧ Envelope.decode message = some fx.envelope
  name : fx.name = entry.name

theorem fixtureOf_eq_ok {name : String} {value : Value} {fx : Fixture} :
    C.fixtureOf name value = .ok fx ↔ fx.name = name ∧
      value.get "direction" = some (.string fx.direction) ∧
      ∃ message, value.get "message" = some message ∧
        Envelope.decode message = some fx.envelope := by
  obtain ⟨n, d, env⟩ := fx
  have hstr : ∀ v : Value, v.asStr = some d ↔ v = .string d := by
    intro v
    cases v <;> simp [Value.asStr]
  unfold fixtureOf
  cases hdirection : (value.get "direction").bind Value.asStr with
  | none =>
    have hnot : value.get "direction" ≠ some (.string d) := by
      intro h
      simp [h, Value.asStr] at hdirection
    simp [hnot]
  | some direction =>
    obtain ⟨v, hv, hvstr⟩ := Option.bind_eq_some_iff.mp hdirection
    have heq : value.get "direction" = some (.string d) ↔ direction = d := by
      rw [hv, Option.some.injEq, ← hstr, hvstr, Option.some.injEq]
    rw [heq]
    cases hmessage : value.get "message" with
    | none => simp
    | some message =>
      cases hdecode : Envelope.decode message with
      | none => simp [hdecode]
      | some envelope => simp [hdecode, eq_comm]

theorem loadFixture_eq_ok {entry : DirEntry} {fxs : List Fixture} :
    C.loadFixture D entry = .ok fxs ↔ if entry.extension = some "json" then
      ∃ fx, C.Reads D entry fx ∧ fxs = [fx] else fxs = [] := by
  unfold loadFixture
  by_cases hext : entry.extension = some "json"
  · rw [if_neg (not_not.mpr hext), if_pos hext]
    -- the file is read, then its text; the first that fails is the error
    cases hraw : D.readToString (joinPath D.path entry.name) with
    | error e =>
      refine iff_of_false (fun h => by cases h) ?_
      rintro ⟨fx, ⟨-, ⟨raw, tree, message, hread, -⟩, -⟩, -⟩
      rw [hraw] at hread
      cases hread
    | ok raw =>
      cases htree : C.json.read raw with
      | none =>
        refine iff_of_false (fun h => ?_) ?_
        · simp [bind, Except.bind, htree] at h
        · rintro ⟨fx, ⟨-, ⟨raw', tree, message, hread, hjson, -⟩, -⟩, -⟩
          rw [hraw] at hread
          cases hread
          rw [htree] at hjson
          cases hjson
      | some tree =>
        have hreads : ∀ fx, C.Reads D entry fx ↔ C.fixtureOf entry.name tree.collect = .ok fx := by
          intro fx
          rw [fixtureOf_eq_ok]
          constructor
          · rintro ⟨-, ⟨raw', tree', message, hread, hjson, hdirection, hmessage⟩, hname⟩
            rw [hraw] at hread
            cases hread
            rw [htree] at hjson
            cases hjson
            exact ⟨hname, hdirection, message, hmessage⟩
          · rintro ⟨hname, hdirection, message, hmessage⟩
            exact ⟨hext, ⟨raw, tree, message, hraw, htree, hdirection, hmessage⟩, hname⟩
        simp only [hreads]
        cases hfx : C.fixtureOf entry.name tree.collect <;>
          simp [bind, Except.bind, pure, Except.pure, htree, hfx, eq_comm]
  · rw [if_pos hext, if_neg hext]
    simp [eq_comm]

/-- An entry is read as one fixture only. -/
theorem Reads.unique {entry : DirEntry} {fx fx' : Fixture} (h : C.Reads D entry fx)
    (h' : C.Reads D entry fx') : fx = fx' := by
  have hload : ∀ {fx}, C.Reads D entry fx → C.loadFixture D entry = .ok [fx] := by
    intro fx hreads
    rw [loadFixture_eq_ok, if_pos hreads.json]
    exact ⟨fx, hreads, rfl⟩
  have heq := (hload h).symm.trans (hload h')
  injection heq with heq
  exact List.head_eq_of_cons_eq heq

/-- The fixtures of a directory, whatever the order of its entries. -/
theorem loadFixtures_spec {fixtures : List Fixture} (h : C.loadFixtures D = .ok fixtures) :
    ∃ entries : List DirEntry, D.readDir = .ok (entries.map .ok) ∧
      (∀ e ∈ entries, e.extension = some "json" → ∃ fx, C.Reads D e fx) ∧
      ∀ fx, fx ∈ fixtures ↔ ∃ e ∈ entries, C.Reads D e fx := by
  obtain ⟨listing, hlisting, h⟩ := Fallible.exists_of_bind_eq_ok h
  obtain ⟨entries, hentries, hload⟩ := Fallible.exists_of_bind_eq_ok h
  rw [Collect.mapM_id_eq_ok] at hentries
  subst hentries
  obtain ⟨hall, hmem⟩ := Collect.flatMapM_eq_ok hload
  -- the order in which the files are read makes no difference
  simp only [List.mem_mergeSort] at hall hmem
  refine ⟨entries, hlisting, fun e he hext => ?_, fun fx => ?_⟩
  · obtain ⟨fxs, hfxs⟩ := hall e he
    rw [loadFixture_eq_ok, if_pos hext] at hfxs
    obtain ⟨fx, hfx, -⟩ := hfxs
    exact ⟨fx, hfx⟩
  · rw [hmem]
    refine exists_congr fun e => and_congr_right fun he => ?_
    constructor
    · rintro ⟨fxs, hfxs, hfx⟩
      rw [loadFixture_eq_ok] at hfxs
      split_ifs at hfxs
      · obtain ⟨fx', hreads, rfl⟩ := hfxs
        rw [List.mem_singleton] at hfx
        rwa [hfx]
      · subst hfxs
        cases hfx
    · intro hreads
      refine ⟨[fx], ?_, by simp⟩
      rw [loadFixture_eq_ok, if_pos hreads.json]
      exact ⟨fx, hreads, rfl⟩

theorem exists_loadFixtures {entries : List DirEntry} (hdir : D.readDir = .ok (entries.map .ok))
    (hall : ∀ e ∈ entries, e.extension = some "json" → ∃ fx, C.Reads D e fx) :
    ∃ fixtures, C.loadFixtures D = .ok fixtures := by
  have hentries : (entries.map Except.ok).mapM id = (.ok entries : Except String _) :=
    Collect.mapM_id_eq_ok.mpr rfl
  obtain ⟨fixtures, hfixtures⟩ := Collect.exists_flatMapM (f := C.loadFixture D)
      (l := entries.mergeSort fun a b => decide (a.name ≤ b.name)) (by
    intro e he
    have hmem : e ∈ entries := List.mem_mergeSort.mp he
    by_cases hext : e.extension = some "json"
    · obtain ⟨fx, hfx⟩ := hall e hmem hext
      exact ⟨[fx], loadFixture_eq_ok.mpr (by rw [if_pos hext]; exact ⟨fx, hfx, rfl⟩)⟩
    · exact ⟨[], loadFixture_eq_ok.mpr (by rw [if_neg hext])⟩)
  refine ⟨fixtures, ?_⟩
  unfold loadFixtures
  rw [hdir]
  change ((entries.map Except.ok).mapM id >>= _) = _
  rw [hentries]
  exact hfixtures

/-! ## What is checked -/

def versionErrors (fx : Fixture) : List String :=
  if fx.envelope.v ≠ 0 then [s!"v must be 0, got {fx.envelope.v}"] else []

/-- The version is all that the check of a fixture depends on. -/
def Sound (C : Checker) (fx : Fixture) : Prop :=
  fx.envelope.ty = fx.envelope.body.ty ∧ C.reparse fx = .ok []

theorem Reads.sound (hplain : C.json.ReadsPlain) (hnested : C.json.ReadsNested) {e : DirEntry}
    {fx : Fixture} (h : C.Reads D e fx) (hback : C.json.ReadsBack fx.envelope.toTree) :
    C.Sound fx := by
  obtain ⟨raw, tree, message, -, hread, -, hmessage, hdecode⟩ := h.read
  obtain ⟨hmemory, hdepth⟩ := (hplain raw tree hread).collected
  have hinside : tree.collect.Inside message := by
    unfold Value.get at hmessage
    obtain ⟨members, hmembers, hget⟩ := Option.bind_eq_some_iff.mp hmessage
    cases hcollect : tree.collect with
    | object fields =>
      rw [hcollect] at hmembers hmemory
      obtain rfl : fields = members := Option.some.inj hmembers
      exact hmemory.inside_object _ (SortedMap.mem_of_get hget)
    | _ =>
      rw [hcollect] at hmembers
      cases hmembers
  obtain ⟨hty, hrange, hle⟩ := Envelope.accepted hinside.1.plain hdecode
  have hlimit := hnested raw tree hread
  have hless := hinside.2
  have hreparsed : C.json.read (fx.envelope.toNdjson C.json) = some fx.envelope.toTree :=
    hback (Envelope.plain hrange) (by omega)
  refine ⟨hty, ?_⟩
  unfold reparse
  dsimp only
  rw [hreparsed]
  dsimp only
  rw [if_pos (Value.same_self (Envelope.plain hrange).collect)]

theorem validateEnvelopeShape_eq {fx : Fixture} (h : C.Sound fx) (errors : List String) :
    validateEnvelopeShape fx.envelope errors = errors ++ versionErrors fx := by
  unfold validateEnvelopeShape versionErrors
  dsimp only
  rw [if_neg (not_not.mpr (MessageType.mem_all _)), if_neg (not_not.mpr h.1.symm)]
  split_ifs <;> simp

theorem checkFixture_eq {fx : Fixture} (h : C.Sound fx) (s : List String × List String) :
    C.checkFixture s fx = .ok (s.1 ++ versionErrors fx, s.2.insert fx.envelope.ty.asStr) := by
  unfold checkFixture
  rw [validateEnvelopeShape_eq h]
  cases herrors : s.1 ++ versionErrors fx with
  | nil =>
    change (C.reparse fx >>= fun errors => pure (errors, s.2.insert fx.envelope.ty.asStr)) = _
    rw [h.2]
    rfl
  | cons e errors => rfl

theorem foldlM_checkFixture {fixtures : List Fixture} (h : ∀ fx ∈ fixtures, C.Sound fx)
    (s : List String × List String) : fixtures.foldlM C.checkFixture s =
      .ok (s.1 ++ fixtures.flatMap versionErrors,
        fixtures.foldl (fun seen fx => seen.insert fx.envelope.ty.asStr) s.2) := by
  induction fixtures generalizing s with
  | nil => simp [pure, Except.pure]
  | cons fx fixtures ih =>
    rw [List.foldlM_cons, checkFixture_eq (h fx (by simp))]
    change fixtures.foldlM C.checkFixture _ = _
    rw [ih fun fx' h' => h fx' (by simp [h'])]
    simp

/-- The types that have been seen. -/
theorem mem_foldl_insert (fixtures : List Fixture) (seen : List String) (t : String) :
    t ∈ fixtures.foldl (fun seen fx => seen.insert fx.envelope.ty.asStr) seen ↔
      t ∈ seen ∨ ∃ fx ∈ fixtures, fx.envelope.ty.asStr = t := by
  induction fixtures generalizing seen with
  | nil => simp
  | cons fx fixtures ih =>
    rw [List.foldl_cons, ih, List.mem_insert_iff]
    simp only [List.mem_cons, exists_eq_or_imp]
    tauto

theorem asStr_inj {ty ty' : MessageType} (h : ty.asStr = ty'.asStr) : ty = ty' := by
  have hdecode := MessageType.decode_asStr ty
  rw [h, MessageType.decode_asStr] at hdecode
  exact (Option.some.inj hdecode).symm

def seenTypes (fixtures : List Fixture) : List String :=
  fixtures.foldl (fun seen fx => seen.insert fx.envelope.ty.asStr) []

theorem asStr_mem_seenTypes {fixtures : List Fixture} {ty : MessageType} :
    ty.asStr ∈ seenTypes fixtures ↔ ∃ fx ∈ fixtures, fx.envelope.ty = ty := by
  unfold seenTypes
  rw [mem_foldl_insert]
  constructor
  · rintro (h | ⟨fx, hfx, hty⟩)
    · cases h
    · exact ⟨fx, hfx, asStr_inj hty⟩
  · rintro ⟨fx, hfx, rfl⟩
    exact .inr ⟨fx, hfx, rfl⟩

theorem nodup_seenTypes (fixtures : List Fixture) : (seenTypes fixtures).Nodup := by
  have hfold : ∀ seen : List String, seen.Nodup →
      (fixtures.foldl (fun seen fx => seen.insert fx.envelope.ty.asStr) seen).Nodup := by
    induction fixtures with
    | nil => exact fun _ h => h
    | cons fx fixtures ih => exact fun seen h => ih _ h.insert
  exact hfold [] List.nodup_nil

/-- Each type has been seen, or it is missing. -/
theorem length_seenTypes (fixtures : List Fixture) :
    (seenTypes fixtures).length +
      (MessageType.all.filter fun ty => ty.asStr ∉ seenTypes fixtures).length = 10 := by
  -- the types seen and the types missing are the two halves of the closed set
  let seen := MessageType.all.filter fun ty => ty.asStr ∈ seenTypes fixtures
  have hnodup : (seen.map MessageType.asStr).Nodup :=
    List.Nodup.map (fun _ _ h => asStr_inj h) (List.Nodup.filter _ (by decide))
  have hmem : ∀ t, t ∈ seenTypes fixtures ↔ t ∈ seen.map MessageType.asStr := by
    intro t
    simp only [seen, List.mem_map, List.mem_filter, MessageType.mem_all, true_and,
      decide_eq_true_eq]
    constructor
    · intro ht
      obtain h | ⟨fx, hfx, rfl⟩ := (mem_foldl_insert fixtures [] t).mp ht
      · cases h
      · exact ⟨_, ht, rfl⟩
    · rintro ⟨ty, hty, rfl⟩
      exact hty
  have hlength : (seenTypes fixtures).length = seen.length := by
    rw [((List.perm_ext_iff_of_nodup (nodup_seenTypes fixtures) hnodup).mpr hmem).length_eq,
      List.length_map]
  have hsplit := List.length_eq_length_filter_add (l := MessageType.all)
    fun ty => decide (ty.asStr ∈ seenTypes fixtures)
  have hten : MessageType.all.length = 10 := rfl
  have hmissing : (MessageType.all.filter fun ty => decide (ty.asStr ∉ seenTypes fixtures)) =
      MessageType.all.filter fun ty => !decide (ty.asStr ∈ seenTypes fixtures) := by
    congr 1
    funext ty
    simp
  rw [hlength, hmissing]
  change _ = seen.length + _ at hsplit
  omega

/-- No type is missing if each is the type of a fixture. -/
theorem length_missing_eq_zero_iff {fixtures : List Fixture} :
    (MessageType.all.filter fun ty => ty.asStr ∉ seenTypes fixtures).length = 0 ↔
      ∀ ty, ∃ fx ∈ fixtures, fx.envelope.ty = ty := by
  rw [List.length_eq_zero_iff, List.filter_eq_nil_iff]
  constructor
  · intro h ty
    have hty := h ty ty.mem_all
    rwa [decide_eq_true_eq, not_not, asStr_mem_seenTypes] at hty
  · intro h ty _
    rw [decide_eq_true_eq, not_not, asStr_mem_seenTypes]
    exact h ty

/-- What the check reports of fixtures that are sound. -/
theorem checkFixtures_of_sound {fixtures : List Fixture} (hload : C.loadFixtures D = .ok fixtures)
    (h : ∀ fx ∈ fixtures, C.Sound fx) : ∃ report, C.checkFixtures D = .ok report ∧
      report.fixtureCount = fixtures.length ∧
      report.typeCount = (seenTypes fixtures).length ∧
      report.errors = fixtures.flatMap versionErrors ++ (sortStrings
        ((MessageType.all.filter fun ty => ty.asStr ∉ seenTypes fixtures).map
          MessageType.asStr)).map fun t => s!"no fixture covers message type `{t}`" := by
  unfold checkFixtures
  rw [hload]
  change ∃ report, (fixtures.foldlM C.checkFixture ([], []) >>= _) = _ ∧ _
  rw [foldlM_checkFixture h]
  exact ⟨_, rfl, rfl, rfl, rfl⟩

theorem length_versionErrors (fixtures : List Fixture) :
    (fixtures.flatMap versionErrors).length = fixtures.countP fun fx => fx.envelope.v ≠ 0 := by
  induction fixtures with
  | nil => rfl
  | cons fx fixtures ih =>
    rw [List.flatMap_cons, List.length_append, ih, List.countP_cons, Nat.add_comm]
    congr 1
    unfold versionErrors
    split_ifs with h <;> simp_all

/-- The errors and the types seen, of fixtures that have been loaded. -/
theorem checkFixtures_spec (hplain : C.json.ReadsPlain) (hnested : C.json.ReadsNested)
    (hback : ∀ e fx, C.Reads D e fx → C.json.ReadsBack fx.envelope.toTree)
    {fixtures : List Fixture} (hload : C.loadFixtures D = .ok fixtures) :
    ∃ report, C.checkFixtures D = .ok report ∧ report.fixtureCount = fixtures.length ∧
      report.typeCount = (seenTypes fixtures).length ∧
      report.errors.length = fixtures.countP (fun fx => fx.envelope.v ≠ 0) +
        (MessageType.all.filter fun ty => ty.asStr ∉ seenTypes fixtures).length := by
  obtain ⟨entries, -, -, hmem⟩ := loadFixtures_spec hload
  have hsound : ∀ fx ∈ fixtures, C.Sound fx := by
    intro fx hfx
    obtain ⟨e, -, hreads⟩ := (hmem fx).mp hfx
    exact hreads.sound hplain hnested (hback e fx hreads)
  obtain ⟨report, hreport, hcount, htypes, herrors⟩ := checkFixtures_of_sound hload hsound
  refine ⟨report, hreport, hcount, htypes, ?_⟩
  rw [herrors, List.length_append, length_versionErrors, List.length_map, sortStrings,
    List.length_mergeSort, List.length_map]

/-- The same of a report, which is one of fixtures that have been loaded. -/
theorem report_spec (hplain : C.json.ReadsPlain) (hnested : C.json.ReadsNested)
    (hback : ∀ e fx, C.Reads D e fx → C.json.ReadsBack fx.envelope.toTree)
    {report : ConformanceReport} (h : C.checkFixtures D = .ok report) :
    ∃ fixtures, C.loadFixtures D = .ok fixtures ∧ report.fixtureCount = fixtures.length ∧
      report.typeCount = (seenTypes fixtures).length ∧
      report.errors.length = fixtures.countP (fun fx => fx.envelope.v ≠ 0) +
        (MessageType.all.filter fun ty => ty.asStr ∉ seenTypes fixtures).length := by
  obtain ⟨fixtures, hload, -⟩ := Fallible.exists_of_bind_eq_ok h
  obtain ⟨report', hreport, hspec⟩ := checkFixtures_spec hplain hnested hback hload
  obtain rfl : report = report' := Except.ok.inj (h.symm.trans hreport)
  exact ⟨fixtures, hload, hspec⟩

end Checker

/-- The conformance check passes if and only if all entries of the directory are there, each `.json`
file is a fixture whose envelope is of version 0, and each of the ten message types is the type of
one. Otherwise there is one error for each fixture of another version and for each type that is
missing, if the fixtures could be loaded. -/
theorem conformance_exact {C : Checker} {D : FixturesDir} (hplain : C.json.ReadsPlain)
    (hnested : C.json.ReadsNested)
    (hback : ∀ e fx, C.Reads D e fx → C.json.ReadsBack fx.envelope.toTree) :
    ((∃ report, C.checkFixtures D = .ok report ∧ report.errors = []) ↔
      ∃ entries : List DirEntry, D.readDir = .ok (entries.map .ok) ∧
        (∀ e ∈ entries, e.extension = some "json" →
          ∃ fx, C.Reads D e fx ∧ fx.envelope.v = 0) ∧
        ∀ ty, ∃ e ∈ entries, ∃ fx, C.Reads D e fx ∧ fx.envelope.ty = ty) ∧
    ∀ report, C.checkFixtures D = .ok report → ∃ fixtures,
      C.loadFixtures D = .ok fixtures ∧ report.fixtureCount = fixtures.length ∧
      report.errors.length + report.typeCount =
        fixtures.countP (fun fx => fx.envelope.v ≠ 0) + 10 := by
  constructor
  · constructor
    · -- no error: no fixture of another version, no type that is missing
      rintro ⟨report, hreport, hnone⟩
      obtain ⟨fixtures, hload, -, -, hlength⟩ :=
        Checker.report_spec hplain hnested hback hreport
      rw [hnone, List.length_nil] at hlength
      obtain ⟨entries, hdir, hall, hmem⟩ := Checker.loadFixtures_spec hload
      have hversions : ∀ fx ∈ fixtures, fx.envelope.v = 0 := by
        have hzero : fixtures.countP (fun fx => fx.envelope.v ≠ 0) = 0 := by omega
        rw [List.countP_eq_zero] at hzero
        simpa using hzero
      refine ⟨entries, hdir, fun e he hext => ?_, fun ty => ?_⟩
      · obtain ⟨fx, hfx⟩ := hall e he hext
        exact ⟨fx, hfx, hversions fx ((hmem fx).mpr ⟨e, he, hfx⟩)⟩
      · have hmissing : (MessageType.all.filter fun ty =>
            ty.asStr ∉ Checker.seenTypes fixtures).length = 0 := by omega
        obtain ⟨fx, hfx, hty⟩ := Checker.length_missing_eq_zero_iff.mp hmissing ty
        obtain ⟨e, he, hreads⟩ := (hmem fx).mp hfx
        exact ⟨e, he, fx, hreads, hty⟩
    · rintro ⟨entries, hdir, hall, htypes⟩
      have hreads : ∀ e ∈ entries, e.extension = some "json" → ∃ fx, C.Reads D e fx := by
        intro e he hext
        obtain ⟨fx, hfx, -⟩ := hall e he hext
        exact ⟨fx, hfx⟩
      obtain ⟨fixtures, hload⟩ := Checker.exists_loadFixtures hdir hreads
      obtain ⟨report, hreport, -, -, hlength⟩ :=
        Checker.checkFixtures_spec hplain hnested hback hload
      obtain ⟨entries', hdir', -, hmem⟩ := Checker.loadFixtures_spec hload
      obtain rfl : entries = entries' := List.map_injective_iff.mpr (fun _ _ => Except.ok.inj)
        (Except.ok.inj (hdir.symm.trans hdir'))
      have hzero : fixtures.countP (fun fx => fx.envelope.v ≠ 0) = 0 := by
        rw [List.countP_eq_zero]
        intro fx hfx
        obtain ⟨e, he, hfx⟩ := (hmem fx).mp hfx
        obtain ⟨fx', hfx', hv⟩ := hall e he hfx.json
        obtain rfl := hfx.unique hfx'
        simp [hv]
      have hnone : (MessageType.all.filter fun ty =>
          ty.asStr ∉ Checker.seenTypes fixtures).length = 0 := by
        rw [Checker.length_missing_eq_zero_iff]
        intro ty
        obtain ⟨e, he, fx, hfx, hty⟩ := htypes ty
        exact ⟨fx, (hmem fx).mpr ⟨e, he, hfx⟩, hty⟩
      exact ⟨report, hreport, List.eq_nil_of_length_eq_zero (by omega)⟩
  · intro report hreport
    obtain ⟨fixtures, hload, hcount, htypes, hlength⟩ :=
      Checker.report_spec hplain hnested hback hreport
    have hten := Checker.length_seenTypes fixtures
    exact ⟨fixtures, hload, hcount, by omega⟩

/-! ## The fixtures of every type -/

/-- A decoder that is given a value in memory reads it as one that is given a text does. -/
theorem Envelope.decode_collect {env : Envelope} (h : env.InRange) (hty : env.ty = env.body.ty)
    (hre : env.re = none) : decode env.toTree.collect = some env := by
  obtain ⟨v, seq, re, ty, body⟩ := env
  obtain rfl : ty = body.ty := hty
  obtain rfl : re = none := hre
  have hv : decodeU32 (natTree v) = some v := decodeNat_natTree h.v
  have hseq : decodeU64 (natTree seq) = some seq := decodeNat_natTree h.seq
  have hty := MessageType.decode_asStr body.ty
  have hbody := Body.fromValue_collect h.body
  have hcollect : body.toTree.collect.collect = body.toTree.collect :=
    (Body.plain h.body).collected.1.collect_eq
  have hmembers : (toTree ⟨v, seq, none, body.ty, body⟩).collect = .object
      [("body", body.toTree.collect), ("seq", natTree seq), ("type", .string body.ty.asStr),
        ("v", natTree v)] := by
    have hv : "seq" < "v" ∧ "type" < "v" := by decide
    have hseq : "body" < "seq" ∧ ¬"type" < "seq" := by decide
    rw [toTree, Value.collect_object]
    simp [SortedMap.ofList, SortedMap.insert, natTree, hv, hseq]
  rw [hmembers]
  simp [decode, Fields.read, hv, hseq, hty, hbody, hcollect]

namespace TenFixtures

def envelopeOf (seq : ℕ) (body : Body) : Envelope := ⟨0, seq, none, body.ty, body⟩

def covered : List (DirEntry × String × Envelope) :=
  [(⟨"01_hello.json", by decide⟩, "host_to_daemon",
      envelopeOf 0 (.hello ⟨0, "reachlock/0", "reachlock-godot/0.1.0"⟩)),
    (⟨"02_welcome.json", by decide⟩, "daemon_to_host",
      envelopeOf 0 (.welcome ⟨0, "pan-serve/0.1.0", [.rules, .llm]⟩)),
    (⟨"03_register_capabilities.json", by decide⟩, "host_to_daemon",
      envelopeOf 1 (.registerCapabilities ⟨[⟨"npc.move_to", "Walk to a room.", .object []⟩]⟩)),
    (⟨"04_instantiate_soul.json", by decide⟩, "host_to_daemon",
      envelopeOf 2 (.instantiateSoul ⟨"example_pilot", .llm, .null⟩)),
    (⟨"06_decision_express.json", by decide⟩, "daemon_to_host",
      envelopeOf 1 (.decision ⟨"example_pilot", "conv_00042", 1,
        ⟨[.express "Been through worse.", .conclude .achieved]⟩⟩)),
    (⟨"09_error_unknown_capability.json", by decide⟩, "daemon_to_host",
      envelopeOf 3 (.error ⟨.unknownCapability, "never registered"⟩)),
    (⟨"11_perceive_tick.json", by decide⟩, "host_to_daemon",
      envelopeOf 6 (.perceive ⟨"example_pilot", tickGoal "idle_example_pilot" 9, ⟨[]⟩⟩)),
    (⟨"13_ack.json", by decide⟩, "daemon_to_host", envelopeOf 4 .ack),
    (⟨"14_shutdown.json", by decide⟩, "host_to_daemon", envelopeOf 8 .shutdown),
    (⟨"15_release_soul.json", by decide⟩, "host_to_daemon",
      envelopeOf 10 (.releaseSoul ⟨"example_pilot"⟩))]

def fixtureTree (direction : String) (env : Envelope) : Value :=
  .object [("direction", .string direction), ("message", env.toTree)]

/-- What is read: the text of each file, and the line of each message. -/
def trees : List Value :=
  covered.map (fun p => fixtureTree p.2.1 p.2.2) ++ covered.map fun p => p.2.2.toTree

def textOf (t : Value) : String := JsonText.write (.readsOnly []) t

def checker : Checker where
  json := .readsOnly (trees.map fun t => (textOf t, t))
  textError _ := "expected value"
  envelopeError _ := "missing field"

def readme : DirEntry := ⟨"README.md", by decide⟩

def dir : FixturesDir where
  path := "fixtures"
  readDir := .ok ((readme :: covered.map Prod.fst).map .ok)
  readToString path :=
    match (covered.map fun p =>
        (joinPath "fixtures" p.1.name, textOf (fixtureTree p.2.1 p.2.2))).lookup path with
    | some text => .ok text
    | none => .error "no such file"

theorem sound {p : DirEntry × String × Envelope} (hp : p ∈ covered) :
    p.2.2.InRange ∧ p.2.2.ty = p.2.2.body.ty ∧ p.2.2.re = none ∧ p.2.2.v = 0 ∧
      p.1.extension = some "json" := by
  have hobject : (Value.object []).InMemory := .object List.Pairwise.nil (by simp)
  simp only [covered, List.mem_cons, List.not_mem_nil, or_false] at hp
  obtain rfl | rfl | rfl | rfl | rfl | rfl | rfl | rfl | rfl | rfl := hp
  all_goals
    refine ⟨⟨by decide, by decide, by simp [envelopeOf], ?_⟩, rfl, rfl, rfl, by decide⟩
    simp [envelopeOf, Body.InRange, Goal.InRange, Trigger.InRange, ActionIntent.InRange, tickGoal,
      Value.InMemory.null, hobject]

/-- Their lengths tell the texts apart. -/
theorem nodup_texts : ((trees.map fun t => (textOf t, t)).map Prod.fst).Nodup := by
  have hlengths : trees.map (fun t => (textOf t).length) =
      [158, 154, 179, 142, 268, 137, 242, 79, 84, 114, 117, 113, 138, 101, 227, 96, 201, 38, 43,
        73] := by
    simp only [textOf, JsonText.write, String.length_ofList]
    decide +kernel
  have hnodup : (trees.map fun t => (textOf t).length).Nodup := by
    rw [hlengths]
    decide
  refine .of_map String.length ?_
  simpa only [List.map_map, Function.comp_def] using hnodup

theorem nodup_paths : (covered.map fun p => joinPath "fixtures" p.1.name).Nodup := by decide

theorem ofAllTypes (ty : MessageType) : ∃ p ∈ covered, p.2.2.ty = ty := by
  cases ty <;> decide

theorem read_textOf {t : Value} (ht : t ∈ trees) : checker.json.read (textOf t) = some t :=
  JsonText.read_readsOnly nodup_texts (List.mem_map_of_mem ht)

theorem write_checker (t : Value) : checker.json.write t = textOf t := by
  have hfloats : checker.json.floatText = (JsonText.readsOnly []).floatText := rfl
  exact JsonText.write_congr hfloats t

theorem eq_of_read {text : String} {t : Value} (h : checker.json.read text = some t) :
    t ∈ trees ∧ text = textOf t := by
  obtain ⟨t', ht', heq⟩ := List.mem_map.mp (JsonText.mem_of_readsOnly h)
  cases heq
  exact ⟨ht', rfl⟩

theorem readToString_covered {p : DirEntry × String × Envelope} (hp : p ∈ covered) :
    dir.readToString (joinPath dir.path p.1.name) = .ok (textOf (fixtureTree p.2.1 p.2.2)) := by
  have hfile : (covered.map fun p => (joinPath "fixtures" p.1.name,
      textOf (fixtureTree p.2.1 p.2.2))).lookup (joinPath "fixtures" p.1.name) =
        some (textOf (fixtureTree p.2.1 p.2.2)) := by
    obtain ⟨before, after, hsplit⟩ := List.append_of_mem hp
    have hpaths := nodup_paths
    rw [hsplit] at hpaths ⊢
    rw [List.map_append, List.map_cons, List.nodup_append] at hpaths
    refine List.lookup_eq_some_iff.mpr ⟨_, _, List.map_append.trans (congrArg _ List.map_cons), ?_⟩
    intro file hfile
    obtain ⟨q, hq, rfl⟩ := List.mem_map.mp hfile
    exact bne_iff_ne.mpr (hpaths.2.2 _ (List.mem_map_of_mem hq) _ (by simp)).symm
  unfold dir
  dsimp only
  rw [hfile]

theorem exists_of_readToString {path text : String} (h : dir.readToString path = .ok text) :
    ∃ p ∈ covered, text = textOf (fixtureTree p.2.1 p.2.2) := by
  unfold dir at h
  dsimp only at h
  split at h
  · rename_i found hfound
    cases h
    obtain ⟨before, after, heq, -⟩ := List.lookup_eq_some_iff.mp hfound
    obtain ⟨p, hp, hfile⟩ := List.mem_map.mp
      (heq ▸ List.mem_append_right before (List.mem_cons_self (l := after)))
    cases hfile
    exact ⟨p, hp, rfl⟩
  · cases h

theorem fixtureTree_mem {p : DirEntry × String × Envelope} (hp : p ∈ covered) :
    fixtureTree p.2.1 p.2.2 ∈ trees :=
  List.mem_append_left _ (List.mem_map_of_mem hp)

theorem collect_fixtureTree (direction : String) (env : Envelope) :
    (fixtureTree direction env).collect.get "direction" = some (.string direction) ∧
      (fixtureTree direction env).collect.get "message" = some env.toTree.collect := by
  rw [fixtureTree, Value.collect_object]
  simp [Value.get, Value.asObject, SortedMap.get_ofList, SortedMap.last]

/-- The file of a fixture is read as its message. -/
theorem reads {p : DirEntry × String × Envelope} (hp : p ∈ covered) :
    checker.Reads dir p.1 ⟨p.1.name, p.2.1, p.2.2⟩ := by
  obtain ⟨hrange, hty, hre, -, hjson⟩ := sound hp
  obtain ⟨hdirection, hmessage⟩ := collect_fixtureTree p.2.1 p.2.2
  exact ⟨hjson, ⟨_, _, _, readToString_covered hp, read_textOf (fixtureTree_mem hp), hdirection,
    hmessage, Envelope.decode_collect hrange hty hre⟩, rfl⟩

/-- And nothing else is read as a fixture. -/
theorem envelope_of_reads {e : DirEntry} {fx : Fixture} (h : checker.Reads dir e fx) :
    ∃ p ∈ covered, fx.envelope = p.2.2 := by
  obtain ⟨raw, tree, message, hraw, htree, -, hmessage, hdecode⟩ := h.read
  obtain ⟨p, hp, rfl⟩ := exists_of_readToString hraw
  rw [read_textOf (fixtureTree_mem hp)] at htree
  cases htree
  obtain ⟨hrange, hty, hre, -⟩ := sound hp
  rw [(collect_fixtureTree p.2.1 p.2.2).2] at hmessage
  cases hmessage
  rw [Envelope.decode_collect hrange hty hre] at hdecode
  exact ⟨p, hp, (Option.some.inj hdecode).symm⟩

theorem depth_le : ∀ t ∈ trees, t.depth ≤ JsonText.NESTING_LIMIT := by decide +kernel

theorem plain_trees {t : Value} (ht : t ∈ trees) : t.Plain := by
  rcases List.mem_append.mp ht with ht | ht <;> obtain ⟨p, hp, rfl⟩ := List.mem_map.mp ht
  · have hplain := Envelope.plain (sound hp).1
    simp [fixtureTree, hplain]
  · exact Envelope.plain (sound hp).1

end TenFixtures

/-- A directory with a fixture of each type passes. -/
theorem conformance_exact_ten : ∃ report,
    TenFixtures.checker.checkFixtures TenFixtures.dir = .ok report ∧ report.errors = [] ∧
      10 ≤ report.typeCount := by
  have hplain : TenFixtures.checker.json.ReadsPlain := fun _ _ h =>
    TenFixtures.plain_trees (TenFixtures.eq_of_read h).1
  have hnested : TenFixtures.checker.json.ReadsNested := by
    intro text t h
    exact TenFixtures.depth_le t (TenFixtures.eq_of_read h).1
  have hback : ∀ e fx, TenFixtures.checker.Reads TenFixtures.dir e fx →
      TenFixtures.checker.json.ReadsBack fx.envelope.toTree := by
    intro e fx h _ _
    obtain ⟨p, hp, henv⟩ := TenFixtures.envelope_of_reads h
    rw [henv, TenFixtures.write_checker]
    exact TenFixtures.read_textOf (List.mem_append_right _ (List.mem_map_of_mem hp))
  obtain ⟨hpasses, hcounts⟩ := conformance_exact hplain hnested hback
  have hcovered : ∀ p ∈ TenFixtures.covered,
      p.1 ∈ TenFixtures.readme :: TenFixtures.covered.map Prod.fst := fun p hp =>
    List.mem_cons_of_mem _ (List.mem_map_of_mem hp)
  have hpass : ∃ report, TenFixtures.checker.checkFixtures TenFixtures.dir = .ok report ∧
      report.errors = [] := by
    refine hpasses.mpr ⟨_, rfl, fun e he hext => ?_, fun ty => ?_⟩
    · rcases List.mem_cons.mp he with rfl | he
      · exact absurd hext (by decide)
      · obtain ⟨p, hp, rfl⟩ := List.mem_map.mp he
        exact ⟨_, TenFixtures.reads hp, (TenFixtures.sound hp).2.2.2.1⟩
    · obtain ⟨p, hp, hty⟩ := TenFixtures.ofAllTypes ty
      exact ⟨p.1, hcovered p hp, _, TenFixtures.reads hp, hty⟩
  obtain ⟨report, hreport, hnone⟩ := hpass
  obtain ⟨fixtures, -, -, hlength⟩ := hcounts report hreport
  rw [hnone, List.length_nil] at hlength
  exact ⟨report, hreport, hnone, by omega⟩

end Pan
