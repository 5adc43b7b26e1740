import Pan.Discovery
import Pan.Library.Crash
import Pan.Transcript

namespace Pan

structure InstalledFile where
  bytes : List UInt8
  executable : Bool

abbrev InstallDir := String → Option InstalledFile

inductive WriteEnd where
  | unopened
  | broken (n : ℕ)
  | whole

namespace InstallDir

section Calls

variable (name : String) (bytes : List UInt8) (works : Bool)

/-- A file that was there keeps its mode; one that was not cannot be executed. -/
def holding (d : InstallDir) : InstallDir :=
  Function.update d name (some ⟨bytes, (d name).any InstalledFile.executable⟩)

/-- `fs::write`: the file is created or cut to nothing, and then grows. -/
def write (how : WriteEnd) : Eff InstallDir InstallDir Bool := fun d =>
  let upTo (n : ℕ) : List InstallDir :=
    (List.range (n + 1)).map fun k => holding name (bytes.take k) d
  match how with
  | .unopened => ([], some (false, d))
  | .broken n => (upTo n, some (false, holding name (bytes.take n) d))
  | .whole => (upTo bytes.length, some (true, holding name bytes d))

/-- `fs::remove_file`, which does not work on a file that is not there. -/
def removeFile : Eff InstallDir InstallDir Bool := fun d =>
  if works && (d name).isSome then
    ([Function.update d name none], some (true, Function.update d name none))
  else ([], some (false, d))

/-- `fs::set_permissions` with the mode `0o755`. -/
def setMode : Eff InstallDir InstallDir Bool := fun d =>
  match d name with
  | some file =>
    let d' : InstallDir := Function.update d name (some { file with executable := true })
    if works then ([d'], some (true, d')) else ([], some (false, d))
  | none => ([], some (false, d))

/-- `fs::rename`: what had the new name before is gone in the same moment. -/
def rename (newName : String) : Eff InstallDir InstallDir Bool := fun d =>
  match d name with
  | some file =>
    let d' : InstallDir := Function.update (Function.update d name none) newName (some file)
    if works then ([d'], some (true, d')) else ([], some (false, d))
  | none => ([], some (false, d))

end Calls

/-! ## Rules for the calls -/

section Rules

variable {name newName : String} {bytes : List UInt8} {works : Bool} {how : WriteEnd}
  {pre crash : InstallDir → Prop} {post : Bool → InstallDir → Prop}

theorem survives_write (hpassed : ∀ d k, pre d → crash (holding name (bytes.take k) d))
    (hunopened : ∀ d, pre d → post false d)
    (hbroken : ∀ d n, pre d → post false (holding name (bytes.take n) d))
    (hwhole : ∀ d, pre d → post true (holding name bytes d)) :
    (write name bytes how).Survives pre post crash := by
  intro d hd
  have hupTo : ∀ n, ∀ v ∈ (List.range (n + 1)).map fun k => holding name (bytes.take k) d,
      crash v := by
    intro n v hv
    obtain ⟨k, -, rfl⟩ := List.mem_map.mp hv
    exact hpassed d k hd
  cases how with
  | unopened =>
    exact Eff.survives_return (List.forall_mem_nil _) (hunopened d hd)
  | broken n =>
    exact Eff.survives_return (hupTo n) (hbroken d n hd)
  | whole =>
    exact Eff.survives_return (hupTo bytes.length) (hwhole d hd)

theorem survives_removeFile
    (hremoved : ∀ d, pre d → crash (Function.update d name none) ∧
      post true (Function.update d name none))
    (hstays : ∀ d, pre d → (works = true → d name = none) → post false d) :
    (removeFile name works).Survives pre post crash := by
  intro d hd
  unfold removeFile
  split
  case isTrue h =>
    obtain ⟨hcrash, hpost⟩ := hremoved d hd
    exact Eff.survives_return (List.forall_mem_singleton.mpr hcrash) hpost
  case isFalse h =>
    refine Eff.survives_return (List.forall_mem_nil _) (hstays d hd fun hworks => ?_)
    simpa [hworks] using h

theorem survives_setMode
    (hset : ∀ d file, pre d → d name = some file →
      crash (Function.update d name (some { file with executable := true })) ∧
      post true (Function.update d name (some { file with executable := true })))
    (hstays : ∀ d, pre d → (works = true → d name = none) → post false d) :
    (setMode name works).Survives pre post crash := by
  intro d hd
  unfold setMode
  cases hfile : d name with
  | none =>
    exact Eff.survives_return (List.forall_mem_nil _) (hstays d hd fun _ => hfile)
  | some file =>
    obtain ⟨hcrash, hpost⟩ := hset d file hd hfile
    cases works with
    | false =>
      exact Eff.survives_return (List.forall_mem_nil _) (hstays d hd fun h => by cases h)
    | true =>
      exact Eff.survives_return (List.forall_mem_singleton.mpr hcrash) hpost

theorem survives_rename
    (hrenamed : ∀ d file, pre d → d name = some file →
      crash (Function.update (Function.update d name none) newName (some file)) ∧
      post true (Function.update (Function.update d name none) newName (some file)))
    (hstays : ∀ d, pre d → post false d) :
    (rename name works newName).Survives pre post crash := by
  intro d hd
  unfold rename
  cases hfile : d name with
  | none =>
    exact Eff.survives_return (List.forall_mem_nil _) (hstays d hd)
  | some file =>
    obtain ⟨hcrash, hpost⟩ := hrenamed d file hd hfile
    cases works with
    | false =>
      exact Eff.survives_return (List.forall_mem_nil _) (hstays d hd)
    | true =>
      exact Eff.survives_return (List.forall_mem_singleton.mpr hcrash) hpost

end Rules

end InstallDir

/-! ## The update -/

inductive UpdateFailure where
  | noBinary (e : String)
  | noParent
  | notWritable (parent : String)
  | noRelease (e : String)
  | unexpectedResponse
  | notDownloaded (e : String)
  | tooSmall (size : ℕ)
  | notWritten
  | notRenamed

/-- What the system and the server do in the course of an update. -/
structure UpdateEnv where
  /-- The directory of the binary and its name there. -/
  currentExe : Except String (String × DirEntry)
  isDir : String → Bool
  getJson : String → Except String Value
  getBytes : String → Except String (List UInt8)
  writesTest : WriteEnd
  removesTest : Bool
  writesTemp : WriteEnd
  setsMode : Bool
  renames : Bool
  removesUnwritten : Bool
  removesUnset : Bool
  removesUnrenamed : Bool
  /-- What the new binary says of its version, if it runs. -/
  version : Option String

/-- `Path::with_extension` on a path that ends with this name. -/
def DirEntry.withExtension (entry : DirEntry) (extension : String) : String :=
  entry.fileStem ++ "." ++ extension

namespace UpdateEnv

open InstallDir

variable (env : UpdateEnv)

def testFile : String := ".pan-update-test"

def ghApiLatest : String := "https://api.github.com/repos/chezgoulet/pan/releases/latest"

def downloadUrl (tag : String) : String :=
  s!"https://github.com/chezgoulet/pan/releases/download/{tag}/pan"

def fetch : Except UpdateFailure (String × List UInt8) := do
  let json ← (env.getJson ghApiLatest).mapError .noRelease
  let tag ← ((json.get "tag_name").bind Value.asStr).elim (.error .unexpectedResponse) .ok
  let bytes ← (env.getBytes (downloadUrl tag)).mapError .notDownloaded
  if bytes.length < 1000000 then .error (.tooSmall bytes.length) else .ok (tag, bytes)

/-- A mode that is not set does not end the update; the file is removed, if that works. -/
def makeExecutable (tmp : String) : Eff InstallDir InstallDir PUnit := do
  if ← setMode tmp env.setsMode then return ⟨⟩
  else
    let _ ← removeFile tmp env.removesUnset
    return ⟨⟩

def replaceBinary (current tmp : String) (bytes : List UInt8) :
    Eff InstallDir InstallDir (Except UpdateFailure PUnit) := do
  if ← write tmp bytes env.writesTemp then
    env.makeExecutable tmp
    if ← rename tmp env.renames current then return .ok ⟨⟩
    else
      let _ ← removeFile tmp env.removesUnrenamed
      return .error .notRenamed
  else
    let _ ← removeFile tmp env.removesUnwritten
    return .error .notWritten

def runUpdate : Eff InstallDir InstallDir (Except UpdateFailure (String × String)) :=
  match env.currentExe with
  | .error e => return .error (.noBinary e)
  | .ok (parent, current) =>
    if !env.isDir parent then return .error .noParent
    else do
      if ← write testFile [] env.writesTest then
        let _ ← removeFile testFile env.removesTest
        -- the download comes after the test of the directory, so a failure leaves it as it was
        match env.fetch with
        | .error e => return .error e
        | .ok (tag, bytes) =>
          match ← env.replaceBinary current.name (current.withExtension "tmp") bytes with
          | .error e => return .error e
          | .ok _ => return .ok (tag, (env.version.map trim).getD "unknown version")
      else return .error (.notWritable parent)

/-! ## What is left alone -/

section Frame

variable {m name newName tmp current : String} {v : Option InstalledFile}

theorem keeps_write (hm : m ≠ name) (bytes : List UInt8) (how : WriteEnd) :
    (write name bytes how).Survives (fun d => d m = v) (fun _ d => d m = v) fun d => d m = v := by
  have hholding : ∀ d bytes, d m = v → holding name bytes d m = v := fun d bytes hd => by
    rwa [holding, Function.update_of_ne hm]
  apply survives_write
  · exact fun d k hd => hholding d _ hd
  · exact fun d hd => hd
  · exact fun d n hd => hholding d _ hd
  · exact fun d hd => hholding d _ hd

theorem keeps_removeFile (hm : m ≠ name) (works : Bool) :
    (removeFile name works).Survives (fun d => d m = v) (fun _ d => d m = v)
      fun d => d m = v := by
  apply survives_removeFile
  · intro d hd
    rw [Function.update_of_ne hm]
    exact ⟨hd, hd⟩
  · exact fun d hd _ => hd

theorem keeps_makeExecutable (hm : m ≠ tmp) : (env.makeExecutable tmp).Survives
    (fun d => d m = v) (fun _ d => d m = v) fun d => d m = v := by
  have hset : (setMode tmp env.setsMode).Survives (fun d => d m = v) (fun _ d => d m = v)
      fun d => d m = v := by
    apply survives_setMode
    · intro d file hd _
      rw [Function.update_of_ne hm]
      exact ⟨hd, hd⟩
    · exact fun d hd _ => hd
  refine hset.bind fun set => ?_
  cases set with
  | true => exact .pure fun d hd => hd
  | false => exact (keeps_removeFile hm _).bind fun _ => .pure fun d hd => hd

theorem keeps_replaceBinary (hcurrent : m ≠ current) (hm : m ≠ tmp) (bytes : List UInt8) :
    (env.replaceBinary current tmp bytes).Survives (fun d => d m = v) (fun _ d => d m = v)
      fun d => d m = v := by
  have hrename : (rename tmp env.renames current).Survives (fun d => d m = v)
      (fun _ d => d m = v) fun d => d m = v := by
    apply survives_rename
    · intro d file hd _
      rw [Function.update_of_ne hcurrent, Function.update_of_ne hm]
      exact ⟨hd, hd⟩
    · exact fun d hd => hd
  refine (keeps_write hm bytes _).bind fun written => ?_
  cases written with
  | false => exact (keeps_removeFile hm _).bind fun _ => .pure fun d hd => hd
  | true =>
    refine (env.keeps_makeExecutable hm).bind fun _ => hrename.bind fun renamed => ?_
    cases renamed with
    | true => exact .pure fun d hd => hd
    | false => exact (keeps_removeFile hm _).bind fun _ => .pure fun d hd => hd

end Frame

/-! ## What becomes of the binary -/

/-- The mode could not be set, and then the file could not be removed. -/
def Unset : Prop := env.setsMode = false ∧ env.removesUnset = false

section Binary

variable {current tmp : String} {bytes : List UInt8} {old : Option InstalledFile}

theorem staged_makeExecutable (hne : current ≠ tmp) : (env.makeExecutable tmp).Survives
    (fun d => d current = old ∧ ∃ x, d tmp = some ⟨bytes, x⟩)
    (fun _ d => d current = old ∧
      ∀ file, d tmp = some file → file.bytes = bytes ∧ (file.executable = true ∨ env.Unset))
    fun d => d current = old := by
  have hset : (setMode tmp env.setsMode).Survives
      (fun d => d current = old ∧ ∃ x, d tmp = some ⟨bytes, x⟩)
      (fun set d => d current = old ∧ ∃ x, d tmp = some ⟨bytes, x⟩ ∧
        (if set then x = true else env.setsMode = false))
      fun d => d current = old := by
    apply survives_setMode
    · rintro d file ⟨hd, x, htmp⟩ hfile
      obtain rfl := Option.some.inj (htmp.symm.trans hfile)
      rw [Function.update_of_ne hne]
      exact ⟨hd, hd, true, Function.update_self .., rfl⟩
    · rintro d ⟨hd, x, htmp⟩ hworks
      refine ⟨hd, x, htmp, ?_⟩
      show env.setsMode = false
      rw [Bool.eq_false_iff]
      intro h
      exact Option.some_ne_none _ (htmp.symm.trans (hworks h))
  refine hset.bind fun set => ?_
  -- where the mode cannot be set, the staged file is removed, or stays if that fails too
  cases set with
  | true =>
    refine .pure ?_
    rintro d ⟨hd, x, htmp, hx⟩
    refine ⟨hd, fun file hfile => ?_⟩
    obtain rfl := Option.some.inj (htmp.symm.trans hfile)
    exact ⟨rfl, .inl hx⟩
  | false =>
    refine Eff.Survives.bind ?_ fun _ => .pure fun d hd => hd
    apply survives_removeFile
    · rintro d ⟨hd, -⟩
      rw [Function.update_of_ne hne]
      refine ⟨hd, hd, fun file hfile => ?_⟩
      rw [Function.update_self] at hfile
      cases hfile
    · rintro d ⟨hd, x, htmp, hset⟩ hworks
      refine ⟨hd, fun file hfile => ?_⟩
      obtain rfl := Option.some.inj (htmp.symm.trans hfile)
      refine ⟨rfl, .inr ⟨hset, Bool.eq_false_iff.mpr fun h => ?_⟩⟩
      exact Option.some_ne_none _ (htmp.symm.trans (hworks h))

/-- The binary is the old one until it is the whole new one. -/
theorem binary_replaceBinary (hne : current ≠ tmp) (bytes : List UInt8)
    (old : Option InstalledFile) :
    (env.replaceBinary current tmp bytes).Survives (fun d => d current = old)
      (fun r d => match r with
        | .error _ => d current = old
        | .ok _ => ∃ x, d current = some ⟨bytes, x⟩ ∧ d tmp = none ∧ (x = true ∨ env.Unset))
      (fun d => d current = old ∨ ∃ x, d current = some ⟨bytes, x⟩) := by
  have hremove : ∀ works, (removeFile tmp works).Survives (fun d => d current = old)
      (fun _ d => d current = old) fun d => d current = old ∨ ∃ x, d current = some ⟨bytes, x⟩ :=
    fun works => (keeps_removeFile hne works).weaken (fun _ h => h) (fun _ _ h => h)
      fun _ h => .inl h
  have hwrite : (write tmp bytes env.writesTemp).Survives (fun d => d current = old)
      (fun written d => d current = old ∧ (written = true → ∃ x, d tmp = some ⟨bytes, x⟩))
      fun d => d current = old ∨ ∃ x, d current = some ⟨bytes, x⟩ := by
    have hholding : ∀ d bytes, d current = old → holding tmp bytes d current = old :=
      fun d bytes hd => by rwa [holding, Function.update_of_ne hne]
    apply survives_write
    · exact fun d k hd => .inl (hholding d _ hd)
    · exact fun d hd => ⟨hd, fun h => by cases h⟩
    · exact fun d n hd => ⟨hholding d _ hd, fun h => by cases h⟩
    · exact fun d hd => ⟨hholding d _ hd, fun _ => ⟨_, Function.update_self ..⟩⟩
  refine hwrite.bind fun written => ?_
  cases written with
  | false =>
    refine Eff.Survives.strengthen_pre ?_ fun d hd => hd.1
    exact (hremove _).bind fun _ => .pure fun d hd => hd
  | true =>
    refine Eff.Survives.bind (((env.staged_makeExecutable hne).weaken
      (fun d hd => ⟨hd.1, hd.2 rfl⟩) (fun _ _ h => h) fun _ h => .inl h)) fun _ => ?_
    -- the only step that touches the binary, and it does so at once
    have hrename : (rename tmp env.renames current).Survives
        (fun d => d current = old ∧ ∀ file, d tmp = some file →
          file.bytes = bytes ∧ (file.executable = true ∨ env.Unset))
        (fun renamed d => if renamed then
            ∃ x, d current = some ⟨bytes, x⟩ ∧ d tmp = none ∧ (x = true ∨ env.Unset)
          else d current = old)
        fun d => d current = old ∨ ∃ x, d current = some ⟨bytes, x⟩ := by
      apply survives_rename
      · rintro d ⟨newBytes, x⟩ ⟨-, hready⟩ hfile
        obtain ⟨rfl, hx⟩ := hready _ hfile
        refine ⟨.inr ⟨x, Function.update_self ..⟩, x, Function.update_self .., ?_, hx⟩
        rw [Function.update_of_ne hne.symm, Function.update_self]
      · exact fun d hd => hd.1
    refine hrename.bind fun renamed => ?_
    cases renamed with
    | true => exact .pure fun d hd => hd
    | false => exact (hremove _).bind fun _ => .pure fun d hd => hd

end Binary

theorem length_of_fetch {tag : String} {bytes : List UInt8} (h : env.fetch = .ok (tag, bytes)) :
    1000000 ≤ bytes.length := by
  unfold fetch at h
  obtain ⟨json, -, h⟩ := Fallible.exists_of_bind_eq_ok h
  obtain ⟨tag', -, h⟩ := Fallible.exists_of_bind_eq_ok h
  obtain ⟨bytes', -, h⟩ := Fallible.exists_of_bind_eq_ok h
  split at h
  case isTrue => cases h
  case isFalse hsize =>
    cases h
    omega

theorem fetch_eq {json : Value} {tag : String} {bytes : List UInt8}
    (hjson : env.getJson ghApiLatest = .ok json)
    (htag : (json.get "tag_name").bind Value.asStr = some tag)
    (hbytes : env.getBytes (downloadUrl tag) = .ok bytes) (hsize : 1000000 ≤ bytes.length) :
    env.fetch = .ok (tag, bytes) := by
  simp only [fetch, hjson, Except.mapError, htag, Option.elim, bind, Except.bind, hbytes,
    if_neg (not_lt.mpr hsize)]

/-- A directory in which the binary is the old one or the whole of a download. -/
def OldOrNew (name : String) (d₀ d : InstallDir) : Prop :=
  d name = d₀ name ∨ ∃ tag bytes x, env.fetch = .ok (tag, bytes) ∧ d name = some ⟨bytes, x⟩

theorem not_oldOrNew {name : String} {d₀ d : InstallDir} (hnonempty : ∀ x, d₀ name ≠ some ⟨[], x⟩)
    {x : Bool} (hd : d name = some ⟨[], x⟩) : ¬env.OldOrNew name d₀ d := by
  rintro (hold | ⟨tag, bytes, x', hfetch, hnew⟩)
  · exact hnonempty x (hold.symm.trans hd)
  · obtain ⟨rfl, rfl⟩ := InstalledFile.mk.inj (Option.some.inj (hd.symm.trans hnew))
    exact absurd (env.length_of_fetch hfetch) (by simp)

/-- Wherever the update is cut off, and however it ends. -/
structure Safe (current : DirEntry) (d₀ : InstallDir) : Prop where
  passed : ∀ d ∈ (env.runUpdate d₀).1, env.OldOrNew current.name d₀ d ∧
    ∀ m, m ∉ [current.name, current.withExtension "tmp", testFile] → d m = d₀ m
  failed : ∀ e d, (env.runUpdate d₀).2 = some (.error e, d) → d current.name = d₀ current.name
  updated : ∀ tag version d, (env.runUpdate d₀).2 = some (.ok (tag, version), d) →
    ∃ bytes x, env.fetch = .ok (tag, bytes) ∧ d current.name = some ⟨bytes, x⟩ ∧
      d (current.withExtension "tmp") = none ∧ (x = true ∨ env.Unset)

section Run

variable {parent : String} {current : DirEntry} (hcurrent : env.currentExe = .ok (parent, current))

include hcurrent

theorem keeps_runUpdate {m : String}
    (hm : m ∉ [current.name, current.withExtension "tmp", testFile]) (v : Option InstalledFile) :
    env.runUpdate.Survives (fun d => d m = v) (fun _ d => d m = v) fun d => d m = v := by
  simp only [List.mem_cons, List.not_mem_nil, or_false, not_or] at hm
  obtain ⟨hname, htmp, htest⟩ := hm
  unfold runUpdate
  rw [hcurrent]
  dsimp only
  split
  case isTrue => exact .pure fun d hd => hd
  case isFalse =>
    refine (keeps_write htest _ _).bind fun written => ?_
    cases written with
    | false => exact .pure fun d hd => hd
    | true =>
      refine (keeps_removeFile htest _).bind fun _ => ?_
      cases env.fetch with
      | error e => exact .pure fun d hd => hd
      | ok fetched =>
        refine (env.keeps_replaceBinary hname htmp fetched.2).bind fun r => ?_
        cases r <;> exact .pure fun d hd => hd

theorem binary_runUpdate (htest : current.name ≠ testFile)
    (htmp : current.name ≠ current.withExtension "tmp") (d₀ : InstallDir) :
    env.runUpdate.Survives (fun d => d current.name = d₀ current.name)
      (fun r d => match r with
        | .error _ => d current.name = d₀ current.name
        | .ok (tag, _) => ∃ bytes x, env.fetch = .ok (tag, bytes) ∧
          d current.name = some ⟨bytes, x⟩ ∧ d (current.withExtension "tmp") = none ∧
          (x = true ∨ env.Unset))
      fun d => env.OldOrNew current.name d₀ d := by
  unfold runUpdate
  rw [hcurrent]
  dsimp only
  split
  case isTrue => exact .pure fun d hd => hd
  case isFalse =>
    refine ((keeps_write htest _ _).weaken (fun _ h => h) (fun _ _ h => h)
      fun _ h => .inl h).bind fun written => ?_
    -- the test file, the download and the replacement: until the last, nothing touches the binary
    cases written with
    | false => exact .pure fun d hd => hd
    | true =>
      refine ((keeps_removeFile htest _).weaken (fun _ h => h) (fun _ _ h => h)
        fun _ h => .inl h).bind fun _ => ?_
      cases hfetch : env.fetch with
      | error e => exact .pure fun d hd => hd
      | ok fetched =>
        obtain ⟨tag, bytes⟩ := fetched
        have hreplace := env.binary_replaceBinary htmp bytes (d₀ current.name)
        refine (hreplace.weaken (fun _ h => h) (fun _ _ h => h) ?_).bind fun r => ?_
        · rintro d (hd | ⟨x, hd⟩)
          · exact .inl hd
          · exact .inr ⟨tag, bytes, x, hfetch, hd⟩
        · cases r with
          | error e => exact .pure fun d hd => hd
          | ok _ =>
            refine .pure ?_
            rintro d ⟨x, hd, hgone, hx⟩
            exact ⟨bytes, x, rfl, hd, hgone, hx⟩

theorem safe_of_names (htest : current.name ≠ testFile)
    (htmp : current.name ≠ current.withExtension "tmp") (d₀ : InstallDir) :
    env.Safe current d₀ := by
  obtain ⟨hpassed, hpost⟩ := env.binary_runUpdate hcurrent htest htmp d₀ d₀ rfl
  refine ⟨fun d hd => ⟨hpassed d hd, fun m hm => ?_⟩, ?_, ?_⟩
  · exact (env.keeps_runUpdate hcurrent hm (d₀ m) d₀ rfl).1 d hd
  · exact fun e d hreturn => hpost _ d hreturn
  · exact fun tag version d hreturn => hpost _ d hreturn

end Run

/-! ## The two names -/

/-- All goes well but for the write of the new binary, which breaks off at once. -/
def brokenOff (parent : String) (current : DirEntry) : UpdateEnv where
  currentExe := .ok (parent, current)
  isDir _ := true
  getJson _ := .ok (.object [("tag_name", .string "v0.2.0")])
  getBytes _ := .ok (List.replicate 1000000 0)
  writesTest := .whole
  removesTest := true
  writesTemp := .broken 0
  setsMode := true
  renames := true
  removesUnwritten := true
  removesUnset := true
  removesUnrenamed := true
  version := none

theorem fetch_brokenOff (parent : String) (current : DirEntry) :
    (brokenOff parent current).fetch = .ok ("v0.2.0", List.replicate 1000000 0) := by
  have hjson : (brokenOff parent current).getJson ghApiLatest =
      .ok (.object [("tag_name", .string "v0.2.0")]) := rfl
  apply fetch_eq _ hjson
  · rw [Value.get_singleton]
    rfl
  · rfl
  · rw [List.length_replicate]

theorem runUpdate_brokenOff (parent : String) (current : DirEntry) :
    (brokenOff parent current).runUpdate = (do
      if ← write testFile [] .whole then
        let _ ← removeFile testFile true
        match ← (brokenOff parent current).replaceBinary current.name
          (current.withExtension "tmp") (List.replicate 1000000 0) with
        | .error e => return .error e
        | .ok _ => return .ok ("v0.2.0", "unknown version")
      else return .error (.notWritable parent)) := by
  unfold runUpdate
  rw [fetch_brokenOff]
  rfl

/-- The test file is written over a binary of this name. -/
theorem not_safe_of_test {parent : String} {current : DirEntry} {d₀ : InstallDir}
    (hnonempty : ∀ x, d₀ current.name ≠ some ⟨[], x⟩) (htest : current.name = testFile) :
    ¬(brokenOff parent current).Safe current d₀ := by
  intro hsafe
  have hmem : holding testFile [] d₀ ∈ ((brokenOff parent current).runUpdate d₀).1 := by
    rw [runUpdate_brokenOff]
    exact Eff.mem_bind_left (List.mem_singleton.mpr rfl)
  obtain ⟨x, hcut⟩ : ∃ x, holding testFile [] d₀ current.name = some ⟨[], x⟩ := by
    rw [htest, holding, Function.update_self]
    exact ⟨_, rfl⟩
  exact not_oldOrNew _ hnonempty hcut (hsafe.passed _ hmem).1

/-- The release is written over a binary of this name. -/
theorem not_safe_of_tmp {parent : String} {current : DirEntry} {d₀ : InstallDir}
    (hnonempty : ∀ x, d₀ current.name ≠ some ⟨[], x⟩)
    (htmp : current.name = current.withExtension "tmp") :
    ¬(brokenOff parent current).Safe current d₀ := by
  intro hsafe
  have hremoved : ∃ removed d, (removeFile testFile true (holding testFile [] d₀)).2 =
      some (removed, d) := by
    unfold removeFile
    split
    case isTrue => exact ⟨_, _, rfl⟩
    case isFalse => exact ⟨_, _, rfl⟩
  obtain ⟨removed, d, hremoved⟩ := hremoved
  have hmem : holding (current.withExtension "tmp") [] d ∈
      ((brokenOff parent current).runUpdate d₀).1 := by
    rw [runUpdate_brokenOff]
    have hwritten : (write testFile [] .whole d₀).2 = some (true, holding testFile [] d₀) := rfl
    refine Eff.mem_bind_right hwritten ?_
    refine Eff.mem_bind_right hremoved ?_
    refine Eff.mem_bind_left ?_
    exact Eff.mem_bind_left (List.mem_singleton.mpr rfl)
  obtain ⟨x, hcut⟩ : ∃ x, holding (current.withExtension "tmp") [] d current.name =
      some ⟨[], x⟩ := by
    rw [htmp, holding, Function.update_self]
    exact ⟨_, rfl⟩
  exact not_oldOrNew _ hnonempty hcut (hsafe.passed _ hmem).1

end UpdateEnv

theorem DirEntry.withExtension_eq_name_iff {entry : DirEntry} {extension : String} :
    entry.withExtension extension = entry.name ↔ entry.extension = some extension := by
  have hplain : entry.name ++ "." ++ extension ≠ entry.name := by
    intro h
    have hlength := congrArg String.length h
    rw [String.length_append, String.length_append] at hlength
    have hdot : ".".length = 1 := rfl
    omega
  unfold withExtension fileStem DirEntry.extension split
  split
  case h_1 => simp [hplain]
  case h_2 => simp [hplain]
  case h_3 before after _ hsplit =>
    obtain ⟨hname, -⟩ := Text.rsplitOnce_eq_some.mp hsplit
    have hname' : entry.name = String.ofList before ++ "." ++ String.ofList after := by
      apply String.ext
      simp [hname]
    rw [hname', Option.some_inj]
    constructor
    · intro h
      have hlist := congrArg String.toList h
      simp only [String.toList_append, List.append_cancel_left_eq] at hlist
      exact (String.ext hlist).symm
    · rintro rfl
      rfl

end Pan
