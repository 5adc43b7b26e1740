import Pan.FileSystem
import Pan.Library.Effects
import Pan.Library.Shell
import Pan.Transcript

namespace Pan

namespace Path

/-- `Path::file_name` -/
def fileName (path : String) : Option (List Char) :=
  match (components path).getLast? with
  | some (.normal name) => some name
  | _ => none

/-- `Path::extension`: what follows the last dot. A dot in front begins no extension. -/
def extension (path : String) : Option String := do
  let name ← fileName path
  let (before, after) ← Text.rsplitOnce '.' name
  if before = [] then none else some (String.ofList after)

end Path

namespace FormatCaps

def formatter (path : String) : Option String :=
  match Path.extension path with
  | some "rs" => some "rustfmt"
  | some "js" | some "ts" | some "jsx" | some "tsx" => some "npx prettier --write"
  | some "json" | some "jsonc" => some "npx prettier --write"
  | some "md" => some "npx prettier --write"
  | some "yaml" | some "yml" => some "npx prettier --write"
  | some "css" | some "scss" | some "less" => some "npx prettier --write"
  | some "py" => some "ruff format"
  | some "go" => some "gofmt"
  | some "toml" => some "taplo format"
  | _ => none

structure Command where
  program : String
  args : List String

/-- Whether a program did well, and how this is put. -/
structure ExitStatus where
  success : Bool
  text : String

section Running

variable (exits : ℕ → Except String ExitStatus)

/-- `Command::status`. Nothing is started with a NUL in an argument. -/
def status (command : Command) : Eff Command ℕ (Except String ExitStatus) :=
  if command.args.any fun arg => arg.toList.contains (Char.ofNat 0) then
    return .error "nul byte found in provided data"
  else do
    Eff.emit command
    Eff.ask fun n => (exits n, n + 1)

def execute (args : Value) : Eff Command ℕ (Except ExecError Value) :=
  match (args.get "path").bind Value.asStr with
  | none => return .error ⟨"`path` must be a string"⟩
  | some path =>
    match formatter path with
    | none => return .error ⟨s!"no formatter registered for `{path}`"⟩
    | some formatter => do
      match ← status exits ⟨"sh", ["-c", s!"{formatter} {path}"]⟩ with
      | .error e => return .error ⟨s!"failed to run formatter: {e}"⟩
      | .ok status =>
        return if status.success then .ok (Value.ofFields [("formatted", .string path)])
          else .error ⟨s!"{formatter} {path} exited with {status.text}"⟩

end Running

/-- The shell is started once, on a line that it reads as the words of the formatter and the path
behind them. -/
def RunsFormatter (formatter path : String) (started : List Command) : Prop :=
  ∃ line : String, started = [⟨"sh", ["-c", line]⟩] ∧
    Shell.simpleCommand line.toList = some (formatter.toList.splitOn ' ' ++ [path.toList])

variable {path f : String}

theorem mem_formatters (h : formatter path = some f) :
    f ∈ ["rustfmt", "npx prettier --write", "ruff format", "gofmt", "taplo format"] := by
  unfold formatter at h
  split at h <;> cases h <;> decide

/-- A formatter is a command of words that stand for themselves. -/
theorem exists_words (h : formatter path = some f) : ∃ name names,
    f.toList.splitOn ' ' = name :: names ∧ (∀ n ∈ name :: names, Shell.Literal n) ∧
      (name ∉ Shell.reservedWords ∧ '=' ∉ name) ∧
      ∀ l, f.toList ++ ' ' :: l = Shell.before (name :: names) l := by
  have hf := mem_formatters h
  simp only [List.mem_cons, List.not_mem_nil, or_false] at hf
  rcases hf with rfl | rfl | rfl | rfl | rfl
  · exact ⟨"rustfmt".toList, [], by decide, by decide, by decide, fun _ => rfl⟩
  · exact ⟨"npx".toList, ["prettier".toList, "--write".toList], by decide, by decide, by decide,
      fun _ => rfl⟩
  · exact ⟨"ruff".toList, ["format".toList], by decide, by decide, by decide, fun _ => rfl⟩
  · exact ⟨"gofmt".toList, [], by decide, by decide, by decide, fun _ => rfl⟩
  · exact ⟨"taplo".toList, ["format".toList], by decide, by decide, by decide, fun _ => rfl⟩

theorem toList_line (f path : String) :
    (s!"{f} {path}").toList = f.toList ++ ' ' :: path.toList := by
  change (f ++ " " ++ path).toList = _
  simp

theorem status_started (exits : ℕ → Except String ExitStatus) (command : Command) (n : ℕ) :
    (status exits command n).1 =
      if command.args.any fun arg => arg.toList.contains (Char.ofNat 0) then []
      else [command] := by
  unfold status
  split_ifs <;> rfl

theorem execute_started (hf : formatter path = some f) {args : Value}
    (hargs : (args.get "path").bind Value.asStr = some path)
    (exits : ℕ → Except String ExitStatus) (n : ℕ) :
    (execute exits args n).1 =
      if Char.ofNat 0 ∈ path.toList then [] else [⟨"sh", ["-c", s!"{f} {path}"]⟩] := by
  have hnul : (["-c", s!"{f} {path}"].any fun arg => arg.toList.contains (Char.ofNat 0)) = true ↔
      Char.ofNat 0 ∈ path.toList := by
    have hformatters : ∀ g ∈ ["rustfmt", "npx prettier --write", "ruff format", "gofmt",
        "taplo format"], Char.ofNat 0 ∉ g.toList := by decide
    have hno := hformatters f (mem_formatters hf)
    have hflag : Char.ofNat 0 ∉ "-c".toList := by decide
    have hspace : Char.ofNat 0 ≠ ' ' := by decide
    simp only [List.any_cons, List.any_nil, Bool.or_false, Bool.or_eq_true, List.contains_iff_mem,
      toList_line, List.mem_append, List.mem_cons]
    constructor
    · rintro (h | h | h | h)
      · exact absurd h hflag
      · exact absurd h hno
      · exact absurd h hspace
      · exact h
    · exact fun hpath => Or.inr (Or.inr (Or.inr hpath))
  unfold execute
  rw [hargs]
  dsimp only
  rw [hf]
  dsimp only
  rw [Eff.actions_bind_of_silent, status_started]
  · dsimp only
    simp only [hnul]
  · rintro (e | status) w <;> rfl

/-- For a file with a formatter, the shell runs it on the path exactly if the path stands for
itself in a command line. -/
theorem runsFormatter_iff (hf : formatter path = some f) {args : Value}
    (hargs : (args.get "path").bind Value.asStr = some path)
    (exits : ℕ → Except String ExitStatus) (n : ℕ) :
    RunsFormatter f path (execute exits args n).1 ↔
      Char.ofNat 0 ∉ path.toList ∧ Shell.Literal path.toList := by
  obtain ⟨name, names, hwords, hnames, hname, hbefore⟩ := exists_words hf
  have hline : (s!"{f} {path}").toList = Shell.before (name :: names) path.toList := by
    rw [← hbefore, toList_line]
  rw [execute_started hf hargs, RunsFormatter, hwords]
  by_cases hnul : Char.ofNat 0 ∈ path.toList
  · rw [if_pos hnul]
    exact iff_of_false (by simp) fun h => h.1 hnul
  · rw [if_neg hnul, and_iff_right hnul, ← Shell.simpleCommand_append_iff hnames hname, ← hline]
    constructor
    · rintro ⟨line, hstarted, hread⟩
      obtain rfl : s!"{f} {path}" = line := by simpa using hstarted
      exact hread
    · exact fun hread => ⟨_, rfl, hread⟩

theorem runsFormatter_iff_main :
    RunsFormatter "rustfmt" "src/main.rs"
      (execute (fun _ => .ok ⟨true, "exit status: 0"⟩) (.object [("path", .string "src/main.rs")])
        0).1 :=
  (runsFormatter_iff (by decide) rfl _ 0).mpr ⟨by decide, by decide⟩

/-- A path with a command of its own. -/
theorem not_runsFormatter_reboot :
    formatter "a;reboot;.rs" = some "rustfmt" ∧
      ¬RunsFormatter "rustfmt" "a;reboot;.rs"
        (execute (fun _ => .ok ⟨true, "exit status: 0"⟩)
          (.object [("path", .string "a;reboot;.rs")]) 0).1 := by
  have hf : formatter "a;reboot;.rs" = some "rustfmt" := by decide
  have hnul : Char.ofNat 0 ∉ "a;reboot;.rs".toList := by decide
  have hnone : Shell.simpleCommand ("rustfmt".toList ++ ' ' :: "a;reboot;.rs".toList) = none := by
    decide
  refine ⟨hf, ?_⟩
  rintro ⟨line, hstarted, hread⟩
  rw [execute_started hf rfl, if_neg hnul] at hstarted
  obtain rfl : _ = line := by simpa using hstarted
  rw [toList_line, hnone] at hread
  cases hread

end FormatCaps

end Pan
