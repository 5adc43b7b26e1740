import Pan.FileCaps
import Pan.StateCaps

namespace Pan

open Fallible

/-- The error is for an argument that is missing or of another type. -/
def ExecError.OfArgument (e : ExecError) : Prop :=
  ∃ key : String, e = ⟨s!"`{key}` must be a string"⟩

def FailsOfArgument {W : Type} (x : Fallible W ExecError Value) (w : W) : Prop :=
  ∃ e w', x.run.run w = some (.error e, w') ∧ e.OfArgument

def HasString (args : Value) (key : String) : Prop := ∃ s, args.get key = some (.string s)

def requiredKeys (schema : Value) : List String :=
  (((schema.get "required").bind Value.asArray).getD []).filterMap Value.asStr

/-- The args pass the validate stage, with a string for each key that the schema requires. -/
def Supplied (cap : Capability) (args : Value) : Prop :=
  minimalSchemaCheck cap.argsSchema args = .ok () ∧
    ∀ key ∈ requiredKeys cap.argsSchema, HasString args key

theorem requiredKeys_requiring (keys : List String) : requiredKeys (requiring keys) = keys := by
  have hkeys : (keys.filterMap fun key => (Value.string key).asStr) = keys :=
    List.filterMap_some
  simp [requiredKeys, requiring, Value.get, Value.asObject, SortedMap.get, Value.asArray, hkeys]

/-! ## Errors of another kind -/

/-- The errors that are not for an argument. -/
def OfOther (e : ExecError) : Prop := ¬e.OfArgument

theorem ofOther_of_unquoted {text : String} (h : SnapshotStore.Unquoted text) :
    OfOther ⟨text⟩ := by
  rintro ⟨key, hkey⟩
  obtain rfl := ExecError.mk.inj hkey
  simp [SnapshotStore.Unquoted, ToString.toString] at h

theorem ofOther_of_getLast {text : String} (h : text.toList.getLast? ≠ some 'g') :
    OfOther ⟨text⟩ := by
  rintro ⟨key, hkey⟩
  obtain rfl := ExecError.mk.inj hkey
  simp [ToString.toString, List.getLast?_cons] at h

theorem jail_ofOther {root rel : String} {e : ExecError} (h : FsCaps.jail root rel = .error e) :
    OfOther e := by
  unfold FsCaps.jail at h
  split_ifs at h
  · obtain rfl := Except.error.inj h
    exact ofOther_of_getLast (by simp [ToString.toString, List.getLast?_cons])
  · split at h
    · rename_i e' hrefused
      obtain rfl := Except.error.inj h
      obtain ⟨c, -, hc⟩ := List.exists_of_findSome?_eq_some hrefused
      -- the texts of the jail end in other words
      cases c <;> cases hc <;>
        exact ofOther_of_getLast (by simp [ToString.toString, List.getLast?_cons])
    · cases h

theorem argStr_ofOther {args : Value} {key : String} (h : HasString args key) {e : ExecError}
    (he : argStr args key = .error e) : OfOther e := by
  obtain ⟨s, hs⟩ := h
  simp [argStr, hs, Value.asStr] at he

theorem argStr_of_not_hasString {args : Value} {key : String} (h : ¬HasString args key) :
    argStr args key = .error ⟨s!"`{key}` must be a string"⟩ := by
  unfold argStr
  split
  · rename_i s hs
    obtain ⟨v, hv, hstr⟩ := Option.bind_eq_some_iff.mp hs
    cases v <;> cases hstr
    exact absurd ⟨s, hv⟩ h
  · rfl

/-! ## `cap.fs` -/

namespace FsCaps

variable {W : Type} {caps : FsCaps} {fs : FileSystem W} {fuel : ℕ} {args : Value}

theorem read_ofOther (path : String) : FailsOnly OfOther (read fs path) := by
  refine .bind (.attempt _ fun e => ofOther_of_unquoted ?_) fun _ => .pure _
  simp [SnapshotStore.Unquoted, ToString.toString]

theorem snapshotBefore_ofOther (path : String) :
    FailsOnly OfOther (caps.snapshotBefore fs path) := by
  unfold snapshotBefore
  cases caps.snapshotStore with
  | none => exact .pure _
  | some store =>
    refine .bind (.lift _) fun b => ?_
    cases b with
    | false => exact .pure _
    | true =>
      exact .bind (.mapErrors SnapshotStore.snapshot_failsOnly fun _ => ofOther_of_unquoted)
        fun _ => .pure _

theorem write_ofOther (h : HasString args "content") (path : String) :
    FailsOnly OfOther (caps.write fs args path) := by
  refine .bind (.result fun _ => argStr_ofOther h) fun content =>
    .bind (.attempt _ fun e => ofOther_of_unquoted ?_) fun _ =>
      .bind (snapshotBefore_ofOther path) fun _ =>
        .bind (.attempt _ fun e => ofOther_of_unquoted ?_) fun _ => .pure _
  all_goals simp [SnapshotStore.Unquoted, ToString.toString]

theorem list_ofOther (path : String) : FailsOnly OfOther (list fs path) := by
  refine .bind (.attempt _ fun e => ofOther_of_unquoted ?_) fun dir =>
    .bind (.result_mapError _ fun e => ofOther_of_unquoted ?_) fun _ => .pure _
  all_goals simp [SnapshotStore.Unquoted, ToString.toString]

theorem glob_ofOther (h : HasString args "pattern") :
    FailsOnly OfOther (caps.glob fs fuel args) :=
  .bind (.result fun _ => argStr_ofOther h) fun _ =>
    .bind (.result fun _ => jail_ofOther) fun _ => .bind (.lift _) fun _ => .pure _

theorem search_ofOther (hquery : HasString args "query") (hpath : HasString args "path") :
    FailsOnly OfOther (caps.search fs fuel args) := by
  refine .bind (.result fun _ => argStr_ofOther hquery) fun query =>
    .bind (.result fun _ => argStr_ofOther hpath) fun path =>
      .bind (.result fun _ => jail_ofOther) fun path => .bind (.lift _) fun b => ?_
  cases b with
  | false => exact .bind (.lift _) fun _ => .pure _
  | true => exact .bind (.lift _) fun _ => .bind (.lift _) fun _ => .pure _

/-- The optional args of an undo are left out when they are of another type. -/
theorem undo_ofOther (path : String) : FailsOnly OfOther (caps.undo fs args path) := by
  unfold undo
  cases caps.snapshotStore with
  | none => exact .throw (ofOther_of_unquoted (by simp [SnapshotStore.Unquoted]))
  | some store =>
    dsimp only
    split_ifs
    · exact .bind (.mapErrors SnapshotStore.list_failsOnly fun _ => ofOther_of_unquoted)
        fun _ => .pure _
    · split
      · exact .bind (.mapErrors SnapshotStore.restore_failsOnly fun _ => ofOther_of_unquoted)
          fun _ => .pure _
      · exact .bind (.mapErrors SnapshotStore.restoreLatest_failsOnly fun _ => ofOther_of_unquoted)
          fun _ => .pure _

theorem requiredKeys_undoSchema : requiredKeys undoSchema = ["path"] := by
  simp [requiredKeys, undoSchema, Value.get, Value.asObject, SortedMap.get, Value.asArray,
    Value.asStr]

/-- With the args that its schema requires and a path a capability fails for no argument. -/
theorem perform_ofOther {cap : Capability} (hcap : cap ∈ capabilities)
    (hargs : ∀ key ∈ requiredKeys cap.argsSchema, HasString args key)
    (hpath : HasString args "path") (path : String) :
    FailsOnly OfOther (caps.perform fs fuel cap.id args path) := by
  simp only [capabilities, List.mem_cons, List.not_mem_nil, or_false] at hcap
  rcases hcap with rfl | rfl | rfl | rfl | rfl | rfl
  · exact read_ofOther path
  · exact write_ofOther (hargs _ (by simp [requiredKeys_requiring])) path
  · exact list_ofOther path
  · exact glob_ofOther (hargs _ (by simp [requiredKeys_requiring]))
  · exact search_ofOther (hargs _ (by simp [requiredKeys_requiring])) hpath
  · exact undo_ofOther path

theorem execute_ofOther {cap : Capability} (hcap : cap ∈ capabilities)
    (hargs : ∀ key ∈ requiredKeys cap.argsSchema, HasString args key)
    (hpath : HasString args "path") :
    FailsOnly OfOther (caps.execute fs fuel cap.id args) :=
  .bind (.result fun _ => argStr_ofOther hpath) fun _ =>
    .bind (.result fun _ => jail_ofOther) fun path => perform_ofOther hcap hargs hpath path

/-- Without a path every capability fails for the path. -/
theorem execute_of_not_hasString {capability : String} (h : ¬HasString args "path") (w : W) :
    FailsOfArgument (caps.execute fs fuel capability args) w := by
  refine ⟨_, w, ?_, "path", rfl⟩
  unfold execute
  rw [argStr_of_not_hasString h]
  rfl

/-- All capabilities but one require a path. -/
theorem path_required {cap : Capability} (hcap : cap ∈ capabilities)
    (hglob : cap.id ≠ "cap.fs.glob") : "path" ∈ requiredKeys cap.argsSchema := by
  simp only [capabilities, List.mem_cons, List.not_mem_nil, or_false] at hcap
  rcases hcap with rfl | rfl | rfl | rfl | rfl | rfl
  case inr.inr.inr.inl => exact absurd rfl hglob
  all_goals simp [requiredKeys_requiring, requiredKeys_undoSchema]

end FsCaps

/-! ## `cap.state` -/

namespace StateCaps

variable {W : Type} {format : StoreFormat} {fs : FileSystem W} {caps : StateCaps} {args : Value}

theorem persist_ofOther (snapshot : Store) :
    FailsOnly OfOther (caps.persist format fs snapshot) := by
  unfold persist
  cases caps.path with
  | none => exact .pure _
  | some path =>
    refine .bind (.result_mapError _ fun e => ofOther_of_unquoted ?_) fun _ =>
      .attempt _ fun e => ofOther_of_unquoted ?_
    all_goals simp [SnapshotStore.Unquoted, ToString.toString]

/-- Whatever the args, a capability that has its key fails for no argument. -/
theorem perform_ofOther (capability key : String) :
    FailsOnly OfOther (caps.perform format fs capability key args) := by
  unfold perform
  split
  · exact .bind (.lift _) fun _ => .bind (persist_ofOther _) fun _ => .pure _
  · exact .bind (.lift _) fun _ => .pure _
  · exact .bind (.lift _) fun _ => .pure _
  · exact .bind (.lift _) fun _ => .bind (persist_ofOther _) fun _ => .pure _
  · exact .bind (.lift _) fun _ => .pure _
  · exact .throw (ofOther_of_unquoted (by simp [SnapshotStore.Unquoted, ToString.toString]))

theorem execute_ofOther {capability : String} (hkey : HasString args "key") :
    FailsOnly OfOther (caps.execute format fs capability args) :=
  .bind (.result fun _ => argStr_ofOther hkey) fun key => perform_ofOther capability key

/-- Without a key every capability fails for the key. -/
theorem execute_of_not_hasString {capability : String} (h : ¬HasString args "key")
    (w : StateWorld W) : FailsOfArgument (caps.execute format fs capability args) w := by
  refine ⟨_, w, ?_, "key", rfl⟩
  unfold execute
  rw [argStr_of_not_hasString h]
  rfl

/-- All capabilities but two require a key. -/
theorem key_required {cap : Capability} (hcap : cap ∈ capabilities)
    (hlist : cap.id ∉ ["cap.state.list", "cap.state.namespaces"]) :
    "key" ∈ requiredKeys cap.argsSchema := by
  simp only [capabilities, List.mem_cons, List.not_mem_nil, or_false] at hcap
  rcases hcap with rfl | rfl | rfl | rfl | rfl
  case inr.inr.inl => exact absurd (by decide) hlist
  case inr.inr.inr.inr => exact absurd (by decide) hlist
  all_goals simp [requiredKeys_requiring]

end StateCaps

theorem not_failsOfArgument {W : Type} {x : Fallible W ExecError Value}
    (h : FailsOnly OfOther x) (w : W) : ¬FailsOfArgument x w := by
  rintro ⟨e, w', hrun, hargument⟩
  exact h w e w' hrun hargument

/-- Of a request that its schema lets pass, with a string for each key that the schema requires: it
fails for no argument exactly if it is no `glob` without a path, and no `list` or `namespaces`
without a key. -/
theorem schemas_agree_iff {W : Type} (fs : FileSystem W) :
    (∀ (caps : FsCaps) (fuel : ℕ) (cap : Capability) (args : Value) (w : W),
      cap ∈ FsCaps.capabilities → Supplied cap args →
        (¬FailsOfArgument (caps.execute fs fuel cap.id args) w ↔
          (cap.id = "cap.fs.glob" → HasString args "path"))) ∧
    ∀ (format : StoreFormat) (caps : StateCaps) (cap : Capability) (args : Value)
      (w : StateWorld W), cap ∈ StateCaps.capabilities → Supplied cap args →
        (¬FailsOfArgument (caps.execute format fs cap.id args) w ↔
          (cap.id ∈ ["cap.state.list", "cap.state.namespaces"] → HasString args "key")) := by
  constructor
  · rintro caps fuel cap args w hcap ⟨-, hargs⟩
    constructor
    · intro hfine _
      by_contra hpath
      exact hfine (FsCaps.execute_of_not_hasString hpath w)
    · intro hglob
      have hpath : HasString args "path" := by
        by_cases hid : cap.id = "cap.fs.glob"
        · exact hglob hid
        · exact hargs _ (FsCaps.path_required hcap hid)
      exact not_failsOfArgument (FsCaps.execute_ofOther hcap hargs hpath) w
  · rintro format caps cap args w hcap ⟨-, hargs⟩
    constructor
    · intro hfine _
      by_contra hkey
      exact hfine (StateCaps.execute_of_not_hasString hkey w)
    · intro hlist
      have hkey : HasString args "key" := by
        by_cases hid : cap.id ∈ ["cap.state.list", "cap.state.namespaces"]
        · exact hlist hid
        · exact hargs _ (StateCaps.key_required hcap hid)
      exact not_failsOfArgument (StateCaps.execute_ofOther hkey) w

def noFiles : FileSystem Unit where
  readToString _ := return .error "entity not found"
  read _ := return .error "entity not found"
  write _ _ := return .error "entity not found"
  createDirAll _ := return .error "permission denied"
  readDir _ := return .error "entity not found"
  pathExists _ := return false
  isDir _ := return false
  isFile _ := return false
  now := return 0

/-- Keys in ascending order, and maps that are neither printed nor read. -/
def ascendingFormat : StoreFormat where
  keys store := store.map Prod.fst
  keys_perm _ := .rfl
  toStringPretty _ := .error "unsupported"
  fromStr _ := none

theorem list_demands_a_key :
    (∃ cap ∈ StateCaps.capabilities, cap.id = "cap.state.list" ∧ Supplied cap (.object []) ∧
      FailsOfArgument
        ((⟨none⟩ : StateCaps).execute ascendingFormat noFiles cap.id (.object [])) ⟨[], ()⟩) ∧
    ∃ cap ∈ FsCaps.capabilities, cap.id = "cap.fs.glob" ∧
      Supplied cap (.object [("pattern", .string "*.txt")]) ∧
      FailsOfArgument ((⟨"root", none⟩ : FsCaps).execute noFiles 1 cap.id
        (.object [("pattern", .string "*.txt")])) () := by
  have hkey : ¬HasString (.object []) "key" := by
    rintro ⟨s, hs⟩
    cases hs
  have hpath : ¬HasString (.object [("pattern", .string "*.txt")]) "path" := by
    rintro ⟨s, hs⟩
    simp [Value.get, Value.asObject, SortedMap.get] at hs
  have hpattern : HasString (.object [("pattern", .string "*.txt")]) "pattern" :=
    ⟨"*.txt", Value.get_singleton "pattern" _⟩
  refine ⟨⟨_, .tail _ (.tail _ (.head _)), rfl, ⟨rfl, ?_⟩,
      StateCaps.execute_of_not_hasString hkey _⟩,
    ⟨_, .tail _ (.tail _ (.tail _ (.head _))), rfl, ⟨rfl, ?_⟩,
      FsCaps.execute_of_not_hasString hpath _⟩⟩
  · simp [requiredKeys, Value.get, Value.asObject, SortedMap.get]
  · simpa [requiredKeys_requiring] using hpattern

end Pan
