import Pan.Library.Machine
import Pan.SchemaAgreement

namespace Pan

open Fallible StateCaps StateWorld

inductive Change where
  | set (key : String) (value : Value)
  | delete (key : String)

namespace Change

def apply : Change → Store → Store
  | set key value => SortedMap.insert key value
  | delete key => List.filter fun p => p.1 ≠ key

/-- The change that a call asks for. The calls that only read ask for none. -/
def ofCall (capability key : String) (args : Value) : Option Change :=
  match capability with
  | "cap.state.set" => some (.set key ((args.get "value").getD .null))
  | "cap.state.delete" => some (.delete key)
  | _ => none

def Done : Change → Store → Prop
  | set key value, store => SortedMap.get key store = some value
  | delete key, store => SortedMap.get key store = none

theorem ascending_apply (change : Change) {store : Store} (h : SortedMap.Ascending store) :
    SortedMap.Ascending (change.apply store) := by
  cases change with
  | set key value => exact SortedMap.ascending_insert key value h
  | delete key => exact SortedMap.ascending_filter _ h

theorem apply_eq_self (change : Change) {store : Store} (h : SortedMap.Ascending store) :
    change.apply store = store ↔ change.Done store := by
  cases change with
  | set key value => exact SortedMap.insert_eq_self h
  | delete key => exact SortedMap.filter_ne_eq_self

end Change

variable {W : Type} {format : StoreFormat} {fs : FileSystem W} {caps : StateCaps}

/-! ## The calls, one by one -/

/-- Writing a copy of the map leaves the map alone. -/
theorem StateCaps.persist_store {snapshot : Store} {w w' : StateWorld W}
    {r : Except ExecError Unit} (h : (caps.persist format fs snapshot).run.run w = some (r, w')) :
    w'.store = w.store := by
  have hkeeps : Keeps StateWorld.store (caps.persist format fs snapshot) := by
    unfold persist
    split
    · refine .bind (.result _) fun json => .attempt fun w r w' hwrite => ?_
      obtain ⟨r', -, heq⟩ := Option.map_eq_some_iff.mp hwrite
      cases heq
      rfl
    · exact .pure _
  exact hkeeps w r w' h

/-- A call that changes the map changes it, writes a copy to the file, and answers `ok`. -/
theorem StateCaps.run_of_change {capability key : String} {args : Value} {change : Change}
    (hkey : argStr args "key" = .ok key) (hchange : Change.ofCall capability key args = some change)
    (w : StateWorld W) :
    (caps.execute format fs capability args).run.run w =
      ((caps.persist format fs (change.apply w.store)).run.run
        ⟨change.apply w.store, w.outside⟩).map fun r =>
          (r.1.map fun _ => .object [("ok", .bool true)], r.2) := by
  have hwrite : (caps.execute format fs capability args).run.run w =
      (do caps.persist format fs (change.apply w.store); return .object [("ok", .bool true)] :
        Fallible (StateWorld W) ExecError Value).run.run
          ⟨change.apply w.store, w.outside⟩ := by
    unfold execute Change.ofCall at *
    rw [hkey]
    split at hchange <;> cases hchange <;> rfl
  rw [hwrite, run_bind]
  cases (caps.persist format fs (change.apply w.store)).run.run
      ⟨change.apply w.store, w.outside⟩ with
  | none => rfl
  | some r =>
    obtain ⟨e | _, w'⟩ := r <;> rfl

theorem StateCaps.run_of_missing_key {capability : String} {args : Value} {e : ExecError}
    (hkey : argStr args "key" = .error e) (w : StateWorld W) :
    (caps.execute format fs capability args).run.run w = some (.error e, w) := by
  unfold execute
  rw [hkey]
  rfl

/-- The calls that only read leave the map and the file alone. -/
theorem StateCaps.run_of_no_change {capability key : String} {args : Value}
    (hkey : argStr args "key" = .ok key) (hchange : Change.ofCall capability key args = none)
    (w : StateWorld W) :
    ∃ r, (caps.execute format fs capability args).run.run w = some (r, w) := by
  unfold execute perform Change.ofCall at *
  rw [hkey]
  split at hchange <;> cases hchange
  rename_i hset hdelete
  split <;> first | exact absurd rfl hset | exact absurd rfl hdelete | exact ⟨_, rfl⟩

/-- The map stays one. -/
theorem StateCaps.ascending_execute {capability : String} {args : Value} {w w' : StateWorld W}
    {r : Except ExecError Value} (hw : SortedMap.Ascending w.store)
    (h : (caps.execute format fs capability args).run.run w = some (r, w')) :
    SortedMap.Ascending w'.store := by
  cases hkey : argStr args "key" with
  | error e =>
    rw [run_of_missing_key hkey] at h
    cases h
    exact hw
  | ok key =>
    cases hchange : Change.ofCall capability key args with
    | none =>
      have hrun : ∃ r, (caps.execute format fs capability args).run.run w = some (r, w) :=
        run_of_no_change hkey hchange w
      obtain ⟨r', hr'⟩ := hrun
      rw [hr'] at h
      cases h
      exact hw
    | some change =>
      rw [run_of_change hkey hchange] at h
      obtain ⟨⟨r', w''⟩, hpersist, heq⟩ := Option.map_eq_some_iff.mp h
      cases heq
      rw [persist_store hpersist]
      exact change.ascending_apply hw

/-! ## What the readers see -/

def StateCaps.readers : List String := ["cap.state.get", "cap.state.list", "cap.state.namespaces"]

def StateCaps.answer (format : StoreFormat) (fs : FileSystem W) (caps : StateCaps)
    (capability : String) (args : Value) (w : StateWorld W) :
    Option (Except ExecError Value) :=
  ((caps.execute format fs capability args).run.run w).map Prod.fst

/-- No call that reads the map can tell the two worlds apart. -/
def StateCaps.Unnoticed (format : StoreFormat) (fs : FileSystem W) (caps : StateCaps)
    (w w' : StateWorld W) : Prop :=
  ∀ capability ∈ readers, ∀ args,
    caps.answer format fs capability args w' = caps.answer format fs capability args w

theorem StateCaps.answer_congr {capability : String} (h : capability ∈ readers) (args : Value)
    {w w' : StateWorld W} (hstore : w'.store = w.store) :
    caps.answer format fs capability args w' = caps.answer format fs capability args w := by
  obtain ⟨store, outside⟩ := w
  obtain ⟨_, outside'⟩ := w'
  obtain rfl := hstore
  unfold answer
  cases hkey : argStr args "key" with
  | error e => rw [run_of_missing_key hkey, run_of_missing_key hkey]; rfl
  | ok key =>
    unfold execute
    rw [hkey]
    simp only [readers, List.mem_cons, List.not_mem_nil, or_false] at h
    rcases h with rfl | rfl | rfl <;> rfl

def keyArgs (key : String) : Value := .object [("key", .string key)]

theorem StateCaps.answer_get (key : String) (w : StateWorld W) :
    caps.answer format fs "cap.state.get" (keyArgs key) w =
      some (.ok (.object [("value", (SortedMap.get key w.store).getD .null)])) := rfl

theorem StateCaps.answer_list (key : String) (w : StateWorld W) :
    caps.answer format fs "cap.state.list" (keyArgs key) w =
      some (.ok (.object [("keys", .array ((format.keys w.store).map .string))])) := rfl

/-- The readers see the whole map: its keys, and the value under each. -/
theorem StateCaps.unnoticed_iff {w w' : StateWorld W} (hw : SortedMap.Ascending w.store)
    (hw' : SortedMap.Ascending w'.store) :
    caps.Unnoticed format fs w w' ↔ w'.store = w.store := by
  constructor
  · intro h
    have hlist := h "cap.state.list" (by decide) (keyArgs "")
    have hget := fun key => h "cap.state.get" (by decide) (keyArgs key)
    simp only [answer_list, answer_get, Option.some.injEq, Except.ok.injEq, Value.object.injEq,
      List.cons.injEq, Prod.mk.injEq, Value.array.injEq, true_and, and_true] at hlist hget
    -- the list gives the keys, and each `get` the value of its key
    have hkeys : format.keys w'.store = format.keys w.store :=
      List.map_injective_iff.mpr (fun _ _ => Value.string.inj) hlist
    have hmem : ∀ key,
        (SortedMap.get key w'.store).isSome ↔ (SortedMap.get key w.store).isSome := by
      intro key
      rw [SortedMap.isSome_get, SortedMap.isSome_get, ← (format.keys_perm w'.store).mem_iff,
        ← (format.keys_perm w.store).mem_iff, hkeys]
    refine SortedMap.ext_of_get hw' hw fun key => ?_
    have hvalue := hget key
    cases hnew : SortedMap.get key w'.store with
    | none =>
      have hnone : (SortedMap.get key w.store).isSome = false := by
        have := (hmem key).not
        simpa [hnew] using this
      rw [Option.isSome_eq_false_iff, Option.isNone_iff_eq_none] at hnone
      exact hnone.symm
    | some value =>
      obtain ⟨value', hold⟩ := Option.isSome_iff_exists.mp ((hmem key).mp (by rw [hnew]; rfl))
      rw [hnew, hold] at hvalue
      rw [hold]
      exact congrArg some hvalue
  · intro h capability hcapability args
    exact answer_congr hcapability args h

/-! ## Failed writes -/

def StateCaps.CannotPersist (format : StoreFormat) (fs : FileSystem W) (caps : StateCaps)
    (store : Store) (outside : W) : Prop :=
  ∃ path, caps.path = some path ∧ ((∃ e, format.toStringPretty store = .error e) ∨
    ∃ json e outside', format.toStringPretty store = .ok json ∧
      (fs.write path json.toUTF8).run outside = some (.error e, outside'))

theorem StateCaps.persist_fails_iff {snapshot : Store} {w : StateWorld W} :
    (∃ e w', (caps.persist format fs snapshot).run.run w = some (.error e, w')) ↔
      caps.CannotPersist format fs snapshot w.outside := by
  obtain ⟨_ | path⟩ := caps
  · constructor
    · rintro ⟨e, w', h⟩
      cases h
    · rintro ⟨path, hpath, -⟩
      cases hpath
  cases hjson : format.toStringPretty snapshot with
  | error e =>
    refine iff_of_true ?_ ⟨path, rfl, .inl ⟨e, hjson⟩⟩
    refine ⟨⟨s!"serializing state: {e}"⟩, w, ?_⟩
    unfold persist
    dsimp only
    rw [hjson]
    rfl
  | ok json =>
    -- with the text at hand, `persist` is the one write
    have hrun : ((⟨some path⟩ : StateCaps).persist format fs snapshot).run.run w =
        ((fs.write path json.toUTF8).run w.outside).map fun r =>
          (r.1.mapError fun e => ⟨s!"persisting state: {e}"⟩, { w with outside := r.2 }) := by
      unfold persist
      dsimp only
      rw [hjson]
      change (attempt _ (outsideOf _)).run.run w = _
      rw [run_attempt]
      exact Option.map_map _ _ _
    rw [hrun]
    constructor
    · rintro ⟨e, w', h⟩
      obtain ⟨⟨e' | _, outside'⟩, hwrite, heq⟩ := Option.map_eq_some_iff.mp h
      · exact ⟨path, rfl, .inr ⟨json, e', outside', hjson, hwrite⟩⟩
      · cases heq
    · rintro ⟨path', hpath, ⟨e, he⟩ | ⟨json', e, outside', hjson', hwrite⟩⟩
      · rw [hjson] at he
        cases he
      · obtain rfl := Option.some.inj hpath
        rw [hjson] at hjson'
        obtain rfl := Except.ok.inj hjson'
        exact ⟨_, _, by rw [hwrite]; rfl⟩

/-- A set or a delete that fails leaves no trace that a later read could see. -/
def StateCaps.Atomic (format : StoreFormat) (fs : FileSystem W) (caps : StateCaps)
    (call : String × Value) (w : StateWorld W) : Prop :=
  call.1 ∈ ["cap.state.set", "cap.state.delete"] → ∀ e w',
    (caps.execute format fs call.1 call.2).run.run w = some (.error e, w') →
      caps.Unnoticed format fs w w'

/-- Where the changed map cannot be written to the file, the change changes nothing. -/
def StateCaps.Harmless (format : StoreFormat) (fs : FileSystem W) (caps : StateCaps)
    (call : String × Value) (w : StateWorld W) : Prop :=
  ∀ key change, argStr call.2 "key" = .ok key → Change.ofCall call.1 key call.2 = some change →
    caps.CannotPersist format fs (change.apply w.store) w.outside → change.Done w.store

theorem Change.isSome_ofCall {capability key : String} {args : Value} :
    (Change.ofCall capability key args).isSome ↔
      capability ∈ ["cap.state.set", "cap.state.delete"] := by
  unfold ofCall
  split
  · simp
  · simp
  · rename_i hset hdelete
    simpa using ⟨hset, hdelete⟩

theorem StateCaps.atomic_iff {call : String × Value} {w : StateWorld W}
    (hw : SortedMap.Ascending w.store) :
    caps.Atomic format fs call w ↔ caps.Harmless format fs call w := by
  obtain ⟨capability, args⟩ := call
  unfold Atomic Harmless
  cases hkey : argStr args "key" with
  | error e =>
    refine iff_of_true (fun _ e' w' h => ?_) fun _ _ h => by cases h
    rw [run_of_missing_key hkey] at h
    cases h
    exact fun _ _ _ => rfl
  | ok key =>
    cases hchange : Change.ofCall capability key args with
    | none =>
      refine iff_of_true (fun hmem => ?_) fun _ _ hk h => ?_
      · have hsome : (Change.ofCall capability key args).isSome := Change.isSome_ofCall.mpr hmem
        simp [hchange] at hsome
      · obtain rfl := Except.ok.inj hk
        rw [hchange] at h
        cases h
    | some change =>
      -- from here on the call is a `set` or a `delete` that has its key
      have hmem : capability ∈ ["cap.state.set", "cap.state.delete"] :=
        Change.isSome_ofCall.mp (by rw [hchange]; rfl)
      rw [run_of_change hkey hchange]
      constructor
      · intro hatomic key' change' hkey' hchange' hcannot
        obtain rfl := Except.ok.inj hkey'
        obtain rfl := Option.some.inj (hchange.symm.trans hchange')
        obtain ⟨e, w', hfails⟩ := (persist_fails_iff
          (w := ⟨change.apply w.store, w.outside⟩)).mpr hcannot
        have hstore : w'.store = change.apply w.store := persist_store hfails
        -- a failed call that no reader notices has left the store as it was
        have hunnoticed := hatomic hmem e w' (by rw [hfails]; rfl)
        have hsame := (unnoticed_iff hw (hstore ▸ change.ascending_apply hw)).mp hunnoticed
        exact (change.apply_eq_self hw).mp (hstore.symm.trans hsame)
      · intro hharmless _ e w' h
        obtain ⟨⟨r, w''⟩, hpersist, heq⟩ := Option.map_eq_some_iff.mp h
        cases r with
        | ok u => cases heq
        | error e' =>
          obtain ⟨-, hworld⟩ := Prod.mk.inj heq
          subst hworld
          have hcannot := persist_fails_iff.mp ⟨e', w'', hpersist⟩
          have hdone := hharmless key change rfl hchange hcannot
          have hstore : w''.store = change.apply w.store := persist_store hpersist
          exact fun reader hreader args => answer_congr hreader args
            (hstore.trans ((change.apply_eq_self hw).mpr hdone))

/-! ## Runs of calls -/

/-- The store under one call after another. A call that never returns leaves no state behind. -/
def StateCaps.calls (format : StoreFormat) (fs : FileSystem W) (caps : StateCaps)
    (w : StateWorld W) : Machine (Option (StateWorld W)) (String × Value) where
  init := some w
  step s call := s.bind fun w => ((caps.execute format fs call.1 call.2).run.run w).map Prod.snd

theorem StateCaps.ascending_calls {w : StateWorld W} (hw : SortedMap.Ascending w.store)
    (es : List (String × Value)) :
    ∀ w' ∈ (caps.calls format fs w).reached es, SortedMap.Ascending w'.store := by
  refine (caps.calls format fs w).invariant
    (I := fun _ s => ∀ w' ∈ s, SortedMap.Ascending w'.store) ?_ (fun _ s call hs w' hw' => ?_) es
  · intro w' hw'
    cases hw'
    exact hw
  · obtain ⟨w₀, hw₀, hcall⟩ := Option.bind_eq_some_iff.mp hw'
    obtain ⟨⟨r, w''⟩, hrun, heq⟩ := Option.map_eq_some_iff.mp hcall
    cases heq
    exact ascending_execute (hs w₀ hw₀) hrun

/-- The text of a map with one entry, where nothing has to be escaped. -/
def entryText (key value : String) : String :=
  "\x7b\n  \"" ++ key ++ "\": \"" ++ value ++ "\"\n\x7d"

theorem perm_keys (store : List (String × Value)) :
    (store.map Prod.fst).Perm (store.map Prod.fst) := .rfl

def entryFormat : StoreFormat where
  keys store := store.map Prod.fst
  keys_perm := perm_keys
  toStringPretty
    | [] => .ok "\x7b\x7d"
    | [(key, .string value)] => .ok (entryText key value)
    | _ => .error "unsupported"
  fromStr text :=
    if text = "\x7b\x7d" then some []
    else match (text.toList.splitOn '"').map String.ofList with
      | [_, key, _, value, _] =>
        if text = entryText key value then some [(key, .string value)] else none
      | _ => none

def setArgs (key value : String) : Value :=
  .object [("key", .string key), ("value", .string value)]

/-- In a run of calls on a store, every set and delete that fails goes unnoticed by later reads
exactly if each of those that could not be written to the file had nothing to change. -/
theorem failed_writes_unnoticed_iff (format : StoreFormat) (fs : FileSystem W) (caps : StateCaps)
    (w : StateWorld W) (hw : SortedMap.Ascending w.store) (es : List (String × Value)) :
    (caps.calls format fs w).Guarded
        (fun s call => ∀ w' ∈ s, caps.Atomic format fs call w') es ↔
      (caps.calls format fs w).Guarded
        (fun s call => ∀ w' ∈ s, caps.Harmless format fs call w') es := by
  refine Machine.guarded_congr (fun es call => ?_) es
  exact forall₂_congr fun w' hw' => atomic_iff (ascending_calls hw es w' hw')

/-- A set that cannot be written to the file fails, and `cap.state.list` lists its key. -/
theorem failed_set_is_listed :
    ¬((⟨some "state.json"⟩ : StateCaps).calls entryFormat noFiles ⟨[], ()⟩).Guarded
      (fun s call => ∀ w' ∈ s, (⟨some "state.json"⟩ : StateCaps).Atomic entryFormat noFiles call w')
      [("cap.state.set", setArgs "k" "1")] := by
  intro h
  have hatomic := h [] ("cap.state.set", setArgs "k" "1") [] rfl ⟨[], ()⟩ rfl
  have hlist := hatomic (by decide) ⟨"persisting state: entity not found"⟩
    ⟨[("k", .string "1")], ()⟩ rfl "cap.state.list" (by decide) (keyArgs "")
  rw [StateCaps.answer_list, StateCaps.answer_list] at hlist
  simp [entryFormat] at hlist

theorem failed_writes_unnoticed_iff_set :
    ((⟨some "state.json"⟩ : StateCaps).calls entryFormat noFiles ⟨[], ()⟩).Guarded
        (fun s call => ∀ w' ∈ s,
          (⟨some "state.json"⟩ : StateCaps).Atomic entryFormat noFiles call w')
        [("cap.state.set", setArgs "k" "1")] ↔
      ((⟨some "state.json"⟩ : StateCaps).calls entryFormat noFiles ⟨[], ()⟩).Guarded
        (fun s call => ∀ w' ∈ s,
          (⟨some "state.json"⟩ : StateCaps).Harmless entryFormat noFiles call w')
        [("cap.state.set", setArgs "k" "1")] :=
  failed_writes_unnoticed_iff entryFormat noFiles ⟨some "state.json"⟩ ⟨[], ()⟩ List.Pairwise.nil
    [("cap.state.set", setArgs "k" "1")]

end Pan
