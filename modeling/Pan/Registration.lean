import Pan.Conversation
import Mathlib.Data.List.Nodup

namespace Pan

namespace CapabilityRegistry

/-- Exactly the capabilities of the list, each under its id. -/
structure HoldsExactly (r : CapabilityRegistry) (caps : List Capability) : Prop where
  lookup : ∀ id cap, r.lookup id = some cap ↔ cap ∈ caps ∧ cap.id = id
  all : r.all.Perm caps

variable {r r' : CapabilityRegistry} {caps : List Capability}

theorem register_ok_iff {cap : Capability} :
    r.register cap = .ok r' ↔ r.lookup cap.id = none ∧ r.insert cap = r' := by
  unfold register
  rcases r.lookup cap.id with _ | taken
  · exact ⟨fun h => ⟨rfl, Except.ok.inj h⟩, fun h => congrArg Except.ok h.2⟩
  · exact iff_of_false (fun h => nomatch h) fun h => nomatch h.1

theorem register_error_iff {cap : Capability} {e : ConflictError} :
    r.register cap = .error e ↔ (r.lookup cap.id).isSome ∧ ⟨cap.id⟩ = e := by
  unfold register
  rcases r.lookup cap.id with _ | taken
  · exact iff_of_false (fun h => nomatch h) fun h => nomatch h.1
  · exact ⟨fun h => ⟨rfl, Except.error.inj h⟩, fun h => congrArg Except.error h.2⟩

/-- A registration that goes through met no id twice, and adds the list to what was there. -/
theorem foldlM_register_ok (h : caps.foldlM register r = .ok r') :
    (caps.map (·.id)).Nodup ∧ (∀ cap ∈ caps, r.lookup cap.id = none) ∧
      ∀ id cap, r'.lookup id = some cap ↔ r.lookup id = some cap ∨ cap ∈ caps ∧ cap.id = id := by
  induction caps generalizing r with
  | nil =>
    cases h
    simp
  | cons first caps ih =>
    rw [List.foldlM_cons] at h
    rcases hfirst : r.register first with e | next
    · rw [hfirst] at h
      cases h
    · rw [hfirst] at h
      obtain ⟨hfree, rfl⟩ := register_ok_iff.mp hfirst
      obtain ⟨hnodup, hnone, hlookup⟩ := ih h
      -- what is registered later has another name than the first
      have hother : ∀ cap ∈ caps, cap.id ≠ first.id ∧ r.lookup cap.id = none := by
        intro cap hcap
        have hcap := hnone cap hcap
        rw [lookup_insert] at hcap
        split at hcap
        case isTrue => cases hcap
        case isFalse hne => exact ⟨hne, hcap⟩
      refine ⟨?_, ?_, fun id cap => ?_⟩
      · rw [List.map_cons, List.nodup_cons, List.mem_map]
        exact ⟨fun ⟨cap, hcap, hid⟩ => (hother cap hcap).1 hid, hnodup⟩
      · rw [List.forall_mem_cons]
        exact ⟨hfree, fun cap hcap => (hother cap hcap).2⟩
      · rw [hlookup, lookup_insert, List.mem_cons]
        by_cases hid : id = first.id
        · subst hid
          rw [if_pos rfl, hfree, Option.some.injEq]
          grind
        · rw [if_neg hid]
          grind

/-- A registration that fails met an id that was taken, by the registry or earlier in the list. -/
theorem foldlM_register_error {e : ConflictError} (h : caps.foldlM register r = .error e) :
    ∃ before cap after, caps = before ++ cap :: after ∧ cap.id = e.id ∧
      ((r.lookup e.id).isSome ∨ e.id ∈ before.map (·.id)) := by
  induction caps generalizing r with
  | nil => cases h
  | cons first caps ih =>
    rw [List.foldlM_cons] at h
    rcases hfirst : r.register first with e' | next
    · rw [hfirst] at h
      cases h
      obtain ⟨htaken, rfl⟩ := register_error_iff.mp hfirst
      exact ⟨[], first, caps, rfl, rfl, Or.inl htaken⟩
    · rw [hfirst] at h
      obtain ⟨hfree, rfl⟩ := register_ok_iff.mp hfirst
      obtain ⟨before, cap, after, rfl, hid, htaken⟩ := ih h
      refine ⟨first :: before, cap, after, rfl, hid, ?_⟩
      rw [lookup_insert, List.map_cons, List.mem_cons] at *
      by_cases hsame : e.id = first.id
      · exact Or.inr (Or.inl hsame)
      · rw [if_neg hsame] at htaken
        exact htaken.imp_right Or.inr

theorem mem_all_iff {cap : Capability} : cap ∈ r.all ↔ r.lookup cap.id = some cap := by
  unfold all lookup
  rw [SortedMap.get_eq_some_iff r.ascending, List.mem_map]
  constructor
  · rintro ⟨⟨id, cap⟩, hmem, rfl⟩
    have hid : id = cap.id := r.keyed _ hmem
    exact hid ▸ hmem
  · intro hmem
    exact ⟨_, hmem, rfl⟩

theorem nodup_all (r : CapabilityRegistry) : r.all.Nodup := by
  refine List.Nodup.of_map Capability.id ?_
  have hids : r.all.map Capability.id = r.byId.map Prod.fst := by
    unfold all
    rw [List.map_map]
    exact List.map_congr_left fun p hp => (r.keyed p hp).symm
  rw [hids]
  exact r.ascending.nodup_keys

/-- A new registry holds exactly the list, or the list has two capabilities with one id. -/
theorem foldlM_register_empty (caps : List Capability) :
    ((caps.map (·.id)).Nodup ∧ ∃ r, caps.foldlM register empty = .ok r ∧ r.HoldsExactly caps) ∨
      (¬(caps.map (·.id)).Nodup ∧ ∃ e, caps.foldlM register empty = .error e) := by
  rcases h : caps.foldlM register empty with e | r
  · obtain ⟨before, cap, after, rfl, hid, htaken | htaken⟩ := foldlM_register_error h
    · cases htaken
    · -- no id is taken in the empty registry, so this one stands earlier in the list
      refine Or.inr ⟨fun hnodup => ?_, e, rfl⟩
      rw [List.map_append, List.nodup_append, List.map_cons] at hnodup
      exact hnodup.2.2 _ htaken _ List.mem_cons_self hid.symm
  · obtain ⟨hnodup, -, hlookup⟩ := foldlM_register_ok h
    have hlookup : ∀ id cap, r.lookup id = some cap ↔ cap ∈ caps ∧ cap.id = id := by
      intro id cap
      rw [hlookup, lookup_empty]
      simp
    refine Or.inl ⟨hnodup, r, rfl, hlookup, ?_⟩
    rw [List.perm_ext_iff_of_nodup r.nodup_all (hnodup.of_map _)]
    intro cap
    rw [mem_all_iff, hlookup]
    exact and_iff_left rfl

end CapabilityRegistry

/-! ## In a session -/

namespace Session

/-- A job has the capabilities, the registry and the pipeline that the session has. -/
structure Equips (s : Session) (job : PerceiveJob) : Prop where
  caps : job.caps = s.registry.all
  registry : job.registry = s.registry
  pipeline : job.pipeline = s.pipeline

theorem beginPerceive_equips {d : Daemon} {s : Session} {re : ℕ} {body : Body}
    {job : PerceiveJob} (h : (s.beginPerceive d re body).1 = .ok job) : s.Equips job := by
  unfold beginPerceive at h
  split at h
  · split at h
    · cases h
    · cases h
      exact ⟨rfl, rfl, rfl⟩
  · cases h

/-- What a registration of `caps` leaves, and what it replies. -/
structure Registers (s : Session) (caps : List Capability) (reply : Body) (s' : Session) :
    Prop where
  replaced : (caps.map (·.id)).Nodup → reply = .ack ∧ s'.registry.HoldsExactly caps ∧
    s'.pipeline.governor.registry.HoldsExactly caps
  refused : ¬(caps.map (·.id)).Nodup → (∃ e, reply = .error e) ∧ s'.registry = s.registry ∧
    s'.pipeline = s.pipeline
  souls : s'.souls = s.souls
  latestRevision : s'.latestRevision = s.latestRevision

theorem onRegister_spec (s : Session) (re : ℕ) (caps : List Capability) :
    ∃ reply s', s.onRegister re (.registerCapabilities ⟨caps⟩) =
      (.ok [.outgoing s.nextSeq (some re) reply], s') ∧ s.Registers caps reply s' := by
  unfold onRegister
  rcases CapabilityRegistry.foldlM_register_empty caps with
    ⟨hnodup, registry, hok, hholds⟩ | ⟨hrepeated, e, herror⟩
  · refine ⟨.ack, { s with nextSeq := s.nextSeq + 1, registry, pipeline := .new registry }, ?_,
      fun _ => ⟨rfl, hholds, hholds⟩, fun h => absurd hnodup h, rfl, rfl⟩
    dsimp only
    rw [hok]
    rfl
  · refine ⟨.error ⟨.providerFailure, s!"register_capabilities: {e.text}"⟩,
      { s with nextSeq := s.nextSeq + 1 }, ?_, fun h => absurd h hrepeated,
      fun _ => ⟨⟨_, rfl⟩, rfl, rfl⟩, rfl, rfl⟩
    dsimp only
    rw [herror]
    rfl

end Session

namespace Conversation

variable {d : Daemon}

/-- Every job in flight was begun by an earlier event and has what the session had then. -/
theorem inFlight_equipped (es : List SessionEvent) :
    ∀ p ∈ ((conversation d).reached es).inFlight, ∃ es₁ env es₂,
      es = es₁ ++ .beginPerceive env :: es₂ ∧
        (((conversation d).reached es₁).session.beginPerceive d env.seq env.body).1 = .ok p.2 := by
  induction es using List.reverseRecOn with
  | nil => exact fun p hp => nomatch hp
  | append_singleton es e ih =>
    have hearlier : ∀ p ∈ ((conversation d).reached es).inFlight, ∃ es₁ env es₂,
        es ++ [e] = es₁ ++ .beginPerceive env :: es₂ ∧
          (((conversation d).reached es₁).session.beginPerceive d env.seq env.body).1 =
            .ok p.2 := by
      intro p hp
      obtain ⟨es₁, env, es₂, hes, hjob⟩ := ih p hp
      exact ⟨es₁, env, es₂ ++ [e], by rw [hes, List.append_assoc, List.cons_append], hjob⟩
    intro p hp
    rw [Machine.reached_concat] at hp
    set c := (conversation d).reached es with hc
    change p ∈ (c.step d e).inFlight at hp
    -- only a perceive that is begun adds a job
    cases e with
    | handle env answer =>
      refine hearlier p ?_
      unfold step at hp
      dsimp only at hp
      split at hp
      · exact hp
      · exact hp
    | beginPerceive env =>
      unfold step at hp
      dsimp only at hp
      split at hp
      · split at hp
        · exact hearlier p hp
        · rename_i job session hbegin
          rcases List.mem_append.mp hp with hp | hp
          · exact hearlier p hp
          · rw [List.mem_singleton] at hp
            subst hp
            refine ⟨es, env, [], rfl, ?_⟩
            rw [← hc, hbegin]
      · exact hearlier p hp
    | finishPerceive i outcome =>
      refine hearlier p ?_
      unfold step at hp
      dsimp only at hp
      split at hp
      · exact hp
      · exact List.mem_of_mem_eraseIdx hp
    | transport code message => exact hearlier p hp

/-- A registration replaces both registries by the list, or answers with an error and changes
neither. The souls, the ledger and the jobs in flight are as they were, and these have the registry
and the pipeline of the session that began them. -/
theorem register_all_or_nothing (d : Daemon) (es : List SessionEvent) (env : Envelope)
    (answer : LlmAnswer) (caps : List Capability) (hty : env.ty = .registerCapabilities)
    (hbody : env.body = .registerCapabilities ⟨caps⟩) :
    let c := (conversation d).reached es
    let c' := (conversation d).reached (es ++ [.handle env answer])
    (∃ reply, c.session.Registers caps reply c'.session ∧ c'.sent = c.sent ++
        [(some c.received.length, .outgoing c.session.nextSeq (some env.seq) reply)]) ∧
      c'.inFlight = c.inFlight ∧ c'.begun = c.begun ∧
      ∀ p ∈ c'.inFlight, ∃ es₁ env es₂, es = es₁ ++ .beginPerceive env :: es₂ ∧
        (((conversation d).reached es₁).session.beginPerceive d env.seq env.body).1 = .ok p.2 ∧
        ((conversation d).reached es₁).session.Equips p.2 := by
  intro c c'
  obtain ⟨reply, s', hregister, hspec⟩ := c.session.onRegister_spec env.seq caps
  have hhandle : (c.session.handle d answer env ()).2 =
      some ((.ok [.outgoing c.session.nextSeq (some env.seq) reply], s'), ()) := by
    unfold Session.handle
    rw [hty, hbody, ← hregister]
    rfl
  have hbegins : c.session.begins d env = none := if_neg (by rw [hty]; exact nofun)
  have hstep : c' = ({ c.receive env s' with begun := c.begun ++ [] }.send
      (some c.received.length) (.outgoing c.session.nextSeq (some env.seq) reply)) := by
    refine (Machine.reached_concat _ _ _).trans ?_
    rw [← Option.toList_none, ← hbegins]
    exact step_handle_answered hhandle
  rw [List.append_nil] at hstep
  rw [hstep]
  refine ⟨⟨reply, hspec, rfl⟩, rfl, rfl, fun p hp => ?_⟩
  obtain ⟨es₁, env, es₂, hes, hjob⟩ := inFlight_equipped es p hp
  exact ⟨es₁, env, es₂, hes, hjob, Session.beginPerceive_equips hjob⟩

/-- The host registers capabilities with these ids. -/
def registerEnvelope (seq : ℕ) (ids : List String) : Envelope :=
  ⟨PROTOCOL_VERSION, seq, none, .registerCapabilities,
    .registerCapabilities ⟨ids.map fun id => ⟨id, "", .null⟩⟩⟩

/-- A list with an id twice leaves the registry of the list before it. -/
theorem register_all_or_nothing_twice :
    ((conversation quietDaemon).reached
      [.handle (registerEnvelope 1 ["fs.read"]) fun _ _ _ => ⟨[]⟩,
        .handle (registerEnvelope 2 ["cap.echo", "cap.echo"]) fun _ _ _ => ⟨[]⟩]).session.registry =
    ((conversation quietDaemon).reached
      [.handle (registerEnvelope 1 ["fs.read"]) fun _ _ _ => ⟨[]⟩]).session.registry := by
  obtain ⟨⟨reply, hspec, -⟩, -⟩ := register_all_or_nothing quietDaemon
    [.handle (registerEnvelope 1 ["fs.read"]) fun _ _ _ => ⟨[]⟩]
    (registerEnvelope 2 ["cap.echo", "cap.echo"]) (fun _ _ _ => ⟨[]⟩) _ rfl rfl
  exact (hspec.refused (by simp)).2.1

end Conversation

end Pan
