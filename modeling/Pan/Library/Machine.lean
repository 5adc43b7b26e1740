import Pan.Library.History

/-- A state machine: every event moves it from one state to the next. -/
structure Machine (σ ε : Type*) where
  init : σ
  step : σ → ε → σ

namespace Machine

variable {σ ε : Type*} (M : Machine σ ε)

/-- The state after the events `es`, in order. -/
def reached (es : List ε) : σ := es.foldl M.step M.init

@[simp] theorem reached_nil : M.reached [] = M.init := rfl

@[simp] theorem reached_concat (es : List ε) (e : ε) :
    M.reached (es ++ [e]) = M.step (M.reached es) e := by
  simp [reached, List.foldl_append]

/-- Every step of the run meets the condition `G` on the state before it and the event. -/
def Guarded (G : σ → ε → Prop) (es : List ε) : Prop :=
  History.Always (fun pre e => G (M.reached pre) e) es

variable {M}

theorem guarded_nil (G : σ → ε → Prop) : M.Guarded G [] := History.always_nil _

theorem guarded_concat {G : σ → ε → Prop} {es : List ε} {e : ε} :
    M.Guarded G (es ++ [e]) ↔ M.Guarded G es ∧ G (M.reached es) e := History.always_concat

/-- Conditions that agree in the states reached guard the same runs. -/
theorem guarded_congr {G G' : σ → ε → Prop}
    (h : ∀ es e, G (M.reached es) e ↔ G' (M.reached es) e) (es : List ε) :
    M.Guarded G es ↔ M.Guarded G' es := by
  constructor
  · intro hG pre e post hes
    exact (h pre e).mp (hG pre e post hes)
  · intro hG pre e post hes
    exact (h pre e).mpr (hG pre e post hes)

/-- What holds at the start and is kept by every step that meets `G` holds after every run
whose steps meet `G`. The invariant may speak of the events so far. -/
theorem invariant_of_guarded {G : σ → ε → Prop} {I : List ε → σ → Prop} (hinit : I [] M.init)
    (hstep : ∀ es s e, I es s → G s e → I (es ++ [e]) (M.step s e)) {es : List ε}
    (hG : M.Guarded G es) : I es (M.reached es) := by
  induction es using List.reverseRecOn with
  | nil => exact hinit
  | append_singleton es e ih =>
    obtain ⟨hes, he⟩ := guarded_concat.mp hG
    rw [reached_concat]
    exact hstep es _ e (ih hes) he

/-- What holds at the start and is kept by every step holds after every run. -/
theorem invariant {I : List ε → σ → Prop} (hinit : I [] M.init)
    (hstep : ∀ es s e, I es s → I (es ++ [e]) (M.step s e)) (es : List ε) :
    I es (M.reached es) :=
  invariant_of_guarded (G := fun _ _ => True) hinit (fun es s e h _ => hstep es s e h)
    fun _ _ _ _ => trivial

/-- What each step between states with `I` keeps exactly if it meets `G` holds after exactly the
runs whose steps do. -/
theorem reached_iff_guarded {G : σ → ε → Prop} {I P : σ → Prop} (hI : ∀ es, I (M.reached es))
    (hinit : P M.init) (hstep : ∀ s e, I s → I (M.step s e) → (P (M.step s e) ↔ P s ∧ G s e))
    (es : List ε) : P (M.reached es) ↔ M.Guarded G es := by
  induction es using List.reverseRecOn with
  | nil => exact iff_of_true hinit (guarded_nil G)
  | append_singleton es e ih =>
    have hnext : I (M.step (M.reached es) e) := reached_concat M es e ▸ hI (es ++ [e])
    rw [reached_concat, hstep _ _ (hI es) hnext, ih, guarded_concat]

theorem reached_append (es es' : List ε) :
    M.reached (es ++ es') = es'.foldl M.step (M.reached es) := by
  unfold reached
  rw [List.foldl_append]

/-- If each step of `M` is matched by some steps of `N`, then so is each run. -/
theorem exists_reached_of_matched {τ δ : Type*} {N : Machine τ δ} {R : σ → τ → Prop}
    (hinit : R M.init N.init)
    (hstep : ∀ s t e, R s t → ∃ ds : List δ, R (M.step s e) (ds.foldl N.step t)) (es : List ε) :
    ∃ ds, R (M.reached es) (N.reached ds) := by
  induction es using List.reverseRecOn with
  | nil => exact ⟨[], hinit⟩
  | append_singleton es e ih =>
    obtain ⟨ds, hR⟩ := ih
    obtain ⟨ds', hR'⟩ := hstep _ _ e hR
    refine ⟨ds ++ ds', ?_⟩
    rw [reached_concat, reached_append]
    exact hR'

/-! ## Events that leave no trace -/

/-- The events of a run from `s`, each with what `out` sees of it. -/
def transcript {α : Type*} (M : Machine σ ε) (out : σ → ε → α) : σ → List ε → List (ε × α)
  | _, [] => []
  | s, e :: es => (e, out s e) :: transcript M out (M.step s e) es

/-- If the events outside `p` keep a relation to a machine that does not take them, and those in
`p` keep it and look the same in both, then the run without the former looks like the run with
them. -/
theorem transcript_filter {α : Type*} {out : σ → ε → α} {p : ε → Bool} {R : σ → σ → Prop}
    (hkeep : ∀ s t e, p e = true → R s t → out s e = out t e ∧ R (M.step s e) (M.step t e))
    (hdrop : ∀ s t e, p e = false → R s t → R (M.step s e) t) {s t : σ} (hR : R s t)
    (es : List ε) : R (es.foldl M.step s) ((es.filter p).foldl M.step t) ∧
      (M.transcript out s es).filter (fun r => p r.1) = M.transcript out t (es.filter p) := by
  induction es generalizing s t with
  | nil => exact ⟨hR, rfl⟩
  | cons e es ih =>
    cases hp : p e with
    | true =>
      obtain ⟨hout, hR'⟩ := hkeep s t e hp hR
      obtain ⟨hreached, htranscript⟩ := ih hR'
      rw [List.filter_cons_of_pos hp]
      refine ⟨hreached, ?_⟩
      rw [transcript, List.filter_cons, if_pos hp, transcript, hout, htranscript]
    | false =>
      have hp' : ¬p e = true := by simp [hp]
      obtain ⟨hreached, htranscript⟩ := ih (hdrop s t e hp hR)
      rw [List.filter_cons_of_neg hp']
      refine ⟨hreached, ?_⟩
      rw [transcript, List.filter_cons, if_neg hp', htranscript]

end Machine
