import Mathlib.Data.List.Basic
import Mathlib.Logic.Basic

universe u

/-- A computation: the actions it performs and, if it returns, its value and the world. -/
def Eff (Λ W α : Type u) : Type u := W → List Λ × Option (α × W)

namespace Eff

variable {Λ W O α β ε : Type u}

instance : Monad (Eff Λ W) where
  pure a := fun w => ([], some (a, w))
  bind x f := fun w =>
    match x w with
    | (t, none) => (t, none)
    | (t, some (a, w')) => (t ++ (f a w').1, (f a w').2)

/-- Perform one action. -/
def emit (a : Λ) : Eff Λ W PUnit := fun w => ([a], some (PUnit.unit, w))

/-- Ask the outside world, which always answers. -/
def ask (f : W → α × W) : Eff Λ W α := fun w => ([], some (f w))

/-- Call out to the outside world, which may never answer. -/
def call (f : W → Option (α × W)) : Eff Λ W α := fun w => ([], f w)

/-- Wait forever. -/
def never : Eff Λ W α := fun _ => ([], none)

/-- An error of `x` is the result; `f` goes on from a value. -/
def andThen (x : Eff Λ W (Except ε α)) (f : α → Eff Λ W (Except ε β)) :
    Eff Λ W (Except ε β) := do
  match ← x with
  | .error e => return .error e
  | .ok a => f a

/-- Run on the first part of a world; the second part is out of reach. -/
def onFst (x : Eff Λ W α) : Eff Λ (W × O) α := fun w =>
  ((x w.1).1, (x w.1).2.map fun r => (r.1, (r.2, w.2)))

theorem bind_eq (x : Eff Λ W α) (f : α → Eff Λ W β) (w : W) :
    (x >>= f) w = match (x w).2 with
      | none => ((x w).1, none)
      | some (a, w') => ((x w).1 ++ (f a w').1, (f a w').2) := by
  change (match x w with
    | (t, none) => (t, none)
    | (t, some (a, w')) => (t ++ (f a w').1, (f a w').2)) = _
  rcases x w with ⟨t, _ | ⟨a, w'⟩⟩ <;> rfl

theorem bind_of_none {x : Eff Λ W α} {f : α → Eff Λ W β} {w : W} (h : (x w).2 = none) :
    (x >>= f) w = ((x w).1, none) := by
  rw [bind_eq, h]

theorem bind_of_some {x : Eff Λ W α} {f : α → Eff Λ W β} {w w' : W} {a : α}
    (h : (x w).2 = some (a, w')) : (x >>= f) w = ((x w).1 ++ (f a w').1, (f a w').2) := by
  rw [bind_eq, h]

theorem emit_bind_apply (a : Λ) (f : PUnit → Eff Λ W α) (w : W) :
    (emit a >>= f) w = (a :: (f PUnit.unit w).1, (f PUnit.unit w).2) := rfl

@[simp] theorem pure_apply (a : α) (w : W) : (pure a : Eff Λ W α) w = ([], some (a, w)) := rfl

@[simp] theorem emit_apply (a : Λ) (w : W) : emit a w = ([a], some (PUnit.unit, w)) := rfl

@[simp] theorem ask_apply (f : W → α × W) (w : W) : (ask f : Eff Λ W α) w = ([], some (f w)) := rfl

@[simp] theorem call_apply (f : W → Option (α × W)) (w : W) :
    (call f : Eff Λ W α) w = ([], f w) := rfl

@[simp] theorem never_apply (w : W) : (never : Eff Λ W α) w = ([], none) := rfl

/-- The laws of a monad. They are no instance, so that `simp` rearranges a computation only where
it is told to. -/
theorem lawfulMonad : LawfulMonad (Eff Λ W) := by
  refine LawfulMonad.mk' _ ?_ ?_ ?_
  · intro α x
    funext w
    change (x >>= fun a => pure (id a)) w = x w
    rw [bind_eq]
    rcases x w with ⟨t, _ | ⟨a, w'⟩⟩
    · rfl
    · simp
  · intro α β a f
    funext w
    rw [bind_eq]
    simp
  · intro α β γ x f g
    funext w
    simp only [bind_eq]
    rcases x w with ⟨t, _ | ⟨a, w'⟩⟩
    · rfl
    · dsimp only
      rcases f a w' with ⟨t', _ | ⟨b, w''⟩⟩
      · rfl
      · simp

theorem mem_bind_left {x : Eff Λ W α} {f : α → Eff Λ W β} {w : W} {a : Λ} (h : a ∈ (x w).1) :
    a ∈ ((x >>= f) w).1 := by
  rw [bind_eq]
  cases (x w).2 with
  | none => exact h
  | some r => exact List.mem_append_left _ h

theorem mem_bind_right {x : Eff Λ W α} {f : α → Eff Λ W β} {w w' : W} {b : α} {a : Λ}
    (hx : (x w).2 = some (b, w')) (h : a ∈ (f b w').1) : a ∈ ((x >>= f) w).1 := by
  rw [bind_of_some hx]
  exact List.mem_append_right _ h

/-- What acts no more leaves the actions as they are. -/
theorem actions_bind_of_silent {x : Eff Λ W α} {f : α → Eff Λ W β} (hf : ∀ a w, (f a w).1 = [])
    (w : W) : ((x >>= f) w).1 = (x w).1 := by
  rw [bind_eq]
  cases (x w).2 with
  | none => rfl
  | some r =>
    dsimp only
    rw [hf, List.append_nil]

/-! ## Actions under other names -/

def mapActions {Λ' : Type u} (f : Λ → Λ') (x : Eff Λ W α) : Eff Λ' W α := fun w =>
  ((x w).1.map f, (x w).2)

section MapActions

variable {Λ' : Type u} (f : Λ → Λ')

@[simp] theorem mapActions_pure (a : α) : (pure a : Eff Λ W α).mapActions f = pure a := rfl

@[simp] theorem mapActions_emit (a : Λ) : (emit a : Eff Λ W PUnit).mapActions f = emit (f a) := rfl

@[simp] theorem mapActions_call (g : W → Option (α × W)) :
    (call g : Eff Λ W α).mapActions f = call g := rfl

@[simp] theorem mapActions_bind (x : Eff Λ W α) (g : α → Eff Λ W β) :
    (x >>= g).mapActions f = x.mapActions f >>= fun a => (g a).mapActions f := by
  funext w
  rw [bind_eq]
  unfold mapActions
  rw [bind_eq]
  rcases x w with ⟨t, _ | ⟨a, w'⟩⟩
  · rfl
  · simp

@[simp] theorem mapActions_andThen (x : Eff Λ W (Except ε α)) (g : α → Eff Λ W (Except ε β)) :
    (x.andThen g).mapActions f = (x.mapActions f).andThen fun a => (g a).mapActions f := by
  unfold andThen
  rw [mapActions_bind]
  congr 1
  funext r
  cases r <;> rfl

end MapActions

/-! ## Actions that are kept from sight -/

/-- The computation with only the actions that `f` keeps. -/
def keepActions {Λ' : Type u} (f : Λ → Option Λ') (x : Eff Λ W α) : Eff Λ' W α := fun w =>
  ((x w).1.filterMap f, (x w).2)

section KeepActions

variable {Λ' : Type u} (f : Λ → Option Λ')

@[simp] theorem keepActions_pure (a : α) : (pure a : Eff Λ W α).keepActions f = pure a := rfl

@[simp] theorem keepActions_never : (never : Eff Λ W α).keepActions f = never := rfl

@[simp] theorem keepActions_bind (x : Eff Λ W α) (g : α → Eff Λ W β) :
    (x >>= g).keepActions f = x.keepActions f >>= fun a => (g a).keepActions f := by
  funext w
  rw [bind_eq]
  unfold keepActions
  rw [bind_eq]
  rcases x w with ⟨t, _ | ⟨a, w'⟩⟩
  · rfl
  · simp

theorem keepActions_emit_of_none {a : Λ} (h : f a = none) :
    (emit a : Eff Λ W PUnit).keepActions f = pure PUnit.unit := by
  funext w
  simp [keepActions, h]

theorem keepActions_emit_of_some {a : Λ} {b : Λ'} (h : f a = some b) :
    (emit a : Eff Λ W PUnit).keepActions f = emit b := by
  funext w
  simp [keepActions, h]

@[simp] theorem keepActions_ask (g : W → α × W) :
    (ask g : Eff Λ W α).keepActions f = ask g := rfl

end KeepActions

/-! ## Pre- and postconditions -/

/-- Run after a history and in a world that satisfy `pre`, the computation returns with
`post`, or it never returns and its history satisfies `stuck`. -/
def Triple (pre : List Λ → W → Prop) (x : Eff Λ W α) (post : α → List Λ → W → Prop)
    (stuck : List Λ → Prop) : Prop :=
  ∀ h w, pre h w → match (x w).2 with
    | none => stuck (h ++ (x w).1)
    | some (a, w') => post a (h ++ (x w).1) w'

namespace Triple

variable {pre pre' : List Λ → W → Prop} {stuck stuck' : List Λ → Prop}

theorem returns {x : Eff Λ W α} {post : α → List Λ → W → Prop} (hx : Triple pre x post stuck)
    {h : List Λ} {w w' : W} {a : α} (hp : pre h w) (hr : (x w).2 = some (a, w')) :
    post a (h ++ (x w).1) w' := by
  have := hx h w hp
  rwa [hr] at this

theorem hangs {x : Eff Λ W α} {post : α → List Λ → W → Prop} (hx : Triple pre x post stuck)
    {h : List Λ} {w : W} (hp : pre h w) (hr : (x w).2 = none) : stuck (h ++ (x w).1) := by
  have := hx h w hp
  rwa [hr] at this

/-- What holds of the history whether or not the computation returns. -/
theorem history {x : Eff Λ W α} {post : α → List Λ → W → Prop} {I : List Λ → Prop}
    (hx : Triple pre x post I) (hpost : ∀ a h w, post a h w → I h) {h : List Λ} {w : W}
    (hp : pre h w) : I (h ++ (x w).1) := by
  cases hr : (x w).2 with
  | none => exact hx.hangs hp hr
  | some r => exact hpost _ _ _ (hx.returns hp hr)

theorem weaken {x : Eff Λ W α} {post post' : α → List Λ → W → Prop}
    (hx : Triple pre' x post' stuck') (hpre : ∀ h w, pre h w → pre' h w)
    (hpost : ∀ a h w, post' a h w → post a h w) (hstuck : ∀ h, stuck' h → stuck h) :
    Triple pre x post stuck := by
  intro h w hp
  have := hx h w (hpre h w hp)
  cases hr : (x w).2 with
  | none => rw [hr] at this; exact hstuck _ this
  | some r => rw [hr] at this; exact hpost _ _ _ this

theorem strengthen_pre {x : Eff Λ W α} {post : α → List Λ → W → Prop}
    (hx : Triple pre' x post stuck) (hpre : ∀ h w, pre h w → pre' h w) :
    Triple pre x post stuck :=
  hx.weaken hpre (fun _ _ _ h => h) fun _ h => h

/-- The strongest postcondition of a computation: what it does itself. -/
theorem strongest (x : Eff Λ W α) : Triple pre x
    (fun a h w' => ∃ h₀ w, pre h₀ w ∧ (x w).2 = some (a, w') ∧ h = h₀ ++ (x w).1)
    (fun h => ∃ h₀ w, pre h₀ w ∧ (x w).2 = none ∧ h = h₀ ++ (x w).1) := by
  intro h w hp
  cases hr : (x w).2 with
  | none => exact ⟨h, w, hp, hr, rfl⟩
  | some r => exact ⟨h, w, hp, hr, rfl⟩

/-- A fact that the precondition states of no history and no world. -/
theorem of_fact {φ : Prop} {x : Eff Λ W α} {post : α → List Λ → W → Prop}
    (hx : φ → Triple pre x post stuck) : Triple (fun h w => pre h w ∧ φ) x post stuck :=
  fun h w hp => hx hp.2 h w hp.1

theorem pure {a : α} {post : α → List Λ → W → Prop} (hp : ∀ h w, pre h w → post a h w) :
    Triple pre (pure a) post stuck := by
  intro h w hpre
  simpa using hp h w hpre

theorem bind {x : Eff Λ W α} {f : α → Eff Λ W β} {m : α → List Λ → W → Prop}
    {post : β → List Λ → W → Prop} (hx : Triple pre x m stuck)
    (hf : ∀ a, Triple (m a) (f a) post stuck) : Triple pre (x >>= f) post stuck := by
  intro h w hp
  cases hr : (x w).2 with
  | none =>
    rw [bind_of_none hr]
    exact hx.hangs hp hr
  | some r =>
    have hbind : (x >>= f) w = ((x w).1 ++ (f r.1 r.2).1, (f r.1 r.2).2) := bind_of_some hr
    rw [hbind, ← List.append_assoc]
    exact hf r.1 _ _ (hx.returns hp hr)

theorem emit {a : Λ} {post : PUnit → List Λ → W → Prop}
    (hp : ∀ h w, pre h w → post PUnit.unit (h ++ [a]) w) : Triple pre (emit a) post stuck :=
  fun h w hpre => hp h w hpre

/-- After an action the precondition holds of the history before it. -/
theorem emit_bind {a : Λ} {f : PUnit → Eff Λ W α} {post : α → List Λ → W → Prop}
    (hf : Triple (fun h w => ∃ h₀, pre h₀ w ∧ h = h₀ ++ [a]) (f PUnit.unit) post stuck) :
    Triple pre (Eff.emit a >>= f) post stuck :=
  bind (m := fun _ h w => ∃ h₀, pre h₀ w ∧ h = h₀ ++ [a])
    (emit fun h _ hp => ⟨h, hp, rfl⟩) fun _ => hf

theorem ask {f : W → α × W} {post : α → List Λ → W → Prop}
    (hp : ∀ h w, pre h w → post (f w).1 h (f w).2) : Triple pre (ask f) post stuck := by
  intro h w hpre
  simpa using hp h w hpre

theorem call {f : W → Option (α × W)} {post : α → List Λ → W → Prop}
    (hsome : ∀ h w a w', pre h w → f w = some (a, w') → post a h w')
    (hnone : ∀ h w, pre h w → stuck h) : Triple pre (call f) post stuck := by
  intro h w hpre
  cases hf : f w with
  | none => simpa [hf] using hnone h w hpre
  | some r => simpa [hf] using hsome h w r.1 r.2 hpre hf

theorem never {post : α → List Λ → W → Prop} (hp : ∀ h w, pre h w → stuck h) :
    Triple pre never post stuck := by
  intro h w hpre
  simpa using hp h w hpre

theorem andThen {x : Eff Λ W (Except ε α)} {f : α → Eff Λ W (Except ε β)}
    {Q : List Λ → W → Prop} {m : α → List Λ → W → Prop} {post : Except ε β → List Λ → W → Prop}
    (hx : Triple pre x (fun r h w => Q h w ∧ ∀ a, r = .ok a → m a h w) stuck)
    (herr : ∀ e h w, Q h w → post (.error e) h w)
    (hf : ∀ a, Triple (fun h w => Q h w ∧ m a h w) (f a) post stuck) :
    Triple pre (x.andThen f) post stuck := by
  refine bind hx fun r => ?_
  cases r with
  | error e => exact pure fun h w hp => herr e h w hp.1
  | ok a => exact (hf a).strengthen_pre fun h w hp => ⟨hp.1, hp.2 a rfl⟩

/-- The frame rule: what is out of reach stays as it is. -/
theorem onFst {x : Eff Λ W α} {pre : List Λ → W × O → Prop} {post : α → List Λ → W × O → Prop}
    (hx : ∀ o, Triple (fun h w => pre h (w, o)) x (fun a h w => post a h (w, o)) stuck) :
    Triple pre (onFst x) post stuck := by
  rintro h ⟨w, o⟩ hp
  have := hx o h w hp
  cases hr : (x w).2 with
  | none => simpa [Eff.onFst, hr] using this
  | some r => simpa [Eff.onFst, hr] using this

/-- Nothing is known of any computation. -/
theorem unknown (x : Eff Λ W α) :
    Triple (fun _ _ => True) x (fun _ _ _ => True) fun _ => True := by
  intro h w _
  cases (x w).2 <;> trivial

/-- What is known of the value goes with what holds of the rest of the world. -/
theorem frame {x : Eff Λ W α} {ψ : α → Prop}
    (hx : Triple (fun _ _ => True) x (fun a _ _ => ψ a) fun _ => True) (φ : O → Prop) :
    Triple (fun _ w => φ w.2) (Eff.onFst x) (fun a _ w => ψ a ∧ φ w.2) fun _ => True := by
  refine onFst fun o h w hp => ?_
  have := hx h w trivial
  cases hr : (x w).2 with
  | none => trivial
  | some r =>
    rw [hr] at this
    exact ⟨this, hp⟩

end Triple

/-- The computation keeps an invariant of the history, whether or not it returns. -/
abbrev Keeps (I : List Λ → Prop) (x : Eff Λ W α) : Prop :=
  Triple (fun h _ => I h) x (fun _ h _ => I h) I

theorem Keeps.history {I : List Λ → Prop} {x : Eff Λ W α} (hx : Keeps I x) {h : List Λ} {w : W}
    (hI : I h) : I (h ++ (x w).1) :=
  Triple.history hx (fun _ _ _ h => h) hI

/-! ## Computations that return -/

/-- The computation returns, whatever the world. -/
def Returns (x : Eff Λ W α) : Prop := ∀ w, ∃ a w', (x w).2 = some (a, w')

namespace Returns

theorem pure (a : α) : Returns (pure a : Eff Λ W α) := fun _ => ⟨a, _, rfl⟩

theorem emit (a : Λ) : Returns (emit a : Eff Λ W PUnit) := fun _ => ⟨PUnit.unit, _, rfl⟩

theorem bind {x : Eff Λ W α} {f : α → Eff Λ W β} (hx : Returns x) (hf : ∀ a, Returns (f a)) :
    Returns (x >>= f) := by
  intro w
  obtain ⟨a, w', hr⟩ := hx w
  obtain ⟨b, w'', hb⟩ := hf a w'
  exact ⟨b, w'', by rw [bind_of_some hr, hb]⟩

theorem andThen {x : Eff Λ W (Except ε α)} {f : α → Eff Λ W (Except ε β)} (hx : Returns x)
    (hf : ∀ a, Returns (f a)) : Returns (x.andThen f) := by
  refine bind hx fun r => ?_
  cases r with
  | error e => exact pure _
  | ok a => exact hf a

theorem onFst {x : Eff Λ W α} (hx : Returns x) : Returns (onFst x : Eff Λ (W × O) α) := by
  rintro ⟨w, o⟩
  obtain ⟨a, w', hr⟩ := hx w
  exact ⟨a, (w', o), by simp [Eff.onFst, hr]⟩

end Returns

/-- One computation after another, in the worlds in which they start. -/
theorem exists_returns_bind {x : Eff Λ W α} {f : α → Eff Λ W β} {w w' : W} {a : α}
    (hx : (x w).2 = some (a, w')) (hf : ∃ r, (f a w').2 = some r) :
    ∃ r, ((x >>= f) w).2 = some r := by
  rw [bind_of_some hx]
  exact hf

/-! ## Approximations -/

/-- Wherever `x` returns, `y` does the same. -/
def Approximates (x y : Eff Λ W α) : Prop := ∀ w r, (x w).2 = some r → y w = x w

namespace Approximates

theorem refl (x : Eff Λ W α) : Approximates x x := fun _ _ _ => rfl

theorem never (y : Eff Λ W α) : Approximates never y := by
  intro w r hr
  cases hr

theorem bind {x y : Eff Λ W α} {f g : α → Eff Λ W β} (hx : Approximates x y)
    (hf : ∀ a, Approximates (f a) (g a)) : Approximates (x >>= f) (y >>= g) := by
  intro w r hr
  cases hxw : (x w).2 with
  | none =>
    rw [bind_of_none hxw] at hr
    cases hr
  | some q =>
    obtain ⟨a, w'⟩ := q
    have hyx : y w = x w := hx w _ hxw
    have hyw : (y w).2 = some (a, w') := by rw [hyx, hxw]
    rw [bind_of_some hxw] at hr
    rw [bind_of_some hxw, bind_of_some hyw, hyx, hf a w' r hr]

end Approximates

/-! ## Computations that return with known actions -/

/-- Run in a world with `P`, the computation returns with `Q`, and `f` keeps of its actions
just `t`. -/
def Shows {Λ' : Type u} (f : Λ → Option Λ') (P : W → Prop) (x : Eff Λ W α) (t : List Λ')
    (Q : α → W → Prop) : Prop :=
  ∀ w, P w → ∃ a w', (x w).2 = some (a, w') ∧ (x w).1.filterMap f = t ∧ Q a w'

namespace Shows

variable {Λ' : Type u} {f : Λ → Option Λ'} {P : W → Prop} {Q : α → W → Prop} {t : List Λ'}

theorem pure {a : α} (h : ∀ w, P w → Q a w) :
    Shows f P (pure a : Eff Λ W α) [] Q :=
  fun w hw => ⟨a, w, rfl, rfl, h w hw⟩

theorem bind {x : Eff Λ W α} {g : α → Eff Λ W β} {t' : List Λ'} {Q' : β → W → Prop}
    (hx : Shows f P x t Q) (hg : ∀ a, Shows f (Q a) (g a) t' Q') :
    Shows f P (x >>= g) (t ++ t') Q' := by
  intro w hw
  obtain ⟨a, w', hr, ht, hpost⟩ := hx w hw
  obtain ⟨b, w'', hr', ht', hpost'⟩ := hg a w' hpost
  refine ⟨b, w'', ?_, ?_, hpost'⟩
  · rw [bind_of_some hr, hr']
  · rw [bind_of_some hr, List.filterMap_append, ht, ht']

/-- An action that is not kept goes before. -/
theorem emit_bind {a : Λ} {g : PUnit → Eff Λ W α} (ha : f a = none)
    (hg : Shows f P (g PUnit.unit) t Q) : Shows f P (Eff.emit a >>= g) t Q := by
  intro w hw
  obtain ⟨b, w', hr, ht, hpost⟩ := hg w hw
  exact ⟨b, w', hr, by rw [emit_bind_apply, List.filterMap_cons_none ha, ht], hpost⟩

/-- An action that is kept goes before. -/
theorem emit_bind_kept {a : Λ} {b : Λ'} {g : PUnit → Eff Λ W α} (ha : f a = some b)
    (hg : Shows f P (g PUnit.unit) t Q) : Shows f P (Eff.emit a >>= g) (b :: t) Q := by
  intro w hw
  obtain ⟨c, w', hr, ht, hpost⟩ := hg w hw
  exact ⟨c, w', hr, by rw [emit_bind_apply, List.filterMap_cons_some ha, ht], hpost⟩

/-- A computation that returns, and none of whose actions is kept. -/
theorem hidden {x : Eff Λ W α} (hx : Returns x) (hnone : ∀ w, ∀ a ∈ (x w).1, f a = none) :
    Shows f (fun _ => True) x [] fun _ _ => True := by
  intro w _
  obtain ⟨a, w', hr⟩ := hx w
  exact ⟨a, w', hr, List.filterMap_eq_nil_iff.mpr (hnone w), trivial⟩

theorem call {g : W → Option (α × W)} (hg : ∀ w, P w → ∃ a w', g w = some (a, w') ∧ Q a w') :
    Shows f P (Eff.call g : Eff Λ W α) [] Q := by
  intro w hw
  obtain ⟨a, w', hr, hpost⟩ := hg w hw
  exact ⟨a, w', hr, rfl, hpost⟩

/-- The frame rule: what is out of reach stays as it is. -/
theorem onFst {x : Eff Λ W α} {φ : α → Prop} (hx : Shows f (fun _ => True) x t fun a _ => φ a)
    (ψ : O → Prop) : Shows f (fun w : W × O => ψ w.2) (Eff.onFst x) t fun a w => φ a ∧ ψ w.2 := by
  rintro ⟨w, o⟩ ho
  obtain ⟨a, w', hr, ht, ha⟩ := hx w trivial
  exact ⟨a, (w', o), by simp [Eff.onFst, hr], ht, ha, ho⟩

end Shows

end Eff
