import Pan.LoopEngine
import Pan.Library.Window

namespace Pan

namespace StallDetector

def seen (formats : Formats) (call : String × Value) : String × String :=
  (call.1, formats.jsonText call.2)

/-- What a sequence of calls is answered, and the detector after it. -/
def feedAll (formats : Formats) (d : StallDetector) :
    List (String × Value) → List Bool × StallDetector
  | [] => ([], d)
  | (capability, args) :: calls =>
    let fed := d.feed formats capability args
    let rest := feedAll formats fed.2 calls
    (fed.1 :: rest.1, rest.2)

variable {formats : Formats} {d : StallDetector}

theorem feedAll_append (calls calls' : List (String × Value)) :
    d.feedAll formats (calls ++ calls') =
      ((d.feedAll formats calls).1 ++ ((d.feedAll formats calls).2.feedAll formats calls').1,
        ((d.feedAll formats calls).2.feedAll formats calls').2) := by
  induction calls generalizing d with
  | nil => rfl
  | cons call calls ih =>
    rw [List.cons_append, feedAll, ih, feedAll]
    rfl

theorem length_feedAll (calls : List (String × Value)) :
    (d.feedAll formats calls).1.length = calls.length := by
  induction calls generalizing d with
  | nil => rfl
  | cons call calls ih => rw [feedAll, List.length_cons, ih, List.length_cons]

/-- The answer to a call is that of the detector which the calls before it leave. -/
theorem getElem?_feedAll (earlier later : List (String × Value)) (call : String × Value) :
    (d.feedAll formats (earlier ++ call :: later)).1[earlier.length]? =
      some ((d.feedAll formats earlier).2.feed formats call.1 call.2).1 := by
  rw [feedAll_append, List.getElem?_append_right (length_feedAll earlier).le, length_feedAll,
    Nat.sub_self]
  rfl

/-- The calls at the end that look like `call`, as far as the detector knows. -/
def run (d : StallDetector) (call : String × String) : ℕ :=
  if (d.lastCap, d.lastArgs) = call then d.count else 0

theorem feed_eq (d : StallDetector) (call : String × Value) :
    d.feed formats call.1 call.2 =
      (decide (maxConsecutiveIdenticalCalls ≤ d.run (seen formats call) + 1),
        ⟨call.1, formats.jsonText call.2, d.run (seen formats call) + 1⟩) := by
  unfold feed run
  dsimp only
  -- the count goes on or begins again at one
  by_cases hsame : (d.lastCap, d.lastArgs) = seen formats call
  · obtain ⟨hcap, hargs⟩ := Prod.mk.inj hsame
    rw [if_pos hsame, if_pos ⟨hcap, hargs⟩, hcap, hargs]
  · rw [if_neg hsame, if_neg fun h => hsame (Prod.ext h.1 h.2)]

def Counts (d : StallDetector) (calls : List (String × String)) : Prop :=
  ∀ call, d.run call = Window.endRun call calls

/-- The empty strings of a new detector count for nothing. -/
theorem new_counts : new.Counts [] := fun _ => ite_self _

theorem feed_counts {calls : List (String × String)} (h : d.Counts calls)
    (call : String × Value) :
    (d.feed formats call.1 call.2).2.Counts (calls ++ [seen formats call]) := by
  intro other
  rw [feed_eq, Window.endRun_concat, ← h other]
  show (if seen formats call = other then _ else 0) = _
  by_cases hother : seen formats call = other
  · rw [if_pos hother, if_pos hother, hother]
  · rw [if_neg hother, if_neg hother]

theorem feedAll_counts (calls : List (String × Value)) :
    (new.feedAll formats calls).2.Counts (calls.map (seen formats)) := by
  induction calls using List.reverseRecOn with
  | nil => exact new_counts
  | append_singleton calls call ih =>
    rw [feedAll_append, List.map_append]
    exact feed_counts ih call

theorem Counts.count_le {calls : List (String × String)} (h : d.Counts calls) :
    d.count ≤ calls.length := by
  have hrun : d.count = Window.endRun (d.lastCap, d.lastArgs) calls := by
    rw [← h, run, if_pos rfl]
  exact hrun ▸ Window.endRun_le_length _ _

/-- A stall is a run of four, the call itself included. -/
theorem Counts.feed_iff {calls : List (String × String)} (h : d.Counts calls)
    (call : String × Value) : (d.feed formats call.1 call.2).1 = true ↔
      maxConsecutiveIdenticalCalls ≤
        Window.endRun (seen formats call) (calls ++ [seen formats call]) := by
  rw [feed_eq, Window.endRun_concat, if_pos rfl, ← h]
  exact decide_eq_true_iff

/-- A call is reported as a stall exactly if the three calls before it had its capability and its
args as well; the count never outgrows its 32 bits. -/
theorem feedAll_stalled_iff (formats : Formats) (calls : List (String × Value))
    (hcalls : calls.length < 2 ^ 32) :
    (∀ earlier, earlier <+: calls → (new.feedAll formats earlier).2.count < 2 ^ 32) ∧
      ∀ i < calls.length, ((new.feedAll formats calls).1[i]? = some true ↔
        3 ≤ i ∧ ∀ j, i - 3 ≤ j → j ≤ i →
          (calls[j]?).map (seen formats) = (calls[i]?).map (seen formats)) := by
  refine ⟨fun earlier hearlier => ?_, fun i hi => ?_⟩
  · have hcount := (@feedAll_counts formats earlier).count_le
    rw [List.length_map] at hcount
    exact (hcount.trans hearlier.length_le).trans_lt hcalls
  · obtain ⟨earlier, call, later, rfl, rfl⟩ : ∃ earlier call later,
        calls = earlier ++ call :: later ∧ i = earlier.length :=
      ⟨calls.take i, calls[i], calls.drop (i + 1), by simp, by simp; omega⟩
    -- up to the call that is answered the places are those of what the detector has seen
    have hplace : ∀ j ≤ earlier.length, ((earlier ++ call :: later)[j]?).map (seen formats) =
        (earlier.map (seen formats) ++ [seen formats call])[j]? := by
      intro j hj
      rw [← List.getElem?_map, List.map_append, List.map_cons, List.append_cons]
      exact List.getElem?_append_left (by simp; omega)
    have hthis : (earlier.map (seen formats) ++ [seen formats call])[earlier.length]? =
        some (seen formats call) := by
      simp
    rw [getElem?_feedAll, Option.some.injEq, (feedAll_counts earlier).feed_iff,
      Window.le_endRun_iff, hplace _ le_rfl, hthis, List.length_append, List.length_map,
      List.length_singleton, maxConsecutiveIdenticalCalls]
    refine and_congr (by omega) ⟨fun h j hj hle => ?_, fun h j hj hlt => ?_⟩
    · rw [hplace j hle]
      exact h j (by omega) (by omega)
    · rw [← hplace j (by omega)]
      exact h j (by omega) (by omega)

/-- The fourth of four calls for the same file is a stall. -/
theorem feedAll_stalled_fourth :
    (new.feedAll ⟨fun _ => "{}", id⟩ (List.replicate 4 ("fs.read", .object []))).1[3]? =
      some true :=
  ((feedAll_stalled_iff ⟨fun _ => "{}", id⟩ (List.replicate 4 ("fs.read", .object []))
    (by decide)).2 3 (by decide)).mpr ⟨le_rfl, fun j _ hj => by
      rw [List.getElem?_replicate_of_lt (by omega), List.getElem?_replicate_of_lt (by omega)]⟩

end StallDetector

end Pan
