import Pan.SkillTalks

namespace Pan

/-- What is still to be written when nobody answers. -/
def SkillSide.unanswered (client : PanClient) : SkillSide → String
  | running n p => p.unanswered client n
  | waiting n _ _ resume => (resume PanClient.hostClosed).unanswered client (n + 1)
  | exited _ => ""

namespace SkillTalk

variable {W : Type} {client : PanClient} {H : SkillHost} {invoker : ScopedInvoker W}
  {capacity : ℕ}

def acts (s : SkillTalk W) : List SkillAction := s.trace.filterMap SkillAction.seen?

/-- A line that returns the value is the first one in the pipe, or the host has read it. There is
room for all that the skill may still write behind it. -/
inductive Returned (client : PanClient) (H : SkillHost) (capacity : ℕ) (value : Value)
    (left : String) : String → HostSide → Prop where
  | pending (h : client.Agrees H.json (PanClient.returnMessage value)) (more : String)
      (hroom : (more ++ left).utf8ByteSize ≤ capacity) :
      Returned client H capacity value left
        (client.dumps (PanClient.returnMessage value) ++ "\n" ++ more) .listening
  | read (stdout : String) (hroom : (stdout ++ left).utf8ByteSize ≤ capacity) :
      Returned client H capacity value left stdout (.closed (.ok value.collect))

theorem Returned.append {value : Value} {text left stdout : String} {host : HostSide}
    (h : Returned client H capacity value (text ++ left) stdout host) :
    Returned client H capacity value left (stdout ++ text) host := by
  cases h with
  | pending hagree more hroom =>
    rw [String.append_assoc]
    rw [← String.append_assoc] at hroom
    exact .pending hagree (more ++ text) hroom
  | read stdout hroom =>
    rw [← String.append_assoc] at hroom
    exact .read _ hroom

theorem Returned.cases {value : Value} {left stdout : String} {host : HostSide}
    (h : Returned client H capacity value left stdout host) :
    (∃ more, client.Agrees H.json (PanClient.returnMessage value) ∧ host = .listening ∧
      (more ++ left).utf8ByteSize ≤ capacity ∧
      stdout = client.dumps (PanClient.returnMessage value) ++ "\n" ++ more) ∨
      host = .closed (.ok value.collect) ∧ (stdout ++ left).utf8ByteSize ≤ capacity := by
  cases h with
  | pending hagree more hroom => exact .inl ⟨more, hagree, rfl, hroom, rfl⟩
  | read _ hroom => exact .inr ⟨rfl, hroom⟩

/-- Where the two sides are, and what is still to be done of the program. At most one line is on its
way until the skill has returned. -/
inductive Phase (client : PanClient) (H : SkillHost) (invoker : ScopedInvoker W)
    (capacity : ℕ) : SkillTalk W → Eff SkillAction W (Except SkillError Value) → Prop where
  | running {s : SkillTalk W} {n : ℕ} {p : SkillProgram} (hskill : s.skill = .running n p)
      (hpipes : s.stdout = "" ∧ s.stdin = "") (hhost : s.host = .listening)
      (hp : p.Spoken client H invoker capacity n) :
      Phase client H invoker capacity s (p.direct invoker)
  | asked {s : SkillTalk W} {n : ℕ} {capability : String} {args : Value}
      {resume : Except PanException Value → SkillProgram}
      (hskill : s.skill = .waiting n capability args resume)
      (hpipes : s.stdout = client.dumps (PanClient.invokeMessage (n + 1) capability args) ++ "\n" ∧
        s.stdin = "") (hhost : s.host = .listening)
      (hp : (SkillProgram.invoke capability args resume).Spoken client H invoker capacity n) :
      Phase client H invoker capacity s
        ((SkillProgram.invoke capability args resume).direct invoker)
  | answered {s : SkillTalk W} {n : ℕ} {capability : String} {args : Value}
      {outcome : Except InvokeError Value} {resume : Except PanException Value → SkillProgram}
      (hskill : s.skill = .waiting n capability args resume)
      (hpipes : s.stdout = "" ∧ s.stdin = H.json.write (answerMessage (n + 1) outcome) ++ "\n")
      (hhost : s.host = .listening)
      (hline : '\n' ∉ (H.json.write (answerMessage (n + 1) outcome)).toList)
      (hloads : client.loads (H.json.write (answerMessage (n + 1) outcome) ++ "\n") =
        .ok (answerMessage (n + 1) outcome))
      (hp : (resume (outcome.mapError PanClient.raised)).Spoken client H invoker capacity
        (n + 1)) :
      Phase client H invoker capacity s
        ((resume (outcome.mapError PanClient.raised)).direct invoker)
  /-- The skill may go on, but nobody hears it. -/
  | returned {s : SkillTalk W} {value : Value} (hstdin : s.stdin = "")
      (h : Returned client H capacity value (s.skill.unanswered client) s.stdout s.host) :
      Phase client H invoker capacity s (pure (.ok value.collect))
  | exited {s : SkillTalk W} {e : SkillExit} (hskill : s.skill = .exited e)
      (hstdout : s.stdout = "")
      (hhost : s.host = .listening ∨ s.host = .closed (.error (.noReturn "" none))) :
      Phase client H invoker capacity s (pure (.error (.noReturn e.stderr e.code)))
  | stuck {s : SkillTalk W} {n : ℕ} {capability : String} {args : Value}
      {resume : Except PanException Value → SkillProgram}
      (hskill : s.skill = .waiting n capability args resume)
      (hpipes : s.stdout = "" ∧ s.stdin = "") (hhost : s.host = .stuck) :
      Phase client H invoker capacity s Eff.never

/-- What was done and what is still to be done. -/
def whole (s : SkillTalk W) (rest : Eff SkillAction W (Except SkillError Value)) :
    List SkillAction × Option (Except SkillError Value × W) :=
  (s.acts ++ (rest s.world).1, (rest s.world).2)

/-! ## Steps of the skill -/

theorem resumed_nil (n : ℕ) (capability : String) (args : Value)
    (resume : Except PanException Value → SkillProgram) :
    resumed client n capability args resume [] =
      .running (n + 1) (resume PanClient.hostClosed) := by
  rw [resumed, PanClient.invoke_apply]

theorem resumed_line (n : ℕ) (capability : String) (args : Value)
    (resume : Except PanException Value → SkillProgram) (line : String) :
    resumed client n capability args resume [line] =
      .running (n + 1) (resume (client.answered (n + 1) line)) := by
  rw [resumed, PanClient.invoke_apply]

/-- While the host waits for a line there is room for any text. -/
theorem takes_of_listening {s : SkillTalk W} (hhost : s.host = .listening) (hstdout : s.stdout = "")
    (text : String) : s.Takes capacity text := by
  left
  rw [drains, hhost, hstdout]
  rfl

/-- A step of the skill leaves alone what the host has done, and adds to what it has written. Unless
it is answered it goes on with what it writes then. -/
theorem skillStep_frame (client : PanClient) (capacity : ℕ) (s : SkillTalk W) : ∃ text,
    (s.skillStep client capacity).stdout = s.stdout ++ text ∧
      (s.skillStep client capacity).written = s.written ++ text ∧
      (s.skillStep client capacity).host = s.host ∧
      (s.skillStep client capacity).trace = s.trace ∧
      (s.skillStep client capacity).world = s.world ∧
      (s.stdin = "" → (s.skillStep client capacity).stdin = "" ∧ s.skill.unanswered client =
        text ++ (s.skillStep client capacity).skill.unanswered client) ∧
      (∀ e, s.skill = .exited e →
        text = "" ∧ (s.skillStep client capacity).skill = .exited e) := by
  unfold skillStep
  -- a skill writes only when the pipe takes the whole text; otherwise it stays where it is
  rcases hskill : s.skill with ⟨n, e | ⟨v, p⟩ | ⟨c, a, k⟩⟩ | ⟨n, c, a, k⟩ | e
  · exact ⟨"", by simp [SkillSide.unanswered, SkillProgram.unanswered]⟩
  · dsimp only
    unfold write
    split
    · exact ⟨_, rfl, rfl, rfl, rfl, rfl, fun h => ⟨h, rfl⟩, fun _ h => by cases h⟩
    · exact ⟨"", by simp [hskill]⟩
  · dsimp only
    unfold write
    split
    · exact ⟨_, rfl, rfl, rfl, rfl, rfl, fun h => ⟨h, rfl⟩, fun _ h => by cases h⟩
    · exact ⟨"", by simp [hskill]⟩
  · refine ⟨"", ?_⟩
    dsimp only
    split
    · rename_i hline
      refine ⟨by simp, by simp, rfl, rfl, rfl, fun h => ?_, fun _ h => by cases h⟩
      rw [h] at hline
      exact absurd hline (by decide)
    · split
      · refine ⟨by simp, by simp, rfl, rfl, rfl, fun h => ⟨rfl, ?_⟩, fun _ h => by cases h⟩
        rw [if_pos h, resumed_nil, String.empty_append]
        rfl
      · simp [hskill]
  · exact ⟨"", by simp [hskill]⟩

/-- The skill waits as long as the host may still answer. -/
theorem skillStep_idle {s : SkillTalk W} {n : ℕ} {capability : String} {args : Value}
    {resume : Except PanException Value → SkillProgram}
    (hskill : s.skill = .waiting n capability args resume)
    (hstdin : s.stdin = "") (hhost : ∀ outcome, s.host ≠ .closed outcome) :
    s.skillStep client capacity = s := by
  have hline : hasLine "" = false := rfl
  unfold skillStep
  rw [hskill]
  dsimp only
  rw [hstdin, hline, if_neg Bool.false_ne_true]
  rcases hs : s.host with _ | _ | outcome
  · rfl
  · rfl
  · exact absurd hs (hhost outcome)

section Steps

variable {s : SkillTalk W} {rest : Eff SkillAction W (Except SkillError Value)}

theorem skillStep_done {n : ℕ} {value : Value} {p : SkillProgram}
    (hskill : s.skill = .running n (.done value p))
    (htakes : s.Takes capacity (PanClient.text (client.done value) n)) :
    s.skillStep client capacity = { s with
      skill := .running n p,
      stdout := s.stdout ++ PanClient.text (client.done value) n,
      written := s.written ++ PanClient.text (client.done value) n } := by
  rw [skillStep, hskill]
  exact if_pos htakes

theorem skillStep_invoke {n : ℕ} {capability : String} {args : Value}
    {resume : Except PanException Value → SkillProgram}
    (hskill : s.skill = .running n (.invoke capability args resume))
    (htakes : s.Takes capacity (PanClient.text (client.invoke capability args) n)) :
    s.skillStep client capacity = { s with
      skill := .waiting n capability args resume,
      stdout := s.stdout ++ PanClient.text (client.invoke capability args) n,
      written := s.written ++ PanClient.text (client.invoke capability args) n } := by
  rw [skillStep, hskill]
  exact if_pos htakes

/-- A call that is answered ends as the invoker did. -/
theorem skillStep_answered {n : ℕ} {capability : String} {args : Value}
    {outcome : Except InvokeError Value} {resume : Except PanException Value → SkillProgram}
    (hskill : s.skill = .waiting n capability args resume)
    (hstdin : s.stdin = H.json.write (answerMessage (n + 1) outcome) ++ "\n")
    (hline : '\n' ∉ (H.json.write (answerMessage (n + 1) outcome)).toList)
    (hloads : client.loads (H.json.write (answerMessage (n + 1) outcome) ++ "\n") =
      .ok (answerMessage (n + 1) outcome)) :
    s.skillStep client capacity = { s with
      skill := .running (n + 1) (resume (outcome.mapError PanClient.raised)), stdin := "" } := by
  have hresume : client.answered (n + 1) (H.json.write (answerMessage (n + 1) outcome) ++ "\n") =
      outcome.mapError PanClient.raised := by
    rw [PanClient.answered, hloads]
    exact PanClient.receive_answerMessage (n + 1) outcome
  rw [skillStep, hskill]
  dsimp only
  rw [hstdin, ← String.append_empty (s := _ ++ "\n"), hasLine_line, if_pos rfl,
    readline_line hline, afterLine_line hline, resumed_line, hresume]

/-- A turn of the skill takes nothing from what is to be done. -/
theorem Phase.skillStep (h : Phase client H invoker capacity s rest) :
    ∃ rest', Phase client H invoker capacity (s.skillStep client capacity) rest' ∧
      (s.skillStep client capacity).whole rest' = s.whole rest := by
  obtain ⟨text, hstdout, -, hhost', htrace, hworld, hunanswered, hexited⟩ :=
    skillStep_frame client capacity s
  have hwhole : ∀ rest', (s.skillStep client capacity).whole rest' = s.whole rest' := by
    intro rest'
    rw [whole, whole, acts, acts, htrace, hworld]
  cases h with
  | @running n p hskill hpipes hhost hp =>
    refine ⟨_, ?_, hwhole _⟩
    have htakes : ∀ text, s.Takes capacity text := takes_of_listening hhost hpipes.1
    cases hp with
    | exit n e =>
      have hstep : s.skillStep client capacity = { s with skill := .exited e } := by
        rw [SkillTalk.skillStep, hskill]
      rw [hstep]
      exact .exited rfl hpipes.1 (.inl hhost)
    | @done n value p hagree hrest =>
      rw [skillStep_done hskill (htakes _)]
      refine .returned hpipes.2 ?_
      dsimp only
      rw [hpipes.1, String.empty_append, PanClient.text_done, hhost,
        ← String.append_empty (s := _ ++ "\n")]
      exact .pending hagree "" (by rwa [String.empty_append])
    | @invoke _ capability args resume hagree hanswer hresume =>
      rw [skillStep_invoke hskill (htakes _)]
      refine .asked rfl ⟨?_, hpipes.2⟩ hhost (.invoke hagree hanswer hresume)
      dsimp only
      rw [hpipes.1, String.empty_append, PanClient.text_invoke]
  | asked hskill hpipes hhost hp =>
    have hidle : s.skillStep client capacity = s :=
      skillStep_idle hskill hpipes.2 fun outcome h => by rw [hhost] at h; cases h
    rw [hidle]
    exact ⟨_, .asked hskill hpipes hhost hp, rfl⟩
  | answered hskill hpipes hhost hline hloads hp =>
    refine ⟨_, ?_, hwhole _⟩
    rw [skillStep_answered hskill hpipes.2 hline hloads]
    exact .running rfl ⟨hpipes.1, rfl⟩ hhost hp
  | @returned value hstdin hreturned =>
    obtain ⟨hstdin', hleft⟩ := hunanswered hstdin
    refine ⟨_, .returned hstdin' ?_, hwhole _⟩
    rw [hleft] at hreturned
    rw [hstdout, hhost']
    exact hreturned.append
  | exited hskill hstdout' hhost =>
    obtain ⟨rfl, hskill'⟩ := hexited _ hskill
    refine ⟨_, .exited hskill' ?_ ?_, hwhole _⟩
    · rw [hstdout, hstdout']
      rfl
    · rwa [hhost']
  | stuck hskill hpipes hhost =>
    have hidle : s.skillStep client capacity = s :=
      skillStep_idle hskill hpipes.2 fun outcome h => by rw [hhost] at h; cases h
    rw [hidle]
    exact ⟨_, .stuck hskill hpipes hhost, rfl⟩

end Steps

/-! ## Steps of the host -/

/-- What the loop makes of a request that is answered. -/
theorem loop_request {o : Except String String} {r : SkillRequest} {w w' : W}
    {actions : List Action} {outcome : Except InvokeError Value} (hevent : H.event o = .request r)
    (hcall : invoker r.capability r.args w = (actions, some (outcome, w')))
    (output : List (Except String String)) : H.loop invoker (o :: output) w =
      (.invoke r.capability r.args :: (actions.map .acted ++
        .write (H.answer r.id outcome) :: (H.loop invoker output w').1),
        (H.loop invoker output w').2) := by
  have hdone : ((invoker r.capability r.args).mapActions SkillAction.acted w).2 =
      some (outcome, w') := by
    rw [Eff.mapActions, hcall]
  rw [SkillHost.loop_cons, hevent]
  dsimp only
  rw [Eff.emit_bind_apply, Eff.bind_of_some hdone, Eff.emit_bind_apply, Eff.mapActions, hcall]

theorem filterMap_seen_acted (actions : List Action) :
    (actions.map SkillAction.acted).filterMap SkillAction.seen? = actions.map .acted := by
  rw [List.filterMap_map]
  exact List.filterMap_eq_map_iff_forall_eq_some.mpr fun _ _ => rfl

theorem hostStep_listening {s : SkillTalk W} (hhost : s.host = .listening)
    (hline : hasLine s.stdout = true) : s.hostStep H invoker =
      hear H invoker (nextLine s.stdout) { s with stdout := afterLine s.stdout } := by
  unfold hostStep
  rw [hhost]
  cases s.skill <;> simp only [hline, if_true]

/-- With nothing to read the host waits for the skill. -/
theorem hostStep_idle {s : SkillTalk W} (hstdout : s.stdout = "")
    (hskill : ∀ e, s.skill ≠ .exited e) : s.hostStep H invoker = s := by
  have hline : hasLine "" = false := rfl
  unfold hostStep
  rcases hs : s.skill with _ | _ | e
  · cases s.host <;> simp [hstdout, hline]
  · cases s.host <;> simp [hstdout, hline]
  · exact absurd hs (hskill e)

section Steps

variable {s : SkillTalk W} {rest : Eff SkillAction W (Except SkillError Value)}

theorem direct_invoke (capability : String) (args : Value)
    (resume : Except PanException Value → SkillProgram) (w : W) :
    (SkillProgram.invoke capability args resume).direct invoker w =
      match invoker capability (Python.or args (.object [])).collect w with
      | (actions, none) =>
        (.invoke capability (Python.or args (.object [])).collect :: actions.map .acted, none)
      | (actions, some (outcome, w')) =>
        let rest := (resume (outcome.mapError PanClient.raised)).direct invoker w'
        (.invoke capability (Python.or args (.object [])).collect ::
          (actions.map .acted ++ rest.1), rest.2) := by
  rw [SkillProgram.direct]
  dsimp only
  rw [Eff.emit_bind_apply, Eff.bind_eq, Eff.mapActions]
  rcases invoker capability (Python.or args (.object [])).collect w with
    ⟨actions, _ | ⟨outcome, w'⟩⟩ <;> rfl

/-- The runner's loop over the lines that the host has read, from the world at the start. -/
def Heard (H : SkillHost) (invoker : ScopedInvoker W) (w₀ : W) (s : SkillTalk W) : Prop :=
  match s.host with
  | .listening => ∃ heard : List String,
      (∀ more, lines (s.written ++ more) = heard ++ lines (s.stdout ++ more)) ∧
      ∀ output, H.loop invoker (heard.map .ok ++ output) w₀ =
        (s.trace ++ (H.loop invoker output s.world).1, (H.loop invoker output s.world).2)
  | .stuck => True
  | .closed outcome => ∀ more, (∀ e, s.skill = .exited e → more = "") →
      H.loop invoker ((lines (s.written ++ more)).map .ok) w₀ = (s.trace, some (outcome, s.world))

/-- What the skill writes is heard later, if at all. -/
theorem Heard.skillStep {w₀ : W} (h : Heard H invoker w₀ s) :
    Heard H invoker w₀ (s.skillStep client capacity) := by
  obtain ⟨text, hstdout, hwritten, hhost, htrace, hworld, -, hexited⟩ :=
    skillStep_frame client capacity s
  unfold Heard at h ⊢
  rw [hhost, htrace, hworld, hwritten, hstdout]
  rcases hs : s.host with _ | _ | outcome
  · rw [hs] at h
    obtain ⟨heard, hlines, hloop⟩ := h
    refine ⟨heard, fun more => ?_, hloop⟩
    rw [String.append_assoc, String.append_assoc]
    exact hlines (text ++ more)
  · trivial
  · rw [hs] at h
    intro more hmore
    rw [String.append_assoc]
    refine h (text ++ more) fun e he => ?_
    obtain ⟨rfl, he'⟩ := hexited e he
    rw [hmore e he']
    rfl

/-- What is done and what is to be done agree with the program, and with the runner's loop. -/
def Goes (client : PanClient) (H : SkillHost) (invoker : ScopedInvoker W) (capacity : ℕ) (w₀ : W)
    (s : SkillTalk W) (all : List SkillAction × Option (Except SkillError Value × W)) : Prop :=
  (∃ rest, Phase client H invoker capacity s rest ∧ s.whole rest = all) ∧ Heard H invoker w₀ s

/-- The loop has served the request that the host has. -/
theorem Heard.serve {w₀ w' : W} {obj : Value} {r : SkillRequest} {actions : List Action}
    {outcome : Except InvokeError Value} (h : Heard H invoker w₀ s) (hhost : s.host = .listening)
    (hagree : client.Agrees H.json obj) (hstdout : s.stdout = client.dumps obj ++ "\n" ++ "")
    (hevent : H.event (.ok (client.dumps obj)) = .request r)
    (hcall : invoker r.capability r.args s.world = (actions, some (outcome, w')))
    (stdin : String) :
    Heard H invoker w₀ { s with
      stdout := "",
      stdin := stdin,
      trace := s.trace ++ (.invoke r.capability r.args :: actions.map .acted ++
        [.write (H.answer r.id outcome)]),
      world := w' } := by
  rw [Heard, hhost] at h
  obtain ⟨heard, hlines, hloop⟩ := h
  rw [Heard]
  dsimp only
  rw [hhost]
  refine ⟨heard ++ [client.dumps obj], fun more => ?_, fun output => ?_⟩
  · rw [hlines, hstdout, String.append_empty, hagree.lines_append, String.empty_append]
    simp
  · rw [List.map_append, List.append_assoc, hloop]
    show (_ ++ (H.loop invoker (_ :: output) _).1, (H.loop invoker (_ :: output) _).2) = _
    rw [loop_request hevent hcall output]
    simp

/-- The request that is on its way is heard. -/
theorem goes_asked (hread : H.json.ReadsPlain) {w₀ : W} {n : ℕ} {capability : String} {args : Value}
    {resume : Except PanException Value → SkillProgram}
    (hskill : s.skill = .waiting n capability args resume)
    (hpipes : s.stdout = client.dumps (PanClient.invokeMessage (n + 1) capability args) ++ "\n" ∧
      s.stdin = "") (hhost : s.host = .listening)
    (hp : (SkillProgram.invoke capability args resume).Spoken client H invoker capacity n)
    (hheard : Heard H invoker w₀ s) :
    Goes client H invoker capacity w₀ (s.hostStep H invoker)
      (s.whole ((SkillProgram.invoke capability args resume).direct invoker)) := by
  cases hp with
  | invoke hagree hanswer hresume =>
  have hevent := SkillHost.event_invokeMessage hread hagree
  have hstdout : s.stdout = client.dumps (PanClient.invokeMessage (n + 1) capability args) ++
      "\n" ++ "" := by
    rw [hpipes.1, String.append_empty]
  have hstep : s.hostStep H invoker = _ := hostStep_listening hhost
    (hstdout ▸ hasLine_line _ _)
  rw [hstdout, hagree.nextLine_append, afterLine_line hagree.oneLine,
    hear_request hevent] at hstep
  rw [whole, direct_invoke]
  dsimp only at hstep
  -- the host has the whole line and puts the request to the invoker
  rcases hcall : invoker capability (Python.or args (.object [])).collect s.world with
    ⟨actions, _ | ⟨outcome, w'⟩⟩
  · -- the invoker never comes back
    rw [hcall] at hstep
    rw [hstep]
    refine ⟨⟨_, .stuck hskill ⟨rfl, hpipes.2⟩ rfl, ?_⟩, trivial⟩
    rw [whole, acts, List.filterMap_append, List.filterMap_cons, filterMap_seen_acted]
    exact congrArg (·, none) (List.append_nil _)
  · rw [hcall] at hstep
    dsimp only at hstep
    rw [hstep]
    have hcan : CanAnswer invoker capability (Python.or args (.object [])).collect outcome :=
      ⟨s.world, w', by rw [hcall]⟩
    obtain ⟨hline, hloads⟩ := hanswer outcome hcan
    refine ⟨⟨_, .answered hskill ⟨rfl, ?_⟩ hhost hline hloads (hresume outcome hcan), ?_⟩,
      hheard.serve hhost hagree hstdout hevent hcall _⟩
    · rw [SkillHost.answer_eq, hpipes.2]
      exact String.empty_append
    · rw [whole, acts, List.filterMap_append, List.filterMap_append, List.filterMap_cons,
        filterMap_seen_acted]
      simp [acts, SkillAction.seen?]

/-- The line that returns the value is heard. -/
theorem goes_returned {w₀ : W} {value : Value} {more : String}
    (hagree : client.Agrees H.json (PanClient.returnMessage value)) (hhost : s.host = .listening)
    (hstdout : s.stdout = client.dumps (PanClient.returnMessage value) ++ "\n" ++ more)
    (hstdin : s.stdin = "")
    (hroom : (more ++ s.skill.unanswered client).utf8ByteSize ≤ capacity)
    (hheard : Heard H invoker w₀ s) :
    Goes client H invoker capacity w₀ (s.hostStep H invoker)
      (s.whole (pure (.ok value.collect))) := by
  have hevent := SkillHost.event_returnMessage hagree
  have hstep : s.hostStep H invoker = _ := hostStep_listening hhost
    (hstdout ▸ hasLine_line _ _)
  rw [hstdout, hagree.nextLine_append, afterLine_line hagree.oneLine, hear, hevent] at hstep
  dsimp only at hstep
  rw [hstep]
  refine ⟨⟨_, .returned hstdin (.read _ hroom), rfl⟩, ?_⟩
  rw [Heard, hhost] at hheard
  obtain ⟨heard, hlines, hloop⟩ := hheard
  intro more' _
  rw [hlines, hstdout, String.append_assoc, hagree.lines_append, List.map_append, hloop]
  show (_ ++ (H.loop invoker (_ :: _) _).1, (H.loop invoker (_ :: _) _).2) = _
  rw [SkillHost.loop_cons, hevent]
  simp

/-- The end of the output is heard. -/
theorem goes_exited {w₀ : W} {e : SkillExit} (hskill : s.skill = .exited e)
    (hstdout : s.stdout = "") (hhost : s.host = .listening) (hheard : Heard H invoker w₀ s) :
    Goes client H invoker capacity w₀ (s.hostStep H invoker)
      (s.whole (pure (.error (.noReturn e.stderr e.code)))) := by
  have hline : hasLine "" = false := rfl
  have hstep : s.hostStep H invoker = { s with host := .closed (.error (.noReturn "" none)) } := by
    rw [hostStep, hhost, hskill]
    dsimp only
    rw [hstdout, hline, if_neg Bool.false_ne_true, if_pos rfl]
  rw [hstep]
  refine ⟨⟨_, .exited hskill hstdout (.inr rfl), rfl⟩, ?_⟩
  rw [Heard, hhost] at hheard
  obtain ⟨heard, hlines, hloop⟩ := hheard
  intro more hmore
  have hnone : lines "" = [] := by decide
  rw [hmore e hskill, hlines, hstdout, String.empty_append, hnone, List.append_nil]
  have hall := hloop []
  rw [List.append_nil] at hall
  rw [hall]
  simp [SkillHost.loop]

/-- A turn of the host does what is to be done next, and what the runner's loop does. -/
theorem Phase.hostStep (hread : H.json.ReadsPlain) (h : Phase client H invoker capacity s rest)
    {w₀ : W} (hheard : Heard H invoker w₀ s) :
    Goes client H invoker capacity w₀ (s.hostStep H invoker) (s.whole rest) := by
  have hidle : s.hostStep H invoker = s →
      Goes client H invoker capacity w₀ (s.hostStep H invoker) (s.whole rest) := fun hs => by
    rw [hs]
    exact ⟨⟨rest, h, rfl⟩, hheard⟩
  cases h with
  | running hskill hpipes hhost hp =>
    exact hidle (hostStep_idle hpipes.1 fun e he => by rw [hskill] at he; cases he)
  | asked hskill hpipes hhost hp => exact goes_asked hread hskill hpipes hhost hp hheard
  | answered hskill hpipes hhost hline hloads hp =>
    exact hidle (hostStep_idle hpipes.1 fun e he => by rw [hskill] at he; cases he)
  | returned hstdin hreturned =>
    obtain ⟨more, hagree, hhost, hroom, hstdout⟩ | ⟨hhost, -⟩ := hreturned.cases
    · exact goes_returned hagree hhost hstdout hstdin hroom hheard
    · exact hidle (by rw [SkillTalk.hostStep, hhost])
  | exited hskill hstdout hhost =>
    rcases hhost with hhost | hhost
    · exact goes_exited hskill hstdout hhost hheard
    · exact hidle (by rw [SkillTalk.hostStep, hhost])
  | stuck hskill hpipes hhost =>
    exact hidle (hostStep_idle hpipes.1 fun e he => by rw [hskill] at he; cases he)

end Steps

/-! ## Turns that change something -/

/-- The party is not waiting for the other, and not at its end. -/
def Can (client : PanClient) (capacity : ℕ) (s : SkillTalk W) : Party → Prop
  | .skill => match s.skill with
    | .running _ (.exit _) => True
    | .running n (.done value _) => s.Takes capacity (PanClient.text (client.done value) n)
    | .running n (.invoke capability args _) =>
      s.Takes capacity (PanClient.text (client.invoke capability args) n)
    | .waiting _ _ _ _ => hasLine s.stdin = true ∨ ∃ outcome, s.host = .closed outcome
    | .exited _ => False
  | .host => s.host = .listening ∧ (hasLine s.stdout = true ∨ ∃ e, s.skill = .exited e)

theorem step_of_not_can (s : SkillTalk W) (e : Party) (h : ¬s.Can client capacity e) :
    step client H invoker capacity s e = s := by
  cases e with
  | skill =>
    unfold step skillStep
    dsimp only
    rcases hs : s.skill with ⟨n, e | ⟨v, p⟩ | ⟨c, a, k⟩⟩ | ⟨n, c, a, k⟩ | _
    · simp [Can, hs] at h
    · simp only [Can, hs] at h
      exact if_neg h
    · simp only [Can, hs] at h
      exact if_neg h
    · simp only [Can, hs, not_or, not_exists] at h
      dsimp only
      rw [if_neg h.1]
      split
      · rename_i outcome hhost
        exact absurd hhost (h.2 outcome)
      · rfl
    · rfl
  | host =>
    simp only [Can, not_and, not_or, not_exists] at h
    unfold step hostStep
    dsimp only
    rcases hhost : s.host with _ | _ | _
    · obtain ⟨hline, hskill⟩ := h hhost
      rcases hs : s.skill with _ | _ | e
      · exact if_neg hline
      · exact if_neg hline
      · exact absurd hs (hskill e)
    · rfl
    · rfl

inductive Later : SkillSide → SkillSide → Prop where
  | exited (n : ℕ) (e : SkillExit) : Later (.exited e) (.running n (.exit e))
  | wrote (n : ℕ) (value : Value) (rest : SkillProgram) :
      Later (.running n rest) (.running n (.done value rest))
  | asked (n : ℕ) (capability : String) (args : Value)
      (resume : Except PanException Value → SkillProgram) :
      Later (.waiting n capability args resume) (.running n (.invoke capability args resume))
  | resumed (n : ℕ) (capability : String) (args : Value)
      (resume : Except PanException Value → SkillProgram) (result : Except PanException Value) :
      Later (.running (n + 1) (resume result)) (.waiting n capability args resume)

theorem acc_running (p : SkillProgram) (n : ℕ) : Acc Later (.running n p) := by
  induction p generalizing n with
  | exit e =>
    refine .intro _ fun side h => ?_
    cases h
    exact .intro _ fun _ h => by cases h
  | done value rest ih =>
    refine .intro _ fun side h => ?_
    cases h
    exact ih n
  | invoke capability args resume ih =>
    refine .intro _ fun side h => ?_
    cases h
    refine .intro _ fun side h => ?_
    cases h
    exact ih _ (n + 1)

theorem wellFounded_later : WellFounded Later := by
  refine ⟨fun side => ?_⟩
  rcases side with ⟨n, p⟩ | ⟨n, capability, args, resume⟩ | e
  · exact acc_running p n
  · refine .intro _ fun side h => ?_
    cases h
    exact acc_running _ (n + 1)
  · exact .intro _ fun _ h => by cases h

/-- A skill that is waiting and may go on is resumed. -/
theorem skillStep_resumes {s : SkillTalk W} {n : ℕ} {capability : String} {args : Value}
    {resume : Except PanException Value → SkillProgram}
    (hskill : s.skill = .waiting n capability args resume)
    (h : hasLine s.stdin = true ∨ ∃ outcome, s.host = .closed outcome) :
    ∃ stdin, (s.skillStep client capacity).skill =
      resumed client n capability args resume stdin := by
  rw [skillStep, hskill]
  dsimp only
  split
  · exact ⟨_, rfl⟩
  · rename_i hline
    obtain ⟨outcome, hhost⟩ := h.resolve_left hline
    rw [hhost]
    exact ⟨_, rfl⟩

theorem exists_resumed (n : ℕ) (capability : String) (args : Value)
    (resume : Except PanException Value → SkillProgram) (stdin : List String) :
    ∃ result, resumed client n capability args resume stdin =
      .running (n + 1) (resume result) := by
  rw [resumed, PanClient.invoke_apply]
  cases stdin with
  | nil => exact ⟨_, rfl⟩
  | cons line stdin => exact ⟨_, rfl⟩

/-- How much the host can still hear before the skill writes more. -/
def unheard (s : SkillTalk W) : ℕ :=
  match s.host with
  | .listening => s.stdout.length + 1
  | _ => 0

theorem hear_frame (H : SkillHost) (invoker : ScopedInvoker W) (line : String)
    (s : SkillTalk W) :
    (hear H invoker line s).skill = s.skill ∧
      (hear H invoker line s).unheard ≤ s.stdout.length + 1 := by
  unfold hear
  split
  · exact ⟨rfl, by unfold unheard; split <;> omega⟩
  · exact ⟨rfl, Nat.zero_le _⟩
  · split
    · exact ⟨rfl, Nat.zero_le _⟩
    · exact ⟨rfl, by unfold unheard; split <;> simp⟩

/-- Whoever moves, either the skill moves on or there is less to hear. -/
theorem step_progress (s : SkillTalk W) (e : Party) (h : s.Can client capacity e) :
    Later (step client H invoker capacity s e).skill s.skill ∨
      (step client H invoker capacity s e).skill = s.skill ∧
        (step client H invoker capacity s e).unheard < s.unheard := by
  cases e with
  | skill =>
    left
    show Later (s.skillStep client capacity).skill s.skill
    -- a skill that can move exits, writes, asks or takes an answer; each brings it further
    rcases hs : s.skill with ⟨n, e | ⟨v, p⟩ | ⟨c, a, k⟩⟩ | ⟨n, c, a, k⟩ | e
    · rw [skillStep, hs]
      exact .exited n e
    · simp only [Can, hs] at h
      rw [skillStep_done hs h]
      exact .wrote n v p
    · simp only [Can, hs] at h
      rw [skillStep_invoke hs h]
      exact .asked n c a k
    · obtain ⟨stdin, hstdin⟩ := skillStep_resumes hs (by simpa only [Can, hs] using h)
      obtain ⟨result, hresult⟩ : ∃ result, resumed client n c a k stdin =
        .running (n + 1) (k result) := exists_resumed n c a k stdin
      rw [hstdin, hresult]
      exact .resumed n c a k result
    · simp [Can, hs] at h
  | host =>
    right
    obtain ⟨hhost, hread⟩ := h
    have hbefore : s.unheard = s.stdout.length + 1 := by rw [unheard, hhost]
    rw [hbefore]
    show (s.hostStep H invoker).skill = _ ∧ (s.hostStep H invoker).unheard < _
    -- a whole line is taken from the pipe, or what is left of it after the skill is gone
    by_cases hline : hasLine s.stdout = true
    · obtain ⟨hskill, hle⟩ := hear_frame H invoker (nextLine s.stdout)
        { s with stdout := afterLine s.stdout }
      have hlt := length_afterLine_lt hline
      rw [hostStep_listening hhost hline]
      exact ⟨hskill, by dsimp only at hle; omega⟩
    · obtain ⟨e, he⟩ := hread.resolve_left hline
      unfold hostStep
      rw [hhost, he]
      dsimp only
      rw [if_neg hline]
      split
      · exact ⟨rfl, Nat.zero_lt_succ _⟩
      · rename_i hne
        obtain ⟨hskill, hle⟩ := hear_frame H invoker s.stdout
          { s with stdout := "" }
        have hpos : 0 < s.stdout.length := Nat.pos_of_ne_zero fun h0 =>
          hne (String.length_eq_zero_iff.mp h0)
        have hzero : ("" : String).length = 0 := rfl
        rw [hhost, he] at hskill hle
        dsimp only at hskill hle
        exact ⟨hskill, by omega⟩

/-- The runner has returned, or it waits for the invoker for good. -/
def Over (s : SkillTalk W) : Prop := s.host = .stuck ∨ s.result.isSome = true

theorem Over.step {s : SkillTalk W} (h : s.Over) (e : Party) :
    (step client H invoker capacity s e).Over := by
  rcases h with hstuck | hresult
  · left
    cases e with
    | skill =>
      obtain ⟨-, -, -, hhost, -⟩ := skillStep_frame client capacity s
      exact hhost.trans hstuck
    | host =>
      have hidle : s.hostStep H invoker = s := by rw [hostStep, hstuck]
      exact (congrArg SkillTalk.host hidle).trans hstuck
  · have hidle : SkillTalk.step client H invoker capacity s e = s := by
      refine step_of_not_can s e fun hcan => ?_
      unfold result at hresult
      split at hresult
      · rename_i hhost hskill
        cases e with
        | skill => simp [Can, hskill] at hcan
        | host => simp [Can, hhost] at hcan
      · cases hresult
    rw [hidle]
    exact .inr hresult

section Phases

variable {s : SkillTalk W} {rest : Eff SkillAction W (Except SkillError Value)}

/-- When nobody reads any more, the skill goes on as long as what it writes fits. -/
theorem can_of_closed {s : SkillTalk W} {outcome : Except SkillError Value}
    (hhost : s.host = .closed outcome)
    (hroom : (s.stdout ++ s.skill.unanswered client).utf8ByteSize ≤ capacity)
    (hlive : ∀ e, s.skill ≠ .exited e) : s.Can client capacity .skill := by
  have htakes : ∀ text rest, s.skill.unanswered client = text ++ rest → s.Takes capacity text := by
    intro text rest htext
    rw [htext, ← String.append_assoc, String.utf8ByteSize_append] at hroom
    exact .inr (Nat.le_of_add_right_le hroom)
  unfold Can
  dsimp only
  rcases hs : s.skill with ⟨n, e | ⟨v, p⟩ | ⟨c, a, k⟩⟩ | ⟨n, c, a, k⟩ | e
  · trivial
  · exact htakes _ (p.unanswered client n) (by rw [hs]; rfl)
  · exact htakes _ ((k PanClient.hostClosed).unanswered client (n + 1)) (by rw [hs]; rfl)
  · exact .inr ⟨outcome, hhost⟩
  · exact hlive e hs

/-- There is no deadlock. -/
theorem Phase.exists_can (h : Phase client H invoker capacity s rest) (hover : ¬s.Over) :
    ∃ e, s.Can client capacity e := by
  -- in every phase there is one of the two whose turn it is
  cases h with
  | @running n p hskill hpipes hhost hp =>
    have htakes : ∀ text, s.Takes capacity text := takes_of_listening hhost hpipes.1
    refine ⟨.skill, ?_⟩
    rw [Can, hskill]
    cases p with
    | exit e => trivial
    | done value p => exact htakes _
    | invoke capability args resume => exact htakes _
  | asked hskill hpipes hhost hp =>
    refine ⟨.host, hhost, .inl ?_⟩
    rw [hpipes.1, ← String.append_empty (s := _ ++ "\n")]
    exact hasLine_line _ _
  | answered hskill hpipes hhost =>
    refine ⟨.skill, ?_⟩
    rw [Can, hskill]
    left
    rw [hpipes.2, ← String.append_empty (s := _ ++ "\n")]
    exact hasLine_line _ _
  | returned hstdin hreturned =>
    obtain ⟨more, hagree, hhost, -, hstdout⟩ | ⟨hhost, hroom⟩ := hreturned.cases
    · exact ⟨.host, hhost, .inl (hstdout ▸ hasLine_line _ _)⟩
    · refine ⟨.skill, can_of_closed hhost hroom fun e he => hover (.inr ?_)⟩
      rw [result, hhost, he]
      rfl
  | @exited e hskill hstdout hhost =>
    rcases hhost with hhost | hhost
    · exact ⟨.host, hhost, .inr ⟨e, hskill⟩⟩
    · exact absurd (.inr (by rw [result, hhost, hskill]; rfl)) hover
  | stuck hskill hpipes hhost => exact absurd (.inl hhost) hover

/-- In the end all is done. -/
theorem Phase.whole_of_over (h : Phase client H invoker capacity s rest) (hover : s.Over) :
    (s.acts, s.result) = s.whole rest := by
  -- a run that is over has left the read loop, so half of the phases are past
  have hlistening : s.host ≠ .listening := by
    intro hhost
    rcases hover with hstuck | hresult
    · rw [hhost] at hstuck
      cases hstuck
    · rw [result, hhost] at hresult
      cases hresult
  cases h with
  | running _ _ hhost => exact absurd hhost hlistening
  | asked _ _ hhost => exact absurd hhost hlistening
  | answered _ _ hhost => exact absurd hhost hlistening
  | @returned value hstdin hreturned =>
    obtain ⟨more, hagree, hhost, -⟩ | ⟨hhost, -⟩ := hreturned.cases
    · exact absurd hhost hlistening
    · rcases hover with hstuck | hresult
      · rw [hhost] at hstuck
        cases hstuck
      · unfold result at hresult
        rw [hhost] at hresult
        rcases hs : s.skill with _ | _ | e
        · rw [hs] at hresult
          cases hresult
        · rw [hs] at hresult
          cases hresult
        · rw [result, hhost, hs, whole]
          simp [SkillExit.enrich]
  | @exited e hskill hstdout hhost =>
    have hclosed := hhost.resolve_left hlistening
    rw [result, hclosed, hskill, whole]
    simp [SkillExit.enrich]
  | stuck hskill hpipes hhost =>
    rw [result, hhost, whole]
    simp

end Phases

section Runs

variable {p : SkillProgram}

/-- After every run the talk is in a phase of the program, and the runner's loop has done what the
host has. -/
theorem reached_phase (hread : H.json.ReadsPlain)
    (hp : p.Spoken client H invoker capacity 0) (w : W) (es : List Party) :
    (∃ rest,
      Phase client H invoker capacity ((talk client H invoker capacity p w).reached es) rest ∧
      ((talk client H invoker capacity p w).reached es).whole rest = p.direct invoker w) ∧
      Heard H invoker w ((talk client H invoker capacity p w).reached es) := by
  refine Machine.invariant (M := talk client H invoker capacity p w) (I := fun _ s =>
    (∃ rest, Phase client H invoker capacity s rest ∧ s.whole rest = p.direct invoker w) ∧
      Heard H invoker w s) ?_ ?_ es
  · refine ⟨⟨_, .running rfl ⟨rfl, rfl⟩ rfl hp, rfl⟩, [], fun more => rfl, fun output => rfl⟩
  · rintro es s e ⟨⟨rest, hphase, hwhole⟩, hheard⟩
    cases e with
    | skill =>
      obtain ⟨rest', hphase', hwhole'⟩ := hphase.skillStep
      exact ⟨⟨rest', hphase', hwhole'.trans hwhole⟩, hheard.skillStep⟩
    | host =>
      obtain ⟨⟨rest', hphase', hwhole'⟩, hheard'⟩ := hphase.hostStep hread hheard
      exact ⟨⟨rest', hphase', hwhole'.trans hwhole⟩, hheard'⟩

theorem exists_rounds_over (hread : H.json.ReadsPlain)
    (hp : p.Spoken client H invoker capacity 0) (w : W) :
    ∃ n, ∀ es, FairRounds n es → ((talk client H invoker capacity p w).reached es).Over := by
  have hwf : WellFounded fun s' s : SkillTalk W =>
      ∃ e, s.Can client capacity e ∧ s' = step client H invoker capacity s e := by
    refine Subrelation.wf ?_ (InvImage.wf (fun s : SkillTalk W => (s.skill, s.unheard))
      (wellFounded_later.prod_lex Nat.lt_wfRel.wf))
    rintro s' s ⟨e, hcan, rfl⟩
    rcases step_progress s e hcan with hlater | ⟨hskill, hless⟩
    · exact .left _ _ hlater
    · show Prod.Lex _ _ (_, _) (_, _)
      rw [hskill]
      exact .right _ hless
  refine Machine.exists_rounds_done step_of_not_can hwf
    (I := fun s => ∃ es, s = (talk client H invoker capacity p w).reached es) ?_
    (fun s e h => h.step e) ?_
    (talk client H invoker capacity p w).init ⟨[], rfl⟩
  · rintro s e ⟨es, rfl⟩
    exact ⟨es ++ [e], (Machine.reached_concat (talk client H invoker capacity p w) es e).symm⟩
  · rintro s ⟨es, rfl⟩ hover
    obtain ⟨⟨rest, hphase, -⟩, -⟩ := reached_phase hread hp w es
    exact hphase.exists_can hover

end Runs

def returnsTrue : String := "\x7b\"type\": \"return\", \"value\": true\x7d"

def hostsTrue : SkillHost where
  json := .readsOnly [(PanClient.firstCall "true", PanClient.invokeMessage 1 "cap.x" (.bool true)),
    (returnsTrue, PanClient.returnMessage (.bool true))]
  detail _ := ""
  spawn _ := .error ""

def hearsTrue : PanClient where
  dumps obj := if (obj.get "type").bind Value.asStr = some "return" then returnsTrue
    else PanClient.firstCall "true"
  loads line := if line = hostsTrue.json.write (answerMessage 1 (.ok (.bool true))) ++ "\n" then
      .ok (answerMessage 1 (.ok (.bool true)))
    else .error "Expecting value"
  repr _ := ""

def mirror : ScopedInvoker Unit := fun _ args => return .ok args

def asksTrue : SkillProgram := .invoke "cap.x" (.bool true) fun _ =>
  .done (.bool true) (.done (.bool true) (.exit ⟨"", some 0⟩))

theorem dumps_invokeMessage : hearsTrue.dumps (PanClient.invokeMessage 1 "cap.x" (.bool true)) =
    PanClient.firstCall "true" := by
  unfold hearsTrue
  dsimp only
  exact if_neg (by decide)

theorem dumps_returnMessage :
    hearsTrue.dumps (PanClient.returnMessage (.bool true)) = returnsTrue := by
  unfold hearsTrue
  dsimp only
  exact if_pos rfl

theorem loads_answerMessage :
    hearsTrue.loads (hostsTrue.json.write (answerMessage 1 (.ok (.bool true))) ++ "\n") =
      .ok (answerMessage 1 (.ok (.bool true))) := by
  unfold hearsTrue
  dsimp only
  exact if_pos rfl

theorem agrees_hearsTrue :
    hearsTrue.Agrees hostsTrue.json (PanClient.invokeMessage 1 "cap.x" (.bool true)) ∧
      hearsTrue.Agrees hostsTrue.json (PanClient.returnMessage (.bool true)) := by
  have hnodup : [PanClient.firstCall "true", returnsTrue].Nodup := by
    have hne : PanClient.firstCall "true" ≠ returnsTrue := by decide
    simpa using hne
  have hagree := PanClient.agrees_writes "true" (by simp) (.bool true)
  refine ⟨⟨?_, ?_, ?_⟩, ⟨?_, ?_, ?_⟩⟩
  · rw [dumps_invokeMessage]
    exact JsonText.read_readsOnly (by exact hnodup) List.mem_cons_self
  · rw [dumps_invokeMessage]
    exact hagree.oneLine
  · rw [dumps_invokeMessage]
    exact hagree.braces
  · rw [dumps_returnMessage]
    exact JsonText.read_readsOnly (by exact hnodup) (List.mem_cons_of_mem _ List.mem_cons_self)
  · rw [dumps_returnMessage]
    simp [returnsTrue]
  · refine ⟨"\"type\": \"return\", \"value\": true".toList, ?_⟩
    rw [dumps_returnMessage]
    simp [returnsTrue]

theorem spoken_asksTrue : asksTrue.Spoken hearsTrue hostsTrue mirror 65536 0 := by
  obtain ⟨hinvoke, hreturn⟩ := agrees_hearsTrue
  refine .invoke hinvoke ?_ fun _ _ => .done hreturn ?_
  · rintro outcome ⟨w, w', hanswer⟩
    cases hanswer
    refine ⟨?_, loads_answerMessage⟩
    rw [JsonText.write, String.toList_ofList]
    refine JsonText.newline_notMem_chars JsonText.floatsOnOneLine_readsOnly
      (plain_resultMessage (by decide) true ?_ (by simp))
    rintro v hv
    cases hv
    exact .bool true
  · rw [SkillProgram.unanswered, PanClient.text_done, dumps_returnMessage]
    show (returnsTrue ++ "\n" ++ "").utf8ByteSize ≤ 65536
    decide

end SkillTalk

end Pan
