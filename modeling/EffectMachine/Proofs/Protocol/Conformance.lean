import EffectMachine.Proofs.Acts.Lives
import EffectMachine.Proofs.Acts.Moments
import EffectMachine.Proofs.Protocol.Modes
import EffectMachine.Proofs.Protocol.Stages

/-!
# Stacks keep to the resume protocol

Every act of a step, done in the order of the step, is one that the protocol knows (`Stands.does`, with a lemma for each
act before it); so the stages of the frames can be followed through every history (`History.stands`) and to every moment
of it.
-/

namespace EffectMachine

/-- What a mode says about the stages of a stack. -/
def Mode.Suits : Mode → List Stage → Prop
  | .steady, stages => ∃ top rest, stages = top :: rest ∧ top ≠ .running
  | .handling, stages => ∀ top ∈ stages.head?, top.Waits
  | .busy, _ => True

/-- The protocol knows an act by which a stack gets some frames, and they suit a mode. -/
def Conforms (stages : List Stage) (act : Act) (frames : List Frame) (mode : Mode) : Prop :=
  ∃ after, Protocol stages act after ∧ Stands after frames ∧ mode.Suits after

namespace Run

/-- The top frame takes over the value of the effect it performed. -/
theorem stack_answerTop (run : Run) (value : Value) :
    (run.answerTop value).stack = run.stack.withTop fun frame => frame.absorb (.ok value) := by
  unfold answerTop
  cases hfinished : run.stack.top.isFinished with
  | true => simp [Stack.withTop, Frame.absorb, hfinished]
  | false => simp [withTop, Stack.withTop, Frame.absorb, hfinished]

/-- The top frame takes over an error. -/
theorem stack_failTop (run : Run) (error : Error) :
    (run.failTop error).stack = run.stack.withTop fun frame => frame.absorb (.error error) := by
  unfold failTop
  cases hfinished : run.stack.top.isFinished with
  | false => simp [withTop, Stack.withTop, Frame.absorb, hfinished]
  | true =>
      cases hresult : run.stack.top.result with
      | ok value => simp [withTop, Stack.withTop, Frame.absorb, hfinished, hresult]
      | error existing => simp [emit, Stack.withTop, Frame.absorb, hfinished, hresult]

end Run

/-- A frame that has finished is not the sentinel. -/
theorem Frame.ne_root_of_isFinished {frame : Frame} (hfinished : frame.isFinished = true) : frame.progress ≠ .root := by
  intro hroot
  rw [isFinished, hroot] at hfinished
  cases hfinished

namespace Mode

variable {mode later : Mode} {act : Act}

/-- An act of handling an effect comes where one is to be handled, and that is all. -/
theorem eq_of_handles (hhandles : mode.next act = if mode = .handling then some .busy else none)
    (hnext : mode.next act = some later) : mode = .handling ∧ later = .busy := by
  rw [hhandles] at hnext
  split at hnext
  · exact ⟨‹_›, (Option.some.inj hnext).symm⟩
  · cases hnext

/-- Where a frame is discarded, the effect is still to be handled. -/
theorem eq_of_dropped (hnext : mode.next .dropped = some later) : mode = .handling ∧ later = .handling := by
  simp only [next] at hnext
  split at hnext
  · exact ⟨‹_›, (Option.some.inj hnext).symm⟩
  · cases hnext

/-- A frame ends without its computation only where it gets its turn. -/
theorem eq_of_turns (hturn : mode.next act = if mode = .steady then some .busy else none)
    (hnext : mode.next act = some later) : mode = .steady ∧ later = .busy := by
  rw [hturn] at hnext
  split at hnext
  · exact ⟨‹_›, (Option.some.inj hnext).symm⟩
  · cases hnext

end Mode

/-- What the computation of a frame does, it does at the right stage. -/
theorem Stage.Agrees.plays {stage : Stage} {frame after : Frame} {act : Act} (hagrees : stage.Agrees frame)
    (hdoes : frame.Does act after) (hown : act.isAside = false) :
    ∃ later, stage.Does act later ∧ later.Agrees after := by
  obtain ⟨hat, hresult, hcancellation⟩ := hagrees
  cases hdoes with
  | tell _ _ htells =>
      have haside : act.isAside = true := by cases act <;> first | rfl | cases htells
      rw [haside] at hown
      cases hown
  | defer effect | start effect defers hfinished hdefers | notice => cases hown
  | begin body hfresh hkept =>
      rw [hfresh] at hat
      cases hat with
      | unborn => exact absurd (hcancellation _ rfl) hkept
      | fresh =>
          rw [hresult _ rfl]
          exact ⟨_, .begin, .running body, fun _ hmem => Option.some.inj hmem, hcancellation⟩
  | resume resume hsuspended hkept =>
      rw [hsuspended] at hat
      cases hat with
      | doomed => exact absurd (hcancellation _ rfl) hkept
      | asking =>
          rw [hresult _ rfl]
          exact ⟨_, .resume, .running _, fun _ hmem => Option.some.inj hmem, hcancellation⟩
      | answered outcome =>
          rw [hresult _ rfl]
          exact ⟨_, .resumeWith outcome, .running _, fun _ hmem => Option.some.inj hmem, hcancellation⟩
  | act action resume reply hrunning =>
      rw [hrunning] at hat
      cases hat
      exact ⟨_, .act action reply, .running _, hresult, hcancellation⟩
  | wait action resume hrunning =>
      rw [hrunning] at hat
      cases hat
      exact ⟨_, .wait action, hrunning ▸ .running _, hresult, hcancellation⟩
  | perform effect resume hrunning =>
      rw [hrunning] at hat
      cases hat
      exact ⟨_, .perform effect, .asking resume, hresult, hcancellation⟩
  | complete outcome hrunning =>
      rw [hrunning] at hat
      cases hat
      exact ⟨_, .complete outcome, .ended outcome, fun _ hmem => Option.some.inj hmem,
        fun _ hmem => absurd hmem (Option.not_mem_none _)⟩
  | giveUp hfinished hdue =>
      have hended : ∃ later, stage.Does .givenUp later ∧ later = .ended (.ok .null) := by
        cases stage with
        | doomed begun => exact ⟨_, .giveUp begun, rfl⟩
        | fresh | running | asking | answered outcome =>
            have hnone := hcancellation _ rfl
            rw [hdue] at hnone
            cases hnone
        | ended outcome =>
            have hstage : (Stage.ended outcome).Agrees frame := ⟨hat, hresult, hcancellation⟩
            rw [hstage.isFinished_iff.2 ⟨outcome, rfl⟩] at hfinished
            cases hfinished
      obtain ⟨_, hgiven, rfl⟩ := hended
      exact ⟨_, hgiven, .ended _, fun _ hmem => Option.some.inj hmem,
        fun _ hmem => absurd hmem (Option.not_mem_none _)⟩
  | vacate hroot => exact absurd hroot hat.ne_root

namespace Stands

variable {stages : List Stage} {frames : List Frame} {top : Frame} {below : List Frame}

/-- Frames below others wait. -/
theorem waits_of_mem {stage : Stage} (stands : Stands (stage :: stages) frames) :
    ∀ other ∈ stages, other.Waits := by
  induction stages generalizing stage frames with
  | nil => simp
  | cons second stages ih =>
      cases stands with
      | above hagrees hwaits rest =>
          intro other hmem
          rcases List.mem_cons.1 hmem with rfl | hrest
          · exact hwaits _ rfl
          · exact ih rest other hrest

/-- No frame runs if the top one does not. -/
theorem running_not_mem {stage : Stage} (stands : Stands (stage :: stages) frames) (hidle : stage ≠ .running) :
    Stage.running ∉ stage :: stages := by
  intro hmem
  rcases List.mem_cons.1 hmem with hhead | hrest
  · exact hidle hhead.symm
  · exact stands.waits_of_mem _ hrest

/-- The top frame is not the sentinel if there is one below it. -/
theorem exists_above {parent : Frame} {rest : List Frame} (stands : Stands stages (top :: parent :: rest)) :
    ∃ stage others, stages = stage :: others ∧ stage.Agrees top ∧ (∀ below ∈ others.head?, below.Waits) ∧
      Stands others (parent :: rest) := by
  cases stands with
  | above hagrees hwaits stands => exact ⟨_, _, rfl, hagrees, hwaits, stands⟩

/-- The top frame is not the sentinel if it has a computation. -/
theorem exists_at (stands : Stands stages (top :: below)) (hcomputes : top.progress ≠ .root) :
    ∃ stage others, stages = stage :: others ∧ stage.Agrees top ∧ (∀ below ∈ others.head?, below.Waits) ∧
      Stands others below := by
  cases stands with
  | sentinel hroot htag => exact absurd hroot hcomputes
  | above hagrees hwaits stands => exact ⟨_, _, rfl, hagrees, hwaits, stands⟩

/-- A frame that has a stage is not the sentinel. -/
theorem computes {stage : Stage} (stands : Stands (stage :: stages) (top :: below)) : top.progress ≠ .root := by
  cases stands with
  | above hagrees hwaits rest => exact hagrees.progress.ne_root

/-- The sentinel takes over any outcome. -/
theorem sentinel_absorb (hroot : top.progress = .root) (htag : top.tag = none) (outcome : Outcome) :
    Stands [] [top.absorb outcome] := by
  have habsorbed : top.absorb outcome = { top with result := outcome } := by
    simp [Frame.absorb, Frame.isFinished, hroot]
  rw [habsorbed]
  exact .sentinel hroot htag

/-- The computation of the top frame does what the protocol lets it do. -/
theorem plays {act : Act} {after : Frame} (stands : Stands stages (top :: below)) (hdoes : top.Does act after)
    (hown : act.isAside = false) (hcomputes : top.progress ≠ .root) :
    ∃ stage later others, stages = stage :: others ∧ stage.Does act later ∧
      Protocol stages act (later :: others) ∧ Stands (later :: others) (after :: below) := by
  obtain ⟨stage, others, rfl, hagrees, hwaits, hrest⟩ := stands.exists_at hcomputes
  obtain ⟨later, hstage, hafter⟩ := hagrees.plays hdoes hown
  exact ⟨stage, later, others, rfl, hstage, .top hstage others, .above hafter hwaits hrest⟩

/-- A computation is put on top. -/
theorem pushed (stands : Stands stages frames) (hsuits : Mode.handling.Suits stages) (computation : Computation)
    (tag : Option HandlerTag) :
    Conforms stages (.pushed computation tag) (.ofComputation computation tag :: frames) .busy := by
  refine ⟨_, .push hsuits computation tag, .above ⟨.fresh _, ?_, ?_⟩ hsuits stands, trivial⟩
  · exact fun _ hmem => Option.some.inj hmem
  · exact fun _ hmem => Option.some.inj hmem

/-- The top frame is discarded, and the one below it has the effect to be handled. -/
theorem dropped {parent : Frame} {rest : List Frame} (stands : Stands stages (top :: parent :: rest))
    (hsuits : Mode.handling.Suits stages) : Conforms stages .dropped (parent :: rest) .handling := by
  obtain ⟨stage, others, rfl, hagrees, hwaits, hrest⟩ := stands.exists_above
  exact ⟨others, .drop (hsuits _ rfl) _, hrest, hwaits⟩

/-- An effect is deferred on the top frame, the sentinel included. -/
theorem deferred (stands : Stands stages (top :: below)) (hsuits : Mode.handling.Suits stages) (effect : Effect) :
    Conforms stages (.deferred effect) ({ top with defers := effect :: top.defers } :: below) .busy := by
  cases stands with
  | sentinel hroot htag => exact ⟨[], .baseDefer effect, .sentinel hroot htag, trivial⟩
  | above hagrees hwaits hrest =>
      exact ⟨_, .top (.defer (hsuits _ rfl) effect) _,
        .above ⟨hagrees.progress, hagrees.result, hagrees.cancellation⟩ hwaits hrest, trivial⟩

/-- A deferred effect is taken off the top frame to be handled. -/
theorem started (stands : Stands stages (top :: below)) (hfinished : top.isFinished = true) (effect : Effect)
    (defers : List Effect) : Conforms stages (.started effect) ({ top with defers } :: below) .handling := by
  obtain ⟨stage, others, rfl, hagrees, hwaits, hrest⟩ := stands.exists_at (Frame.ne_root_of_isFinished hfinished)
  obtain rfl := hagrees.eq_ended hfinished
  refine ⟨_, .top (.start _ effect) others,
    .above ⟨hagrees.progress, hagrees.result, hagrees.cancellation⟩ hwaits hrest, ?_⟩
  rintro _ ⟨⟩
  trivial

/-- The frame that is told something takes it over as its stage says; the sentinel does not mind. -/
theorem told {act : Act} {outcome : Outcome} (stands : Stands stages (top :: below))
    (hsuits : Mode.handling.Suits stages) (hdoes : ∀ stage : Stage, stage.Waits → stage.Does act (stage.told outcome))
    (hbase : Protocol [] act []) : Conforms stages act (top.absorb outcome :: below) .busy := by
  cases stands with
  | sentinel hroot htag =>
      exact ⟨[], hbase, sentinel_absorb hroot htag outcome, trivial⟩
  | above hagrees hwaits stands =>
      have htop := hsuits _ rfl
      exact ⟨_, .top (hdoes _ htop) _, .above (hagrees.absorb htop outcome) hwaits stands, trivial⟩

/-- The top frame takes the error of the frame below. -/
theorem caught {parent : Frame} {rest : List Frame} {error : Error} (stands : Stands stages (top :: parent :: rest))
    (hsuits : Mode.handling.Suits stages) (hfinished : parent.isFinished = true) (herror : parent.result = .error error) :
    Conforms stages (.caught error)
      ({ top with result := .ok (.error error) } :: { parent with result := .ok .null } :: rest) .busy := by
  obtain ⟨stage, others, rfl, hagrees, hwaits, hrest⟩ := stands.exists_above
  obtain ⟨second, others, rfl, hsecond, hothers, hlow⟩ := hrest.exists_at (Frame.ne_root_of_isFinished hfinished)
  obtain rfl := hsecond.eq_ended hfinished
  have hrobbed : (Stage.ended (.ok .null)).Agrees { parent with result := .ok .null } :=
    ⟨hsecond.progress_of_ended ▸ .ended _,
      fun _ hmem => Option.some.inj hmem, fun _ hmem => absurd hmem (Option.not_mem_none _)⟩
  rw [herror]
  exact ⟨_, Protocol.catch (hsuits _ rfl) error others,
    .above (hagrees.take (hsuits _ rfl) error) (by rintro _ ⟨⟩; trivial) (.above hrobbed hothers hlow), trivial⟩

/-- Nothing runs where the stack may take note of its cancellation: the top frame gets its turn, or has just performed an
effect. -/
theorem idle_of_suits {mode : Mode} (stands : Stands stages frames) (hsuits : mode.Suits stages) (hbusy : mode ≠ .busy) :
    Stage.running ∉ stages := by
  cases mode with
  | steady =>
      obtain ⟨stage, others, rfl, hstage⟩ := hsuits
      exact stands.running_not_mem hstage
  | handling =>
      cases stages with
      | nil => exact List.not_mem_nil
      | cons stage others =>
          refine stands.running_not_mem fun hrunning => ?_
          have hwaits := hsuits stage rfl
          rw [hrunning] at hwaits
          exact hwaits
  | busy => exact absurd rfl hbusy

/-- The stack takes note of its cancellation. -/
theorem noticed {mode later : Mode} (stands : Stands stages frames) (hsuits : mode.Suits stages)
    (hnext : mode.next .noticed = some later) :
    Conforms stages .noticed (frames.map Frame.markCanceled) later := by
  have hbusy : mode ≠ .busy := by
    rintro rfl
    cases hnext
  have hidle := stands.idle_of_suits hsuits hbusy
  refine ⟨_, .notice hidle, stands.mark hidle, ?_⟩
  cases mode with
  | steady =>
      obtain rfl : Mode.steady = later := Option.some.inj hnext
      obtain ⟨stage, others, rfl, hstage⟩ := hsuits
      refine ⟨_, _, rfl, ?_⟩
      cases stage <;> simp [Stage.marked]
  | handling =>
      obtain rfl : Mode.busy = later := Option.some.inj hnext
      trivial
  | busy => exact absurd rfl hbusy

/-- The computation of the top frame does something by itself, or ends. -/
theorem played {act : Act} {after : Frame} (stands : Stands stages (top :: below)) (hdoes : top.Does act after)
    (hown : act.isAside = false) (hcomputes : top.progress ≠ .root) : Conforms stages act (after :: below) .busy := by
  obtain ⟨_, _, _, -, -, hprotocol, hafter⟩ := stands.plays hdoes hown hcomputes
  exact ⟨_, hprotocol, hafter, trivial⟩

/-- The computation of the top frame performs an effect, which is to be handled. -/
theorem performed {effect : Effect} {resume : Outcome → Body} (stands : Stands stages (top :: below))
    (hrunning : top.progress = .running (.perform effect resume)) :
    Conforms stages (.performed effect) ({ top with progress := .suspended resume } :: below) .handling := by
  obtain ⟨_, _, _, -, hstage, hprotocol, hafter⟩ :=
    stands.plays (.perform top effect resume hrunning) rfl (by simp [hrunning])
  refine ⟨_, hprotocol, hafter, ?_⟩
  cases hstage
  rintro _ ⟨⟩
  trivial

/-- The top frame hands its outcome down. -/
theorem left {parent : Frame} {rest : List Frame} (stands : Stands stages (top :: parent :: rest))
    (hfinished : top.isFinished = true) : Conforms stages .left (parent.absorb top.result :: rest) .busy := by
  obtain ⟨stage, others, rfl, hagrees, hwaits, hrest⟩ := stands.exists_above
  obtain rfl := hagrees.eq_ended hfinished
  refine ⟨_, .leave hwaits _, ?_, trivial⟩
  cases hrest with
  | sentinel hroot htag => exact sentinel_absorb hroot htag _
  | above hparent hothers hrest => exact .above (hparent.absorb (hwaits _ rfl) _) hothers hrest

/-- Every act that its mode allows is one that the protocol knows. -/
theorem does {run next : Run} {act : Act} {mode later : Mode} (stands : Stands stages run.frames)
    (hsuits : mode.Suits stages) (hnext : mode.next act = some later) (hdoes : run.Does act next) :
    Conforms stages act next.frames later := by
  obtain ⟨⟨context, signal, top, below, canceled⟩, host⟩ := run
  change Stands stages (top :: below) at stands
  cases hdoes with
  | push computation tag =>
      obtain ⟨rfl, rfl⟩ := Mode.eq_of_handles rfl hnext
      exact stands.pushed hsuits computation tag
  | drop parent rest hbelow =>
      obtain rfl : below = parent :: rest := hbelow
      obtain ⟨rfl, rfl⟩ := Mode.eq_of_dropped hnext
      exact stands.dropped hsuits
  | defer effect =>
      obtain ⟨rfl, rfl⟩ := Mode.eq_of_handles rfl hnext
      exact stands.deferred hsuits effect
  | start effect defers hbelow hfinished hdefers =>
      obtain rfl : Mode.handling = later := Option.some.inj hnext
      exact stands.started hfinished effect defers
  | answer value =>
      obtain ⟨rfl, rfl⟩ := Mode.eq_of_handles rfl hnext
      rw [Run.frames, Run.stack_answerTop]
      exact stands.told hsuits (fun _ hwaits => .answer hwaits value) (.baseAnswer value)
  | fail error =>
      obtain ⟨rfl, rfl⟩ := Mode.eq_of_handles rfl hnext
      rw [Run.frames, Run.stack_failTop]
      exact stands.told hsuits (fun _ hwaits => .fail hwaits error) (.baseFail error)
  | fork effect hscheduled =>
      obtain ⟨rfl, rfl⟩ := Mode.eq_of_handles rfl hnext
      rw [Run.frames, Run.stack_answerTop]
      exact stands.told hsuits (fun _ hwaits => .fork hwaits effect _) (.baseFork effect)
  | «catch» parent rest error hbelow hfinished herror =>
      obtain rfl : below = parent :: rest := hbelow
      obtain ⟨rfl, rfl⟩ := Mode.eq_of_handles rfl hnext
      exact stands.caught hsuits hfinished herror
  | notice hcanceled hsignal => exact stands.noticed hsuits hnext
  | begin body hfresh hkept =>
      obtain rfl : Mode.busy = later := Option.some.inj hnext
      have hcomputes : top.progress ≠ .root := by rw [show top.progress = _ from hfresh]; simp
      exact stands.played (.begin top body hfresh hkept) rfl hcomputes
  | resume resume hsuspended hkept =>
      obtain rfl : Mode.busy = later := Option.some.inj hnext
      have hcomputes : top.progress ≠ .root := by rw [show top.progress = _ from hsuspended]; simp
      exact stands.played (.resume top resume hsuspended hkept) rfl hcomputes
  | act action resume host reply hrunning hreact =>
      obtain rfl : Mode.busy = later := Option.some.inj hnext
      have hcomputes : top.progress ≠ .root := by rw [show top.progress = _ from hrunning]; simp
      exact stands.played (.act top action resume reply hrunning) rfl hcomputes
  | wait action resume host occasions hrunning hreact =>
      obtain rfl : Mode.busy = later := Option.some.inj hnext
      have hcomputes : top.progress ≠ .root := by rw [show top.progress = _ from hrunning]; simp
      exact stands.played (.wait top action resume hrunning) rfl hcomputes
  | perform effect resume hrunning =>
      obtain rfl : Mode.handling = later := Option.some.inj hnext
      exact stands.performed hrunning
  | complete outcome hrunning =>
      obtain rfl : Mode.busy = later := Option.some.inj hnext
      have hcomputes : top.progress ≠ .root := by rw [show top.progress = _ from hrunning]; simp
      exact stands.played (.complete top outcome hrunning) rfl hcomputes
  | giveUp hfinished hdue =>
      obtain ⟨rfl, rfl⟩ := Mode.eq_of_turns rfl hnext
      obtain ⟨stage, others, rfl, -⟩ := hsuits
      exact stands.played (.giveUp top hfinished hdue) rfl stands.computes
  | vacate hroot =>
      obtain ⟨rfl, rfl⟩ := Mode.eq_of_turns rfl hnext
      obtain ⟨stage, others, rfl, -⟩ := hsuits
      exact absurd hroot stands.computes
  | leave parent rest hbelow hfinished hdefers =>
      obtain rfl : below = parent :: rest := hbelow
      obtain rfl : Mode.busy = later := Option.some.inj hnext
      exact stands.left hfinished

/-- Acts that come in order keep to the protocol, and keep whatever each act keeps that the protocol knows. -/
theorem carry {P : List Act → Run → Prop}
    (hquiet : ∀ {acts : List Act} {run : Run} {host : Host}, host.quiet = run.host.quiet → P acts run →
      P acts { run with host })
    (hact : ∀ {acts : List Act} {run next : Run} {act : Act} {stages after : List Stage}, Obeys acts stages →
      Stands stages run.frames → Protocol stages act after → run.Does act next → P acts run → P (acts ++ [act]) next)
    {run final : Run} {acts more : List Act} {mode : Mode} (hchain : run.Chain more final)
    (allows : mode.Allows more) (hsuits : mode.Suits stages) (obeys : Obeys acts stages)
    (stands : Stands stages run.frames) (start : P acts run) :
    ∃ after, Obeys (acts ++ more) after ∧ Stands after final.frames ∧ P (acts ++ more) final := by
  induction hchain generalizing acts mode stages with
  | done run =>
      rw [List.append_nil]
      exact ⟨stages, obeys, stands, start⟩
  | quiet host same _ ih => exact ih allows hsuits obeys stands (hquiet same start)
  | act hdoes _ ih =>
      obtain ⟨later, hnext, hrest⟩ := allows
      obtain ⟨after, hprotocol, hafter, hlater⟩ := stands.does hsuits hnext hdoes
      rw [List.append_cons]
      exact ih hrest hlater (.act obeys hprotocol) hafter (hact obeys stands hprotocol hdoes start)

/-- Acts that come in order keep to the protocol. -/
theorem chain {run final : Run} {acts more : List Act} {mode : Mode} (hchain : run.Chain more final)
    (allows : mode.Allows more) (hsuits : mode.Suits stages) (obeys : Obeys acts stages)
    (stands : Stands stages run.frames) : ∃ after, Obeys (acts ++ more) after ∧ Stands after final.frames :=
  have ⟨after, hobeys, hstands, _⟩ := stands.carry (P := fun _ _ => True) (fun _ _ => trivial)
    (fun _ _ _ _ _ => trivial) hchain allows hsuits obeys trivial
  ⟨after, hobeys, hstands⟩

/-- Between two steps, the next step may begin. -/
theorem suits_opening (stands : Stands stages (top :: below)) (habove : below ≠ []) :
    (Mode.opening top.progress).Suits stages := by
  cases stands with
  | sentinel hroot htag => exact absurd rfl habove
  | above hagrees hwaits rest =>
      have hat := hagrees.progress
      unfold Mode.opening
      generalize top.progress = progress at hat
      cases hat <;> first | trivial | exact ⟨_, _, rfl, by simp⟩

/-- A computation that is running was not reached by a cancellation. -/
theorem kept_of_running (stands : Stands stages (top :: below)) {body : Body}
    (hrunning : top.progress = .running body) : top.cancellation = .none := by
  obtain ⟨stage, others, rfl, ⟨hat, -, hcancellation⟩, -⟩ := stands.exists_at (by simp [hrunning])
  rw [hrunning] at hat
  cases hat
  exact hcancellation _ rfl

end Stands

variable {machine : Machine} {context : Context} {signal : Option TaskId} {effect : Effect}
variable {acts more : List Act} {run final : Run}

/-- The acts of handling the first effect keep to the protocol. -/
theorem stands_begun (host : Host) (hbegins : acts <+: machine.handleActs effect { stack := { context, signal }, host })
    (hchain : Run.Chain { stack := { context, signal }, host } acts run) :
    ∃ stages, Obeys acts stages ∧ Stands stages run.frames := by
  obtain ⟨more, hmore⟩ := hbegins
  have allows : Mode.handling.Allows acts := .left (hmore ▸ machine.allows_handleActs effect _)
  have hopening : Mode.handling.Suits [] := by simp [Mode.Suits]
  have hstands : Stands [] ({ stack := { context, signal }, host } : Run).frames := .sentinel rfl rfl
  simpa using hstands.chain hchain allows hopening .start

/-- The acts of a step keep to the protocol. -/
theorem Stands.stepped {stages : List Stage} (obeys : Obeys acts stages) (stands : Stands stages run.frames)
    (habove : run.stack.below ≠ []) (hbegins : more <+: machine.stepActs run) (hchain : run.Chain more final) :
    ∃ after, Obeys (acts ++ more) after ∧ Stands after final.frames := by
  obtain ⟨rest, hrest⟩ := hbegins
  have allows := machine.allows_stepActs run fun _ => stands.kept_of_running
  exact Stands.chain hchain (.left (hrest ▸ allows)) (stands.suits_opening habove) obeys stands

/-- A stack keeps to the protocol. -/
theorem History.stands (history : History machine context signal effect acts run) :
    ∃ stages, Obeys acts stages ∧ Stands stages run.frames := by
  induction history with
  | begun host => exact stands_begun host List.prefix_rfl (machine.handle_chain effect _)
  | @stepped acts run history habove host ih =>
      obtain ⟨stages, obeys, stands⟩ := ih
      have hstands : Stands stages ({ run with host } : Run).frames := stands
      exact hstands.stepped obeys habove List.prefix_rfl (machine.step_chain _)

/-- A stack keeps to the protocol at every moment. -/
theorem Moment.stands (moment : Moment machine context signal effect acts run) :
    ∃ stages, Obeys acts stages ∧ Stands stages run.frames := by
  cases moment with
  | opening host hacts hfirst _ => exact stands_begun host ⟨_, hacts.symm⟩ hfirst
  | @within acts first more before run history habove host hacts hfirst _ =>
      obtain ⟨stages, obeys, stands⟩ := history.stands
      have hstands : Stands stages ({ before with host } : Run).frames := stands
      exact hstands.stepped obeys habove ⟨_, hacts.symm⟩ hfirst

end EffectMachine
