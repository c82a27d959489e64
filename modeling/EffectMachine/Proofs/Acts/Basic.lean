import EffectMachine.Machine.Step

/-!
# Acts of a run

One step of a run may do many things: a computation ends, its frame leaves the stack, the frame below
runs a deferred effect, which is checked, delegated and served by a new frame.  This module takes such
a step apart into *acts*, each of which changes the frames in one way only.

* `Act` names what can happen; `Run.Does` says when an act is possible and what it does.
* `Machine.stepActs` computes the acts of a step, in order, as `Machine.step` carries them out.
* `Run.Chain` is a sequence of acts.  Between two acts only the journal may change, that is the log,
  the reported events and the counter for fresh identities (`Host.quiet`).

That the acts of a step lead to the result of the step is shown by `Machine.step_chain`; from then on an
invariant of runs needs one case for each act and never opens dispatching or unwinding again.
-/

namespace EffectMachine

/-- One primitive change to the frames of a run. -/
inductive Act where
  /-- The frame of a computation is put on top. -/
  | pushed (computation : Computation) (tag : Option HandlerTag)
  /-- A terminal operation discards the top frame. -/
  | dropped
  /-- A deferred effect is recorded on the top frame. -/
  | deferred (effect : Effect)
  /-- The most recent deferred effect of the top frame, which has finished, is taken off to be handled. -/
  | started (effect : Effect)
  /-- The top frame is given the value of the effect it performed. -/
  | answered (value : Value)
  /-- The top frame is given an error. -/
  | failed (error : Error)
  /-- The top frame takes the error of the frame below, which is unwinding with it. -/
  | caught (error : Error)
  /-- An effect becomes a task of its own. -/
  | forked (effect : Effect)
  /-- The stack takes note of its cancellation. -/
  | noticed
  /-- The computation of the top frame is resumed; unless it is fresh, with the outcome of its effect. -/
  | resumed (outcome : Outcome)
  /-- The computation of the top frame does something by itself. -/
  | acted (action : Action) (reply : action.Reply)
  /-- The computation of the top frame finds that it has to wait. -/
  | waited (action : Action)
  /-- The computation of the top frame performs an effect. -/
  | performed (effect : Effect)
  /-- The computation of the top frame ends by itself. -/
  | completed (outcome : Outcome)
  /-- The computation of the top frame is given up, for its frame was canceled. -/
  | givenUp
  /-- The top frame, which never had a computation, finishes. -/
  | vacated
  /-- The top frame, which has finished and has nothing left to run, hands its outcome down. -/
  | left

namespace Act

/-! ### Checks of acts -/

/-- Whether the stack takes note of its cancellation. -/
def notices : Act → Bool
  | .noticed => true
  | _ => false

/-- Whether a terminal operation discards the top frame. -/
def drops : Act → Bool
  | .dropped => true
  | _ => false

/-- Whether the top frame takes the error of the frame below. -/
def catches : Act → Bool
  | .caught _ => true
  | _ => false

/-- Whether computations are cut short: the stack takes note of a cancellation, or a frame is discarded. -/
def cuts (act : Act) : Bool :=
  act.notices || act.drops

/-- The deferred effect that an act records for later. -/
def recorded? : Act → Option Effect
  | .deferred effect => some effect
  | _ => none

/-- The deferred effect that an act starts. -/
def started? : Act → Option Effect
  | .started effect => some effect
  | _ => none

theorem notices_iff {act : Act} : act.notices = true ↔ act = .noticed := by
  cases act <;> simp [notices]

/-- A stack that takes note of its cancellation does so by one act. -/
theorem noticed_mem {acts : List Act} (hnotices : acts.any notices = true) : .noticed ∈ acts := by
  obtain ⟨act, hmem, hact⟩ := List.any_eq_true.1 hnotices
  rwa [notices_iff.1 hact] at hmem

/-- An act that passes a check is not among acts that all fail it. -/
theorem not_mem_of_any {check : Act → Bool} {acts : List Act} {act : Act} (hnone : acts.any check = false)
    (hcheck : check act = true) : act ∉ acts :=
  fun hmem => List.any_eq_false.1 hnone act hmem hcheck

end Act

/-- A host without its journal: the log, the reported events and the counter for fresh identities. -/
def Host.quiet (host : Host) : Host :=
  { host with log := #[], events := #[], nextIdentity := 0 }

@[simp] theorem Host.quiet_emit (host : Host) (event : Event) : (host.emit event).quiet = host.quiet :=
  rfl

@[simp] theorem Host.quiet_write (host : Host) (entry : Entry) : (host.write entry).quiet = host.quiet :=
  rfl

@[simp] theorem Host.quiet_mint (host : Host) (count : Nat) : (host.mint count).2.quiet = host.quiet :=
  rfl

/-- A probe leaves everything but the journal alone. -/
@[simp] theorem Host.quiet_run {α : Type} (host : Host) (probe : Probe α) :
    (host.run probe).2.quiet = host.quiet := by
  induction probe generalizing host with
  | done answer => rfl
  | note value rest ih => exact (ih _).trans (host.quiet_write _)
  | mint count rest ih => exact (ih _ _).trans (host.quiet_mint _)

/-- A frame after the frame above it has left with an outcome.  One that awaits an outcome gets it; one
that is itself unwinding only lets a failure replace a success. -/
def Frame.absorb (frame : Frame) (outcome : Outcome) : Frame :=
  if frame.isFinished then
    match outcome, frame.result with
    | .error error, .ok _ => { frame with result := .error error }
    | _, _ => frame
  else { frame with result := outcome }

namespace Run

/-- What one act does to a run, and when it is possible. -/
inductive Does : Run → Act → Run → Prop
  | push (run : Run) (computation : Computation) (tag : Option HandlerTag) :
      Does run (.pushed computation tag) (run.push computation tag)
  | drop (run : Run) (parent : Frame) (rest : List Frame) (hbelow : run.stack.below = parent :: rest) :
      Does run .dropped
        { stack := { run.stack with top := parent, below := rest }
          host := run.host.close run.stack.top.answerable }
  | defer (run : Run) (effect : Effect) : Does run (.deferred effect) (run.deferOnTop effect)
  | start (run : Run) (effect : Effect) (defers : List Effect) (hbelow : run.stack.below ≠ [])
      (hfinished : run.stack.top.isFinished = true) (hdefers : run.stack.top.defers = effect :: defers) :
      Does run (.started effect) (run.withTop fun frame => { frame with defers })
  | answer (run : Run) (value : Value) : Does run (.answered value) (run.answerTop value)
  | fail (run : Run) (error : Error) : Does run (.failed error) (run.failTop error)
  | catch (run : Run) (parent : Frame) (rest : List Frame) (error : Error)
      (hbelow : run.stack.below = parent :: rest) (hfinished : parent.isFinished = true)
      (herror : parent.result = .error error) :
      Does run (.caught error)
        { run with
          stack :=
            { run.stack with
              top := { run.stack.top with result := .ok (.error error) }
              below := { parent with result := .ok .null } :: rest } }
  | fork (run : Run) (effect : Effect) (hscheduled : run.host.scheduled = true) :
      Does run (.forked effect)
        ({ run with host := (run.host.spawn (.forked run.stack.context effect)).2 }.answerTop
          (.task (run.host.spawn (.forked run.stack.context effect)).1))
  | notice (run : Run) (hcanceled : run.stack.canceled = false)
      (hsignal : run.stack.signal.any run.host.isCanceled = true) :
      Does run .noticed { run with stack := run.stack.markCanceled }
  | begin (run : Run) (body : Body) (hfresh : run.stack.top.progress = .fresh body)
      (hkept : run.stack.top.cancellation ≠ .due) :
      Does run (.resumed run.stack.top.result) (Machine.resumeTop run body)
  | resume (run : Run) (resume : Outcome → Body)
      (hsuspended : run.stack.top.progress = .suspended resume)
      (hkept : run.stack.top.cancellation ≠ .due) :
      Does run (.resumed run.stack.top.result) (Machine.resumeTop run (resume run.stack.top.result))
  | act (run : Run) (action : Action) (resume : action.Reply → Body) (host : Host) (reply : action.Reply)
      (hrunning : run.stack.top.progress = .running (.act action resume))
      (hreact : run.host.react action = .reply host reply ∨
        run.host.react action = .giveWay host reply) :
      Does run (.acted action reply)
        { stack := run.stack.withTop fun frame =>
            { frame with
              progress := .running (resume reply)
              answerable := frame.answerable ++ action.acquired reply }
          host }
  | wait (run : Run) (action : Action) (resume : action.Reply → Body) (host : Host)
      (occasions : List Occasion) (hrunning : run.stack.top.progress = .running (.act action resume))
      (hreact : run.host.react action = .wait host occasions) :
      Does run (.waited action) { run with host }
  | perform (run : Run) (effect : Effect) (resume : Outcome → Body)
      (hrunning : run.stack.top.progress = .running (.perform effect resume)) :
      Does run (.performed effect)
        (run.withTop fun frame => { frame with progress := .suspended resume })
  | complete (run : Run) (outcome : Outcome)
      (hrunning : run.stack.top.progress = .running (.done outcome)) :
      Does run (.completed outcome)
        { stack := run.stack.withTop fun frame => frame.finish outcome
          host := run.host.close run.stack.top.answerable }
  | giveUp (run : Run) (hfinished : run.stack.top.isFinished = false)
      (hdue : run.stack.top.cancellation = .due) :
      Does run .givenUp
        { stack := run.stack.withTop fun frame =>
            { frame with cancellation := .applied }.finish (.ok .null)
          host := run.host.close run.stack.top.answerable }
  | vacate (run : Run) (hroot : run.stack.top.progress = .root) :
      Does run .vacated
        { stack := run.stack.withTop fun frame => frame.finish (.ok .null)
          host := run.host.close run.stack.top.answerable }
  | leave (run : Run) (parent : Frame) (rest : List Frame) (hbelow : run.stack.below = parent :: rest)
      (hfinished : run.stack.top.isFinished = true) (hdefers : run.stack.top.defers = []) :
      Does run .left
        { run with
          stack := { run.stack with top := parent.absorb run.stack.top.result, below := rest } }

/-- A sequence of acts, between which only the journal may change. -/
inductive Chain : Run → List Act → Run → Prop
  | done (run : Run) : Chain run [] run
  | quiet {run : Run} (host : Host) {acts : List Act} {final : Run} (hquiet : host.quiet = run.host.quiet)
      (rest : Chain { run with host } acts final) : Chain run acts final
  | act {run next : Run} {act : Act} {acts : List Act} {final : Run} (hdoes : Does run act next)
      (rest : Chain next acts final) : Chain run (act :: acts) final

namespace Chain

variable {run next final : Run} {act : Act} {acts more : List Act}

/-- Sequences of acts are put one behind the other. -/
theorem append (hfirst : Chain run acts next) (hmore : Chain next more final) :
    Chain run (acts ++ more) final := by
  induction hfirst with
  | done run => exact hmore
  | quiet host hquiet _ ih => exact .quiet host hquiet (ih hmore)
  | act hdoes _ ih => exact .act hdoes (ih hmore)

/-- A single act. -/
theorem single (hdoes : Does run act next) : Chain run [act] next :=
  .act hdoes (.done next)

/-- Nothing but the journal changes. -/
theorem journal (host : Host) (hquiet : host.quiet = run.host.quiet) : Chain run [] { run with host } :=
  .quiet host hquiet (.done _)

end Chain
end Run
end EffectMachine
