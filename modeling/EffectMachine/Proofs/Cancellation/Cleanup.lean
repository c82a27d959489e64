import EffectMachine.Proofs.Cancellation.Account

/-!
# Cleanup of canceled stacks

What becomes of deferred effects when a task is asked to cancel, at whatever moment that happens.

* `HandlesStarted` says that every deferred effect is handled as soon as it is started.
* `cleanup_of_settled` is the main statement.  Once a stack is down to its sentinel, every effect that
  was deferred on a frame above the sentinel has been started, once, unless a terminal operation
  discarded the frame.  The computation of every frame was driven to its own end, unless a terminal
  operation discarded it or it was given up; and only what was on the stack at the moment the stack took
  note of its cancellation is given up.
* `not_all_cleanup_completes` shows why that exception is needed: a cancellation that arrives while
  a deferred computation waits gives up that very computation.
-/

namespace EffectMachine

/-! ## Deferred effects are handled once they are started -/

/-- Every deferred effect that is started is handled next. -/
def HandlesStarted (machine : Machine) : List Act → Prop
  | [] => True
  | .started effect :: rest =>
    (∃ run : Run, machine.handleActs effect run <+: rest) ∧ HandlesStarted machine rest
  | _ :: rest => HandlesStarted machine rest

namespace HandlesStarted

variable {machine : Machine} {acts more : List Act}

theorem append (handles : HandlesStarted machine acts) (hmore : HandlesStarted machine more) :
    HandlesStarted machine (acts ++ more) := by
  induction acts with
  | nil => exact hmore
  | cons act acts ih =>
      cases act with
      | started effect =>
          obtain ⟨⟨run, hhandled⟩, hrest⟩ := handles
          exact ⟨⟨run, hhandled.trans (List.prefix_append _ _)⟩, ih hrest⟩
      | _ => exact ih handles

/-- There is nothing to handle where nothing is started. -/
theorem of_unstarted (hnone : acts.filterMap Act.started? = []) : HandlesStarted machine acts := by
  induction acts with
  | nil => trivial
  | cons act acts ih =>
      cases act with
      | started effect => cases hnone
      | _ => exact ih hnone

end HandlesStarted

namespace Machine

/-- Dispatching an effect starts no deferred one. -/
theorem Dispatches.started?_eq_none {machine : Machine} {effect : Effect} {first : Nat} {run : Run} {act : Act}
    (dispatches : machine.Dispatches effect first run act) : act.started? = none := by
  induction dispatches with
  | start _ ih | terminated _ _ ih | next _ _ ih | replaced _ _ _ ih => exact ih
  | _ => rfl

/-- Handling an effect starts no deferred one. -/
theorem started_handleActs (machine : Machine) (effect : Effect) (run : Run) :
    (machine.handleActs effect run).filterMap Act.started? = [] := by
  refine List.filterMap_eq_nil_iff.2 fun act hmem => ?_
  rcases dispatches_of_mem_handleActs hmem with ⟨error, rfl⟩ | ⟨host, dispatches⟩
  · rfl
  · exact dispatches.started?_eq_none

/-- Unwinding handles the deferred effect that it starts. -/
theorem handlesStarted_unwindActsFrom (machine : Machine) (stack : Stack) (host : Host) (top : Frame)
    (below : List Frame) : HandlesStarted machine (machine.unwindActsFrom stack host top below) := by
  induction below generalizing host top with
  | nil => trivial
  | cons parent rest ih =>
      unfold unwindActsFrom
      split
      · exact ⟨⟨_, List.prefix_rfl⟩, .of_unstarted (machine.started_handleActs _ _)⟩
      · split
        · split <;> exact ih _ _
        · trivial

/-- A step handles every deferred effect that it starts. -/
theorem handlesStarted_stepActs (machine : Machine) (run : Run) : HandlesStarted machine (machine.stepActs run) := by
  have hnotice : ∀ run : Run, HandlesStarted machine (noticeActs run) := by
    intro run
    unfold noticeActs
    split <;> trivial
  have hunwind : ∀ run : Run, HandlesStarted machine (machine.unwindActs run) :=
    fun run => machine.handlesStarted_unwindActsFrom run.stack run.host run.stack.top run.stack.below
  unfold stepActs
  split
  · rename_i outcome hrunning
    cases outcome <;> exact hunwind _
  · show HandlesStarted machine (_ ++ if _ then [] else _)
    refine (hnotice _).append ?_
    split
    · trivial
    · exact .of_unstarted (machine.started_handleActs _ _)
  · unfold actActs
    split <;> trivial
  · refine (hnotice run).append ?_
    split
    · exact hunwind _
    · split
      · exact hunwind _
      · split
        · trivial
        · trivial
        · trivial
        · exact hunwind _
        · exact hunwind _

end Machine

/-! ## The main statement -/

namespace History

variable {machine : Machine} {context : Context} {signal : Option TaskId} {effect : Effect}
variable {acts : List Act} {run : Run}

/-- A stack handles every deferred effect that it starts. -/
theorem handlesStarted (history : History machine context signal effect acts run) : HandlesStarted machine acts := by
  induction history with
  | begun host => exact .of_unstarted (machine.started_handleActs effect _)
  | stepped history habove host ih => exact ih.append (machine.handlesStarted_stepActs _)

end History

/-- Cancellation skips no cleanup.  Whatever a forked stack runs and whenever it is asked to cancel, once it is
down to its sentinel every frame it ever pushed has settled, and every deferred effect that was started
was handled. -/
theorem cleanup_of_settled {machine : Machine} {context : Context} {task : TaskId} {effect : Effect}
    {acts : List Act} {run : Run} (history : History machine context (some task) effect acts run)
    (hsettled : run.stack.below = []) :
    HandlesStarted machine acts ∧
      ∀ number, 0 < number → number < (Roll.after acts).next → Settled acts number := by
  refine ⟨history.handlesStarted, fun number hpos hnext => ?_⟩
  have watched := history.watched account
  refine watched.gone number hpos hnext fun hlive => ?_
  have hlength := watched.tracks.length
  have hsentinel := watched.tracks.sound.sentinel
  rw [hsettled] at hlength
  obtain ⟨only, honly⟩ := List.length_eq_one_iff.1 hlength
  rw [honly] at hlive hsentinel
  have hzero : only = 0 := by simpa using hsentinel
  have hsame : number = only := List.mem_singleton.1 hlive
  omega

/-! ## Overtaken cleanup -/

namespace OvertakenCleanup

/-- Something that takes a step of its own. -/
def pause : Effect :=
  .bare (.ready .null)

/-- A cleanup that takes some time. -/
def cleanup : Computation :=
  ⟨some "cleanup", .andThen pause .ok⟩

/-- A body with a cleanup. -/
def main : Effect :=
  .bare ⟨some "main", .andThen (.defer (.bare cleanup)) .ok⟩

/-- A host on which the task was asked to cancel, or was not. -/
def host (canceled : Bool) : Host :=
  { processes := [{ activity := .forked (.blank 0) main, canceled }] }

/-- What the task does until its cleanup waits for something. -/
def cleaning : List Act × Run :=
  Machine.bare.drive (host false) 6 (Machine.bare.begin (.blank 0) (some ⟨0⟩) main (host false))

/-- What it does since then, when it is asked to cancel. -/
def settling : List Act × Run :=
  Machine.bare.drive (host true) 2 cleaning.2

/-- What the task did until it settled. -/
def acts : List Act :=
  Machine.bare.handleActs main { stack := { context := .blank 0, signal := some ⟨0⟩ }, host := host false } ++
    cleaning.1 ++ settling.1

/-- The task is asked to cancel while its cleanup waits. -/
theorem history : History Machine.bare (.blank 0) (some ⟨0⟩) main acts settling.2 :=
  ((History.begun (host false)).drive (host false) 6).drive (host true) 2

end OvertakenCleanup

open OvertakenCleanup in
/-- A cancellation that arrives while a deferred computation waits gives it up: it is on the stack like any
other, so it need not be driven to its own end. -/
theorem not_all_cleanup_completes :
    ¬ ∀ (machine : Machine) (context : Context) (task : TaskId) (effect deferred : Effect)
        (computation : Computation) (tag : Option HandlerTag) (before after : List Act) (run : Run),
      History machine context (some task) effect
        (before ++ .started deferred :: .pushed computation tag :: after) run →
      run.stack.below = [] →
      .dropped ∉ before ++ .started deferred :: .pushed computation tag :: after →
      ∃ outcome, .completed outcome ∈
        life (before ++ .started deferred :: .pushed computation tag :: after) (Roll.after before).next := by
  intro hall
  have hsplit : acts = acts.take 6 ++ .started (.bare cleanup) :: .pushed cleanup none :: acts.drop 8 :=
    rfl
  have hkept : acts.any Act.drops = false := by decide
  have hnever : ((life acts 2).any fun act => match act with | .completed _ => true | _ => false) = false := by
    decide
  obtain ⟨outcome, hcompleted⟩ := hall Machine.bare (.blank 0) ⟨0⟩ main (.bare cleanup) cleanup none
    (acts.take 6) (acts.drop 8) _ (hsplit ▸ history) rfl (by
      rw [← hsplit]
      exact Act.not_mem_of_any hkept rfl)
  rw [← hsplit] at hcompleted
  exact absurd hcompleted (Act.not_mem_of_any hnever rfl)

/-- A stack that was canceled while its cleanup was waiting settles all its frames. -/
theorem cleanup_of_overtaken :
    OvertakenCleanup.settling.2.stack.below = [] ∧
      HandlesStarted Machine.bare OvertakenCleanup.acts ∧
      ∀ number, 0 < number → number < (Roll.after OvertakenCleanup.acts).next →
        Settled OvertakenCleanup.acts number :=
  ⟨rfl, cleanup_of_settled OvertakenCleanup.history rfl⟩

end EffectMachine
