import EffectMachine.Proofs.Dispatch.Terminals
import EffectMachine.Proofs.Unwinding.Conservation

/-!
# Recovery

A recover operation reaches the frame directly below the one whose computation performs it, and no other.

* `ReachesBelow` is what such an operation comes to: the error of the frame below, as a value, or else nothing.
* `Machine.handle_recover` says that the machine carries it out so, and `Machine.step_of_told` that a computation goes on
  with what its frame was told.
* `Effect.recovers` tells of effects that come to a recover operation by the core rules alone.  Without them among the
  deferred ones, `History.exists_performed` says that every recovery is performed by a computation.
* `FailsSince` says that a deferred effect of a frame failed after some acts, and `recovering` follows a frame whose
  error was recovered.

The main statement is `recover_reaches_one`.
-/

namespace EffectMachine

/-! ## Carrying out a recovery -/

/-- What a recover operation comes to that is performed by the computation of the top frame: the value that is told to
it, and the frames below after that. -/
inductive ReachesBelow (asking : Run) : Value → List Frame → Prop
  | error {parent : Frame} {rest : List Frame} {error : Error} (hbelow : asking.stack.below = parent :: rest)
      (hfinished : parent.isFinished = true) (herror : parent.result = .error error) :
      ReachesBelow asking (.error error) ({ parent with result := .ok .null } :: rest)
  | nothing (hnone : ∀ parent rest error, asking.stack.below = parent :: rest → parent.isFinished = true →
      parent.result ≠ .error error) : ReachesBelow asking .null asking.stack.below

/-- Taking the error of the frame below comes to what a recover operation comes to, when nothing was told before. -/
theorem Run.exists_reachesBelow {run : Run} (htold : run.stack.top.result = .ok .null) :
    ∃ value below, ReachesBelow run value below ∧
      run.recover.stack = { run.stack with top := { run.stack.top with result := .ok value }, below } := by
  have hsame : run.stack = { run.stack with top := { run.stack.top with result := .ok .null } } := by rw [← htold]
  unfold Run.recover
  split
  · rename_i hbelow
    refine ⟨.null, _, .nothing ?_, hsame⟩
    simp [hbelow]
  · rename_i parent rest hbelow
    split
    · rename_i error hfinished herror
      exact ⟨.error error, _, .error hbelow hfinished herror, rfl⟩
    · rename_i hother
      refine ⟨.null, _, .nothing fun first others error hfirst hfinished herror => ?_, hsame⟩
      rw [hbelow] at hfirst
      cases hfirst
      exact hother error hfinished herror

/-- The host has no part in taking the error of the frame below. -/
theorem Run.stack_recover (run : Run) (host : Host) : { run with host }.recover.stack = run.recover.stack := by
  unfold Run.recover
  dsimp only
  split
  · rfl
  · split <;> rfl

namespace Machine

variable {machine : Machine} {run : Run}

/-- Without handlers of recover operations, one that may pass takes the error of the frame below. -/
theorem handle_recover (hrecover : machine.registry.hasHandlers Kind.recover = false) {later : Host}
    (hadmits : machine.registry.Admits run.host [.recover] later) :
    machine.handle .recover run = { run with host := later }.recover := by
  have hdispatch : machine.dispatch .recover 0 { run with host := later } =
      { run := { run with host := later }.recover } :=
    (machine.dispatch_eq_core .recover hrecover 0 _).1
  have hattempt : machine.attempt .recover run = { run := { run with host := later }.recover } :=
    (attempt_of_admits hadmits).trans hdispatch
  unfold handle
  rw [hattempt]

/-- A computation that waits goes on with what its frame was told, unless the stack takes note of a cancellation. -/
theorem step_of_told {resume : Outcome → Body} (hsuspended : run.stack.top.progress = .suspended resume)
    (hkept : run.stack.top.cancellation ≠ .due) (hcalm : noticeActs run = []) :
    machine.step run = moved (resumeTop run (resume run.stack.top.result)) := by
  have hsame : run.observeCancellation = run := by
    unfold noticeActs at hcalm
    unfold Run.observeCancellation
    split
    · rename_i hnoticed
      simp [hnoticed] at hcalm
    · rfl
  have hgoing : run.stack.top.isFinished = false := by
    unfold Frame.isFinished
    simp [hsuspended]
  unfold step
  simp only [hsuspended]
  simp [turn, hsame, hgoing, hkept, hsuspended]

end Machine

/-! ## Recoveries performed by computations -/

/-- Whether an effect comes to a recover operation without a computation that performs it. -/
def Effect.recovers : Effect → Bool
  | .recover => true
  | .start effect => effect.recovers
  | .next effect _ => effect.recovers
  | .terminal effect => effect.recovers
  | _ => false

namespace Machine

/-- An error is caught in dispatching an effect only if the effect comes to a recover operation. -/
theorem Dispatches.recovers {machine : Machine} {effect : Effect} {first : Nat} {run : Run} {act : Act} {error : Error}
    (dispatches : machine.Dispatches effect first run act) (hcaught : act = .caught error) : effect.recovers = true := by
  induction dispatches with
  | recover => rfl
  | start _ ih | terminated _ _ ih | next _ _ ih | replaced _ _ _ ih => exact ih hcaught
  | _ => cases hcaught

theorem recovers_of_handleActs {machine : Machine} {effect : Effect} {run : Run} {error : Error}
    (hmem : .caught error ∈ machine.handleActs effect run) : effect.recovers = true := by
  rcases dispatches_of_mem_handleActs hmem with ⟨other, hact⟩ | ⟨host, dispatches⟩
  · cases hact
  · exact dispatches.recovers rfl

/-- Handling an effect starts nothing. -/
theorem handleActs_ne_started {machine : Machine} {effect started : Effect} {run : Run} {seen later : List Act} :
    machine.handleActs effect run ≠ seen ++ .started started :: later := by
  intro hacts
  have hmem : .started started ∈ machine.handleActs effect run := by simp [hacts]
  exact Bool.false_ne_true (machine.handles_handleActs effect run _ hmem)

/-- The last thing that unwinding does is to handle the effect that it starts. -/
theorem handled_unwindActsFrom {machine : Machine} {stack : Stack} {host : Host} {top : Frame} {below : List Frame}
    {seen later : List Act} {effect : Effect}
    (hacts : machine.unwindActsFrom stack host top below = seen ++ .started effect :: later) :
    ∃ run, later = machine.handleActs effect run := by
  induction below generalizing host top seen with
  | nil => simp [unwindActsFrom] at hacts
  | cons parent rest ih =>
      unfold unwindActsFrom at hacts
      split at hacts
      · rename_i first defers hdefers
        cases seen with
        | nil =>
            obtain ⟨hstarted, hlater⟩ := List.cons.inj hacts
            obtain rfl := Act.started.inj hstarted
            exact ⟨_, hlater.symm⟩
        | cons act seen =>
            obtain ⟨-, hlater⟩ := List.cons.inj hacts
            exact absurd hlater handleActs_ne_started
      · have hleft {more : List Act} (hmore : .left :: more = seen ++ .started effect :: later) :
            ∃ seen, more = seen ++ .started effect :: later := by
          cases seen with
          | nil => cases (List.cons.inj hmore).1
          | cons act seen => exact ⟨seen, (List.cons.inj hmore).2⟩
        split at hacts
        · split at hacts <;>
          · obtain ⟨_, hmore⟩ := hleft hacts
            exact ih hmore
        · obtain ⟨_, hmore⟩ := hleft hacts
          simp at hmore

/-- The last thing that a step does is to handle the deferred effect that it starts. -/
theorem handled_of_started {machine : Machine} {run : Run} {seen later : List Act} {effect : Effect}
    (hacts : machine.stepActs run = seen ++ .started effect :: later) : ∃ run, later = machine.handleActs effect run := by
  have hother {act : Act} {more : List Act} (hact : act ≠ .started effect) {seen : List Act}
      (hmore : act :: more = seen ++ .started effect :: later) : ∃ seen, more = seen ++ .started effect :: later := by
    cases seen with
    | nil => exact absurd (List.cons.inj hmore).1 hact
    | cons first seen => exact ⟨seen, (List.cons.inj hmore).2⟩
  have hnotice {run : Run} {more : List Act} {seen : List Act}
      (hmore : noticeActs run ++ more = seen ++ .started effect :: later) :
      ∃ seen, more = seen ++ .started effect :: later := by
    unfold noticeActs at hmore
    split at hmore
    · exact hother (by simp) hmore
    · exact ⟨seen, hmore⟩
  unfold stepActs at hacts
  split at hacts
  · rename_i outcome hrunning
    cases outcome <;>
    · obtain ⟨_, hmore⟩ := hother (by simp) hacts
      exact handled_unwindActsFrom hmore
  · obtain ⟨_, hmore⟩ := hother (by simp) hacts
    obtain ⟨_, hrest⟩ := hnotice hmore
    split at hrest
    · simp at hrest
    · exact absurd hrest handleActs_ne_started
  · unfold actActs at hacts
    split at hacts <;>
    · obtain ⟨_, hmore⟩ := hother (by simp) hacts
      simp at hmore
  · obtain ⟨_, hmore⟩ := hnotice hacts
    split at hmore
    · exact handled_unwindActsFrom hmore
    · split at hmore
      · obtain ⟨_, hrest⟩ := hother (by simp) hmore
        exact handled_unwindActsFrom hrest
      · split at hmore
        · obtain ⟨_, hrest⟩ := hother (by simp) hmore
          simp at hrest
        · obtain ⟨_, hrest⟩ := hother (by simp) hmore
          simp at hrest
        · simp at hmore
        · obtain ⟨_, hrest⟩ := hother (by simp) hmore
          exact handled_unwindActsFrom hrest
        · obtain ⟨_, hrest⟩ := hother (by simp) hmore
          exact handled_unwindActsFrom hrest

end Machine

section Histories

variable {machine : Machine} {context : Context} {signal : Option TaskId} {opening : Effect}
variable {acts before after : List Act} {run : Run} {error : Error}

/-- A deferred effect that catches an error as soon as it is started comes to a recover operation. -/
theorem History.recovers_of_started (history : History machine context signal opening acts run) {effect : Effect}
    (hacts : acts = before ++ .started effect :: .caught error :: after) : effect.recovers = true := by
  induction history generalizing after with
  | begun host => exact absurd hacts Machine.handleActs_ne_started
  | @stepped acts run history habove host ih =>
      rcases split_of_append hacts with ⟨rest, hearlier, hlater⟩ | ⟨seen, -, hsteps⟩
      · cases rest with
        | nil =>
            -- no step begins in the middle of handling an effect
            obtain ⟨stages, -, stands⟩ := history.stands
            have allows := machine.allows_stepActs { run with host } fun _ => stands.kept_of_running
            rw [List.nil_append] at hlater
            rw [← hlater] at allows
            obtain ⟨mode, hmode, -⟩ := allows
            simp [Mode.next, Mode.opening_ne_handling] at hmode
        | cons act rest =>
            obtain ⟨rfl, -⟩ := List.cons.inj hlater
            exact ih hearlier
      · obtain ⟨_, hhandled⟩ := Machine.handled_of_started hsteps
        exact Machine.recovers_of_handleActs (hhandled ▸ List.mem_cons_self)

/-- Where no frame is discarded and no deferred effect comes to a recover operation, every error is caught by a
computation that performs an effect. -/
theorem History.exists_performed (history : History machine context signal opening acts run) (hkept : .dropped ∉ acts)
    (hbodies : ∀ effect, .started effect ∈ acts → effect.recovers = false)
    (hacts : acts = before ++ .caught error :: after) : ∃ earlier effect, before = earlier ++ [.performed effect] := by
  have hprompted := history.prompted_true
  rw [hacts] at hprompted
  rcases hprompted.exists_prompt rfl fun hmem => hkept (hacts ▸ List.mem_append_left _ hmem) with
    rfl | ⟨earlier, last, rfl, hlast⟩
  · obtain ⟨stages, obeys, -⟩ := history.stands
    obtain ⟨first, next, hfirst, hprotocol⟩ := obeys.split hacts
    have hlength := hfirst.length_live
    cases hprotocol with
    | «catch» => simp [Roll.after] at hlength
    | top hdoes => cases hdoes
  · cases last with
    | performed effect => exact ⟨earlier, effect, rfl⟩
    | started effect =>
        rw [List.append_assoc] at hacts
        have hnever := hbodies effect (hacts ▸ by simp)
        exact absurd (history.recovers_of_started hacts) (by simp [hnever])
    | _ => cases hlast

end Histories

/-! ## What becomes of a recovered frame -/

/-- A deferred effect of a frame that had ended failed with an error, after some acts: it was refused, or the frame that
serviced it left with the error. -/
inductive FailsSince (earlier acts : List Act) (number : Nat) (error : Error) : Prop
  | refused {before after : List Act} (hacts : acts = before ++ .failed error :: after) (hsince : earlier <+: before)
      (hhead : (Roll.after before).live.head? = some number)
  | left {before after : List Act} {stages : List Stage} (hacts : acts = before ++ .left :: after)
      (hsince : earlier <+: before) (hbeneath : Beneath before number)
      (obeys : Obeys before (.ended (.error error) :: stages))

theorem FailsSince.concat {earlier acts : List Act} {number : Nat} {error : Error} (act : Act)
    (hfails : FailsSince earlier acts number error) : FailsSince earlier (acts ++ [act]) number error := by
  cases hfails with
  | @refused before after hacts hsince hhead =>
      have hlonger : acts ++ [act] = before ++ .failed error :: (after ++ [act]) := by simp [hacts]
      exact .refused hlonger hsince hhead
  | @left before after stages hacts hsince hbeneath obeys =>
      have hlonger : acts ++ [act] = before ++ .left :: (after ++ [act]) := by simp [hacts]
      exact .left hlonger hsince hbeneath obeys

/-- A frame that performs an effect asks for its outcome. -/
def Performs (acts : List Act) (number : Nat) (stage : Stage) : Prop :=
  ∀ earlier effect, acts = earlier ++ [.performed effect] → (Roll.after earlier).live.head? = some number →
    stage = .asking

/-- A frame whose error was recovered has no error any more, unless a deferred effect failed since. -/
def Recovering (earlier acts : List Act) (number : Nat) (stage : Stage) : Prop :=
  ∃ outcome, stage = .ended outcome ∧
    (outcome = .ok .null ∨ ∃ error, outcome = .error error ∧ FailsSince earlier acts number error)

namespace Recovering

variable {earlier acts : List Act} {number : Nat} {stage : Stage}

theorem concat (act : Act) (recovering : Recovering earlier acts number stage) :
    Recovering earlier (acts ++ [act]) number stage := by
  obtain ⟨outcome, hstage, houtcome⟩ := recovering
  exact ⟨outcome, hstage, houtcome.imp_right fun ⟨error, herror, hfails⟩ => ⟨error, herror, hfails.concat act⟩⟩

/-- Being told an outcome counts only if it is a failure under a success. -/
theorem tell {act : Act} {outcome : Outcome} (recovering : Recovering earlier acts number stage)
    (hfails : ∀ error, outcome = .error error → FailsSince earlier (acts ++ [act]) number error) :
    Recovering earlier (acts ++ [act]) number (stage.told outcome) := by
  obtain ⟨now, rfl, hnow⟩ := recovering
  cases now with
  | error error => exact concat act ⟨_, rfl, hnow⟩
  | ok value =>
      cases outcome with
      | ok other => exact concat act ⟨_, rfl, hnow⟩
      | error error => exact ⟨_, rfl, .inr ⟨error, rfl, hfails error rfl⟩⟩

end Recovering

/-- Errors are only caught by computations that perform an effect. -/
def CaughtByBodies (acts : List Act) : Prop :=
  ∀ before error after, acts = before ++ .caught error :: after → ∃ earlier effect, before = earlier ++ [.performed effect]

theorem CaughtByBodies.of_concat {acts : List Act} {act : Act} (hbodies : CaughtByBodies (acts ++ [act])) :
    CaughtByBodies acts := by
  rintro before error after rfl
  exact hbodies before error (after ++ [act]) (by simp)

/-- Follows a frame whose error was recovered, right after some acts. -/
def recovering {before : List Act} {recovered : Nat} (hrecovered : Beneath before recovered)
    (hcovered : (Roll.after before).live.head? ≠ some recovered) (error : Error) : StageWatch where
  kept := fun acts number stage => Performs acts number stage ∧
    (number = recovered → before ++ [.caught error] <+: acts → CaughtByBodies acts →
      Recovering (before ++ [.caught error]) acts number stage)
  fresh := by
    intro acts number computation tag hnext hunborn
    refine ⟨fun earlier effect hacts => absurd (List.append_inj' hacts rfl).2 (by simp), ?_⟩
    rintro rfl hbegins -
    have hbefore : before <+: acts ++ [.pushed computation tag] := (List.prefix_append _ _).trans hbegins
    rcases List.prefix_concat_iff.1 hbegins with hsame | ⟨more, rfl⟩
    · exact absurd (List.append_inj' hsame rfl).2 (by simp)
    · obtain ⟨top, rest, hlive⟩ := hrecovered
      have hless := Roll.lt_next before number (by simp [hlive])
      have hgrows := Roll.next_after_le_append before (.caught error :: more)
      rw [List.append_assoc] at hnext
      exact absurd hnext (Nat.ne_of_gt (Nat.lt_of_lt_of_le hless hgrows))
  own := by
    intro acts act number stage after hhead hdoes kept
    refine ⟨fun earlier effect hacts hnumber => ?_, fun hnumber hbegins hbodies => ?_⟩
    · obtain ⟨rfl, hlast⟩ := List.append_inj' hacts rfl
      obtain rfl := List.singleton_inj.1 hlast
      cases hdoes
      rfl
    · rcases List.prefix_concat_iff.1 hbegins with hsame | hearlier
      · obtain rfl := List.singleton_inj.1 (List.append_inj' hsame rfl).2
        cases hdoes
      · have hnow := kept.2 hnumber hearlier hbodies.of_concat
        cases hdoes with
        | defer | start => exact hnow.concat _
        | answer | fork => exact hnow.tell fun _ herror => nomatch herror
        | fail hwaits failure =>
            refine hnow.tell fun other hother => ?_
            cases hother
            exact .refused rfl hearlier hhead
        | begin | resume | resumeWith | act | wait | perform | complete | giveUp =>
            obtain ⟨_, hstage, -⟩ := hnow
            cases hstage
  take := by
    intro acts number stage taken hhead hwaits kept
    refine ⟨fun earlier effect hacts => absurd (List.append_inj' hacts rfl).2 (by simp), ?_⟩
    rintro rfl hbegins hbodies
    rcases List.prefix_concat_iff.1 hbegins with hsame | hearlier
    · obtain ⟨rfl, -⟩ := List.append_inj' hsame rfl
      exact absurd hhead hcovered
    · obtain ⟨outcome, rfl, -⟩ := kept.2 rfl hearlier hbodies.of_concat
      obtain ⟨earlier, effect, rfl⟩ := hbodies acts taken [] rfl
      rw [Roll.after_concat] at hhead
      cases kept.1 earlier effect rfl hhead
  rob := by
    intro acts number taken hbeneath kept
    refine ⟨fun earlier effect hacts => absurd (List.append_inj' hacts rfl).2 (by simp), fun _ _ _ => ?_⟩
    exact ⟨_, rfl, .inl rfl⟩
  receive := by
    intro acts number stage outcome stages hbeneath obeys hwaits kept
    refine ⟨fun earlier effect hacts => absurd (List.append_inj' hacts rfl).2 (by simp), fun hnumber hbegins hbodies => ?_⟩
    rcases List.prefix_concat_iff.1 hbegins with hsame | hearlier
    · exact absurd (List.append_inj' hsame rfl).2 (by simp)
    · refine (kept.2 hnumber hearlier hbodies.of_concat).tell ?_
      rintro failure rfl
      exact .left rfl hearlier hbeneath obeys
  mark := by
    intro acts number stage hlive hidle kept
    refine ⟨fun earlier effect hacts => absurd (List.append_inj' hacts rfl).2 (by simp), fun hnumber hbegins hbodies => ?_⟩
    rcases List.prefix_concat_iff.1 hbegins with hsame | hearlier
    · exact absurd (List.append_inj' hsame rfl).2 (by simp)
    · have hnow := (kept.2 hnumber hearlier hbodies.of_concat).concat .noticed
      obtain ⟨outcome, rfl, houtcome⟩ := hnow
      exact ⟨outcome, rfl, houtcome⟩
  stay := by
    intro acts act number stage hlive hother hnotice hbeneath kept
    refine ⟨fun earlier effect hacts hnumber => ?_, fun hnumber hbegins hbodies => ?_⟩
    · obtain ⟨rfl, hlast⟩ := List.append_inj' hacts rfl
      obtain rfl := List.singleton_inj.1 hlast
      exact absurd (Roll.actor_of_head hnumber (by simp)) hother
    · rcases List.prefix_concat_iff.1 hbegins with hsame | hearlier
      · obtain ⟨rfl, hlast⟩ := List.append_inj' hsame rfl
        obtain rfl := List.singleton_inj.1 hlast
        exact absurd rfl ((hbeneath (hnumber ▸ hrecovered)).2 error)
      · exact (kept.2 hnumber hearlier hbodies.of_concat).concat act

/-! ## The main statement -/

/-- A recover operation that the computation of the top frame performs reaches the frame below: no other frame changes,
and the computation goes on with what the operation comes to, unless the stack takes note of a cancellation. -/
def ReachesOne (machine : Machine) (asking : Run) : Prop :=
  ∃ value below resume, asking.stack.top.progress = .suspended resume ∧ ReachesBelow asking value below ∧
    (machine.handle .recover asking).stack =
      { asking.stack with top := { asking.stack.top with result := .ok value }, below } ∧
    ∀ host, Machine.noticeActs { stack := (machine.handle .recover asking).stack, host } = [] →
      machine.step { stack := (machine.handle .recover asking).stack, host } =
        Machine.moved (Machine.resumeTop { stack := (machine.handle .recover asking).stack, host } (resume (.ok value)))

/-- A frame whose error was recovered hands down no error, or that of a deferred effect which failed since. -/
structure HandsDownSince (earlier acts : List Act) (number : Nat) (leaving next : Run) : Prop where
  leaves : leaving.Does .left next
  /-- The frame below takes over the outcome. -/
  delivered : ∃ parent rest, leaving.stack.below = parent :: rest ∧
    next.stack.top = parent.absorb leaving.stack.top.result
  outcome : leaving.stack.top.result = .ok .null ∨
    ∃ failure, leaving.stack.top.result = .error failure ∧ FailsSince earlier acts number failure

/-- What holds of a frame on the stack that is gone in the end: it was on top when it was taken off. -/
theorem Roll.exists_gone {acts more : List Act} {number : Nat} (hlive : number ∈ (Roll.after acts).live)
    (hgone : number ∉ (Roll.after (acts ++ more)).live) :
    ∃ first act rest, more = first ++ act :: rest ∧ (act = .left ∨ act = .dropped) ∧
      (Roll.after (acts ++ first)).live.head? = some number := by
  induction more using List.reverseRecOn with
  | nil => exact absurd (by simpa using hlive) hgone
  | append_singleton more act ih =>
      by_cases hkept : number ∈ (Roll.after (acts ++ more)).live
      · rw [← List.append_assoc, Roll.after_concat] at hgone
        refine ⟨more, act, [], rfl, ?_, head_of_not_mem_apply hkept hgone⟩
        cases act with
        | left => exact .inl rfl
        | dropped => exact .inr rfl
        | pushed computation tag => exact absurd (List.mem_cons_of_mem _ hkept) hgone
        | _ => exact absurd hkept hgone
      · obtain ⟨first, other, rest, rfl, hother, hhead⟩ := ih hkept
        exact ⟨first, other, rest ++ [act], by simp, hother, hhead⟩

section Histories

variable {machine : Machine} {context : Context} {signal : Option TaskId} {opening : Effect}
variable {acts before after : List Act} {run : Run} {error : Error} {number : Nat}

/-- The computation of a frame waits when it has performed an effect, and nothing was told to it. -/
theorem Moment.asking_of_performed {asking : Run} {effect : Effect}
    (moment : Moment machine context signal opening (before ++ [.performed effect]) asking) :
    ∃ resume, asking.stack.top.progress = .suspended resume ∧ asking.stack.top.result = .ok .null ∧
      asking.stack.top.cancellation = .none := by
  obtain ⟨stages, obeys, stands⟩ := moment.stands
  generalize hacts : before ++ [.performed effect] = acts at obeys
  cases obeys with
  | start => simp at hacts
  | @act acts act first last obeys hprotocol =>
      obtain rfl := List.singleton_inj.1 (List.append_inj' hacts rfl).2
      cases hprotocol with
      | top hdoes =>
          cases hdoes
          cases stands with
          | above hagrees hwaits =>
              obtain ⟨hat, hresult, hcancellation⟩ := hagrees
              have hsuspended : ∃ resume, asking.stack.top.progress = .suspended resume := by
                generalize asking.stack.top.progress = progress at hat
                cases hat
                exact ⟨_, rfl⟩
              obtain ⟨resume, hresume⟩ := hsuspended
              exact ⟨resume, hresume, hresult _ rfl, hcancellation _ rfl⟩

/-- A recover operation that may pass reaches the frame below. -/
theorem Moment.reachesOne {asking : Run} {later : Host} (hrecover : machine.registry.hasHandlers Kind.recover = false)
    (moment : Moment machine context signal opening (before ++ [.performed .recover]) asking)
    (hadmits : machine.registry.Admits asking.host [.recover] later) : ReachesOne machine asking := by
  obtain ⟨resume, hsuspended, htold, hkept⟩ := moment.asking_of_performed
  obtain ⟨value, below, hreaches, hstack⟩ := asking.exists_reachesBelow htold
  have hhandled : (machine.handle .recover asking).stack =
      { asking.stack with top := { asking.stack.top with result := .ok value }, below } := by
    rw [Machine.handle_recover hrecover hadmits, ← hstack]
    exact Run.stack_recover asking later
  refine ⟨value, below, resume, hsuspended, hreaches, hhandled, fun host hcalm => ?_⟩
  have hresult : (machine.handle .recover asking).stack.top.result = .ok value := by rw [hhandled]
  have hstep : machine.step { stack := (machine.handle .recover asking).stack, host } = _ :=
    Machine.step_of_told (by simp only [hhandled]; exact hsuspended) (by simp only [hhandled, hkept]; simp) hcalm
  rw [hstep, hresult]

/-- A frame whose error was recovered by a computation hands down no error, or that of a deferred effect which failed
since. -/
theorem History.handsDownSince (history : History machine context signal opening acts run)
    (hbodies : CaughtByBodies acts) {middle later : List Act}
    (hacts : acts = (before ++ .caught error :: middle) ++ .left :: later) (hbeneath : Beneath before number)
    (hhead : (Roll.after (before ++ .caught error :: middle)).live.head? = some number) :
    ∃ leaving next, Moment machine context signal opening (before ++ .caught error :: middle) leaving ∧
      HandsDownSince (before ++ [.caught error]) (before ++ .caught error :: middle) number leaving next := by
  obtain ⟨leaving, next, moment, hleaves, -⟩ := history.exists_does hacts
  refine ⟨leaving, next, moment, ?_⟩
  obtain ⟨stages, obeys, stands⟩ := moment.stands
  have hcovered : (Roll.after before).live.head? ≠ some number := by
    obtain ⟨first, -, hfirst, -⟩ := obeys.split rfl
    obtain ⟨top, rest, hlive⟩ := hbeneath
    have hfalling := hfirst.sound.falling
    rw [hlive] at hfalling ⊢
    exact fun hsame => Nat.ne_of_gt ((List.pairwise_cons.1 hfalling).1 number List.mem_cons_self) (Option.some.inj hsame)
  have hearlier : CaughtByBodies (before ++ .caught error :: middle) := fun first taken rest hsame =>
    hbodies first taken (rest ++ .left :: later) (by rw [hacts, hsame, List.append_assoc]; rfl)
  cases hleaves with
  | leave parent rest hbelow hfinished hdefers =>
      refine ⟨.leave _ parent rest hbelow hfinished hdefers, ⟨parent, rest, hbelow, rfl⟩, ?_⟩
      have hframes : leaving.frames = leaving.stack.top :: parent :: rest := by rw [Run.frames, hbelow]
      rw [hframes] at stands
      obtain ⟨stage, others, rfl, hagrees, -⟩ := stands.exists_above
      obtain rfl := hagrees.eq_ended hfinished
      obtain ⟨outcome, hended, houtcome⟩ := (obeys.kept_top (recovering hbeneath hcovered error) hhead).2 rfl
        ⟨middle, by simp⟩ hearlier
      cases hended
      exact houtcome

end Histories

/-- A recover operation reaches exactly one level.  Without handlers of recover operations, one that is performed and may
pass tells its computation the error of the frame directly below, if that frame has finished with one, and takes it
from that frame; or else it tells nothing and changes nothing.  Where no frame is discarded and all recover operations are
performed by computations, a frame whose error was recovered hands down no error, or that of a deferred effect which
failed since; and it does leave before the stack is down to its sentinel. -/
theorem recover_reaches_one {machine : Machine} (hrecover : machine.registry.hasHandlers Kind.recover = false)
    {context : Context} {signal : Option TaskId} {opening : Effect} {acts : List Act} {run : Run}
    (history : History machine context signal opening acts run) :
    (∀ before after : List Act, acts = before ++ .performed .recover :: after →
      (∃ rest : List Act, after = .noticed :: rest) ∨
        ∃ asking more, Moment machine context signal opening (before ++ [.performed .recover]) asking ∧
          after = machine.handleActs .recover asking ++ more ∧ (machine.handle .recover asking).Passes more run ∧
          ∀ later, machine.registry.Admits asking.host [.recover] later → ReachesOne machine asking) ∧
    (.dropped ∉ acts → (∀ effect, .started effect ∈ acts → effect.recovers = false) →
      ∀ (before : List Act) (error : Error) (after : List Act) (number : Nat),
        acts = before ++ .caught error :: after → Beneath before number →
        (∀ middle later : List Act, after = middle ++ .left :: later →
          (Roll.after (before ++ .caught error :: middle)).live.head? = some number →
            ∃ leaving next, Moment machine context signal opening (before ++ .caught error :: middle) leaving ∧
              HandsDownSince (before ++ [.caught error]) (before ++ .caught error :: middle) number leaving next) ∧
        (run.stack.below = [] → ∃ middle later, after = middle ++ .left :: later ∧
          (Roll.after (before ++ .caught error :: middle)).live.head? = some number)) := by
  refine ⟨fun before after hacts => ?_, fun hkept hbodies before error after number hacts hbeneath => ⟨?_, ?_⟩⟩
  · rcases history.performs hacts with hnoticed | ⟨asking, more, moment, -, hafter, hpasses⟩
    · exact .inl hnoticed
    · exact .inr ⟨asking, more, moment, hafter, hpasses, fun later hadmits => moment.reachesOne hrecover hadmits⟩
  · rintro middle later rfl hhead
    have hcaught : CaughtByBodies acts := fun first taken rest hsplit => history.exists_performed hkept hbodies hsplit
    exact history.handsDownSince hcaught (by rw [hacts, List.append_assoc]; rfl) hbeneath hhead
  · intro hsettled
    obtain ⟨top, rest, hlive⟩ := hbeneath
    have hpresent : number ∈ (Roll.after (before ++ [.caught error])).live := by
      rw [Roll.after_concat]
      show number ∈ (Roll.after before).live
      simp [hlive]
    have hpos : 0 < number := by
      obtain ⟨stages, obeys, -⟩ := history.stands
      obtain ⟨first, next, hfirst, hprotocol⟩ := obeys.split hacts
      have hlength := hfirst.length_live
      have hfalling := hfirst.sound.falling
      rw [hlive] at hlength hfalling
      cases hprotocol with
      | «catch» =>
          simp only [List.length_cons] at hlength
          have hless := (List.pairwise_cons.1 (List.pairwise_cons.1 hfalling).2).1 _
            (List.getElem_mem (show 0 < rest.length by omega))
          omega
      | top hdoes => cases hdoes
    have hgone := history.tracks.not_mem_live hsettled hpos
    rw [hacts, List.append_cons] at hgone
    obtain ⟨first, act, later, rfl, hact, hhead⟩ := Roll.exists_gone hpresent hgone
    rcases hact with rfl | rfl
    · exact ⟨first, later, rfl, by simpa using hhead⟩
    · exact absurd (hacts ▸ by simp) hkept

/-! ## A sample run -/

namespace Deferring

/-- A computation that recovers an error and ends with what it was told. -/
def rescuer : Computation :=
  ⟨some "rescuer", .perform .recover .done⟩

/-- What a computation does that defers the rescuer and then fails. -/
def rescued : List Act × Run :=
  deeds (.bare rescuer) (.error boom)

end Deferring

open Deferring in
/-- The error of a computation that defers its rescuer is recovered, and the computation hands down no error. -/
theorem recover_reaches_rescued :
    (∃ asking, ReachesOne Machine.bare asking) ∧
      ∃ leaving next, HandsDownSince (rescued.1.take 10 ++ [.caught boom])
        (rescued.1.take 10 ++ .caught boom :: (rescued.1.drop 11).take 3) 1 leaving next := by
  have history := History.settle Machine.bare (.blank 0) (main (.bare rescuer) (.error boom)) {} 12
  obtain ⟨hreaches, hdelivers⟩ := recover_reaches_one rfl history
  refine ⟨?_, ?_⟩
  · have hsplit : rescued.1 = rescued.1.take 9 ++ .performed .recover :: rescued.1.drop 10 := rfl
    rcases hreaches _ _ hsplit with ⟨rest, hnoticed⟩ | ⟨asking, more, -, -, -, hreached⟩
    · cases hnoticed
    · exact ⟨asking, hreached asking.host
        (Registry.admits_of_validators rfl (by simp [Registry.terminalRefusal]) asking.host)⟩
  · have hkept : rescued.1.any Act.drops = false := by decide
    have hothers : rescued.1.any (fun act => act.started?.any Effect.recovers) = false := by decide
    have hsplit : rescued.1 = rescued.1.take 10 ++ .caught boom :: rescued.1.drop 11 := rfl
    have hbodies (effect : Effect) (hmem : .started effect ∈ rescued.1) : effect.recovers = false := by
      simpa [Act.started?] using List.any_eq_false.1 hothers _ hmem
    obtain ⟨hleaves, -⟩ := hdelivers (Act.not_mem_of_any hkept rfl) hbodies _ boom _ 1 hsplit ⟨2, [0], rfl⟩
    obtain ⟨leaving, next, -, hdown⟩ := hleaves ((rescued.1.drop 11).take 3) [] rfl rfl
    exact ⟨leaving, next, hdown⟩

end EffectMachine
