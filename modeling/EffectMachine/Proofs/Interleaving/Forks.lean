import EffectMachine.Proofs.Interleaving.Interruptions
import EffectMachine.Proofs.Interleaving.Origins

/-!
# What forks are answered with

On a machine without handlers of forks, a computation that forks an effect is told at once: an error, if the effect is
refused, or else the task that was spawned for the effect.  Whatever happens in between, this is what it is resumed with.

* `Runs.didByMove` finds the move by which a process did something, and what the system was like before and after.
* `Offspring` says that a task is the one of an effect: all it did, from being forked on, is a history of the effect.
* `Runs.fork_answered` says what stands after a fork in the deeds of a process, and `Runs.fork_of_strides` what a
  computation that forked an effect is resumed with.
* `Runs.offspring_of_forkings` says that tasks forked one after another are those of the effects, each its own.
-/

namespace EffectMachine

variable {machine : Machine} {first : Host} {trace : Trace} {system : System} {task : TaskId}

/-! ## The move of an act -/

/-- A process did something by a move of the system; `before` and `after` are what it did before and after. -/
inductive DidByMove (machine : Machine) (first : Host) (trace : Trace) (system : System) (task : TaskId)
    (before : List Act) (act : Act) (after : List Act) : Prop
  | intro {earlier acts later : Trace} {seen next : System} {own rest : List Act}
      (runs : Runs machine first earlier seen) (hmoves : Moves machine seen acts next)
      (proceeds : Proceeds machine next later system) (htrace : trace = earlier ++ acts ++ later)
      (hown : deeds acts task = own ++ act :: rest) (hbefore : before = deeds earlier task ++ own)
      (hafter : after = rest ++ deeds later task)

/-- Whatever a process did, it did by a move of the system. -/
theorem Runs.didByMove (runs : Runs machine first trace system) {before after : List Act} {act : Act}
    (hdeeds : deeds trace task = before ++ act :: after) :
    DidByMove machine first trace system task before act after := by
  induction runs generalizing after with
  | start hnew => simp at hdeeds
  | @move trace acts middle last runs hmoves ih =>
      rw [deeds_append] at hdeeds
      rcases split_of_append hdeeds with ⟨rest, htrace, rfl⟩ | ⟨own, rfl, hacts⟩
      · obtain ⟨opened, hdid, proceeds, rfl, hown, hbefore, rfl⟩ := ih htrace
        refine ⟨opened, hdid, .move proceeds hmoves, ?_, hown, hbefore, ?_⟩
        · simp
        · rw [deeds_append, List.append_assoc]
      · exact ⟨runs, hmoves, .start, by simp, hacts, rfl, by simp⟩

/-- A process that does something by a move is the running one. -/
theorem Moves.advances_of_deeds {next : System} {acts : Trace} (hmoves : Moves machine system acts next)
    (hsound : system.Sound) (hdeeds : deeds acts task ≠ []) :
    ∃ activity after later, system.current = some (task, activity) ∧
      machine.Advances task system.host activity (deeds acts task) after later ∧
      next.activity? task = some after ∧ next.parked.Like (later.park task after) ∧
      ∀ other, other ≠ task → deeds acts other = [] := by
  rcases hmoves.cases hsound with ⟨rfl, -⟩ | ⟨running, doing, hcurrent, own, after, later, hadvances, rfl, -, hlike⟩
  · exact absurd (deeds_nil task) hdeeds
  · by_cases hown : running = task
    · subst hown
      obtain ⟨process, hprocess, -⟩ := hsound running doing hcurrent
      obtain ⟨_, hkept, -⟩ := hadvances.grows.kept hprocess
      refine ⟨doing, after, later, hcurrent, by rwa [deeds_own], ?_, hlike, fun other hother => ?_⟩
      · rw [System.activity?_eq hlike]
        exact Host.activity_park_self after hkept
      · exact deeds_other hother.symm own
    · exact absurd (deeds_other hown own) hdeeds

/-! ## Steps that perform an effect -/

namespace Machine

variable {effect : Effect}

/-- A computation that performs an effect has it handled at once, unless a cancellation is noticed. -/
theorem step_of_perform {run : Run} {resume : Outcome → Body}
    (hrunning : run.stack.top.progress = .running (.perform effect resume))
    (hkept : run.stack.top.cancellation = .none) (hcalm : .noticed ∉ machine.stepActs run) :
    machine.stepActs run = .performed effect :: machine.handleActs effect (run.asking resume) ∧
      machine.step run = moved (machine.handle effect (run.asking resume)) := by
  unfold stepActs at hcalm ⊢
  unfold step
  simp only [hrunning, suspendActs, suspend] at hcalm ⊢
  have hnotice : .noticed ∉ noticeActs (run.asking resume) := fun hmem =>
    hcalm (List.mem_append_left _ (List.mem_cons_of_mem _ hmem))
  obtain ⟨hnone, hsame⟩ := observeCancellation_eq hnotice
  have hgoing : ¬ (run.asking resume).stack.top.cancellation = .due := by
    show ¬ run.stack.top.cancellation = .due
    simp [hkept]
  unfold Run.asking at hnone hsame hgoing ⊢
  rw [hnone, hsame, if_neg hgoing, if_neg hgoing]
  exact ⟨rfl, rfl⟩

end Machine

/-- A step of a process by which a computation performs an effect does nothing else than to have it handled, unless a
cancellation is noticed. -/
theorem Machine.Advances.performs {host later : Host} {activity after : Activity} {own seen rest : List Act}
    {effect : Effect} (hadvances : machine.Advances task host activity own after later)
    (hown : own = seen ++ .performed effect :: rest)
    (hkept : ∀ stack body, activity.stack? = some stack → stack.top.progress = .running body →
      stack.top.cancellation = .none) :
    seen = [] ∧ (rest = [.noticed] ∨ ∃ stack resume, activity.stack? = some stack ∧ stack.below ≠ [] ∧
      stack.top.progress = .running (.perform effect resume) ∧
      rest = machine.handleActs effect (Run.asking { stack, host } resume) ∧
      after.stack? = some (machine.handle effect (Run.asking { stack, host } resume)).stack ∧
      later = (machine.handle effect (Run.asking { stack, host } resume)).host) := by
  have hhandled {opening : Effect} {act : Act} {run : Run} (hmem : act ∈ machine.handleActs opening run) :
      act.handles = true := machine.handles_handleActs opening run act hmem
  have hopening {opening : Effect} {run : Run} (hacts : machine.handleActs opening run = seen ++ .performed effect :: rest) :
      False := by
    have hmem : .performed effect ∈ machine.handleActs opening run := by simp [hacts]
    exact Bool.false_ne_true (hhandled hmem)
  cases hadvances with
  | begin | submit => exact (hopening hown).elim
  | step stack habove | runStep stack resume habove =>
      obtain ⟨rfl, resume, hrunning, hrest⟩ := Machine.handled_stepActs (hkept stack · rfl) hown
      refine ⟨rfl, hrest.imp id fun hrest => ?_⟩
      have hcalm : .noticed ∉ machine.stepActs { stack, host } := by
        rw [hown, hrest]
        intro hmem
        have hnoticed : .noticed ∈ machine.handleActs effect (Run.asking { stack, host } resume) := by simpa using hmem
        exact Bool.false_ne_true (hhandled hnoticed)
      obtain ⟨-, hstep⟩ := Machine.step_of_perform hrunning (hkept stack _ rfl hrunning) hcalm
      refine ⟨stack, resume, rfl, habove, hrunning, hrest, ?_, ?_⟩
      · rw [hstep]
        rfl
      · rw [hstep]
        rfl
  | settle | runEnd | done | act | wait | sendOut | gather | «await» | report | rest => simp at hown

/-! ## Handling a fork -/

/-- Forks are served by no handler: the top frame is told an error, or else the task that was spawned. -/
theorem Machine.handle_fork (hfork : machine.registry.hasHandlers Kind.fork = false) (effect : Effect) (run : Run) :
    (∃ error, machine.handleActs (.fork effect) run = [.failed error] ∧
      (machine.handle (.fork effect) run).stack = run.stack.withTop fun frame => frame.absorb (.error error)) ∨
    machine.handleActs (.fork effect) run = [.forked effect] ∧
      (machine.handle (.fork effect) run).stack =
        run.stack.withTop fun frame => frame.absorb (.ok (.task ⟨run.host.activities.length⟩)) := by
  have hcore (run : Run) := machine.dispatch_eq_core (.fork effect) hfork 0 run
  have hfailed (failed : Run) (error : Error) (hstack : failed.stack = run.stack) :
      ((failed.emit (.effectFailed error failed.stack.labels)).failTop error).stack =
        run.stack.withTop fun frame => frame.absorb (.error error) := by
    rw [Run.stack_failTop]
    exact congrArg (Stack.withTop · fun frame => frame.absorb (.error error)) hstack
  have hquiet := run.host.quiet_run (machine.registry.validate (.fork effect))
  unfold handleActs handle attempt
  cases hvalidate : run.host.run (machine.registry.validate (.fork effect)) with
  | mk verdict host =>
      cases verdict with
      | some error => exact .inl ⟨error, rfl, hfailed _ error rfl⟩
      | none =>
          rw [hvalidate] at hquiet
          have hcount : host.activities.length = run.host.activities.length := by rw [Host.activities_of_quiet hquiet]
          simp only [hcore, core, coreActs, fork]
          cases hscheduled : host.scheduled with
          | false => exact .inl ⟨.type noScheduler, rfl, hfailed _ _ rfl⟩
          | true =>
              refine .inr ⟨rfl, ?_⟩
              simp only [if_true, Run.stack_answerTop]
              rw [← hcount, Host.activities, List.length_map]
              rfl

/-! ## Being resumed -/

/-- A frame that waits is resumed with its result, or is given up as a cancellation is noticed. -/
theorem Machine.stepActs_of_suspended {run : Run} {resume : Outcome → Body}
    (hsuspended : run.stack.top.progress = .suspended resume) (hkept : run.stack.top.cancellation = .none) :
    machine.stepActs run = [.resumed run.stack.top.result] ∨
      ∃ rest, machine.stepActs run = .noticed :: .givenUp :: rest := by
  have hgoing : run.stack.top.isFinished = false := by simp [Frame.isFinished, hsuspended]
  unfold stepActs
  simp only [hsuspended, turnActs, noticeActs, Run.observeCancellation]
  split
  · have hmarked : run.stack.top.markCanceled = { run.stack.top with cancellation := .due } := by
      simp [Frame.markCanceled, hkept]
    have hwaits : run.stack.markCanceled.top.isFinished = false := by
      show run.stack.top.markCanceled.isFinished = false
      rw [hmarked]
      exact hgoing
    have hdue : run.stack.markCanceled.top.cancellation = .due := by
      show run.stack.top.markCanceled.cancellation = .due
      rw [hmarked]
    simp [Run.emit, hwaits, hdue]
  · simp [hgoing, hkept, hsuspended]

/-- The next thing that a process does whose top frame waits is to resume it with its result, or to give it up as a
cancellation is noticed. -/
theorem Proceeds.resumes {later : System} {more : Trace} (proceeds : Proceeds machine system more later)
    (hsound : system.Sound) {activity : Activity} {stack : Stack} {resume : Outcome → Body}
    (hactivity : system.activity? task = some activity) (hstack : activity.stack? = some stack)
    (habove : stack.below ≠ []) (hsuspended : stack.top.progress = .suspended resume)
    (hkept : stack.top.cancellation = .none) :
    (deeds more task = [] ∧ later.activity? task = some activity) ∨
      (∃ rest, deeds more task = .resumed stack.top.result :: rest) ∨
        ∃ rest, deeds more task = .noticed :: .givenUp :: rest := by
  induction proceeds with
  | start => exact .inl ⟨rfl, hactivity⟩
  | @move trace acts middle next before hmoves ih =>
      rw [deeds_append]
      rcases ih with ⟨hnone, hkeeps⟩ | ⟨rest, hresumed⟩ | ⟨rest, hnoticed⟩
      · rw [hnone, List.nil_append]
        rcases hmoves.activity (before.sound hsound) hkeeps with ⟨hidle, hsame⟩ | ⟨after, _, hadvances, -, -⟩
        · exact .inl ⟨hidle, hsame⟩
        · refine .inr ?_
          generalize deeds acts task = own at hadvances ⊢
          cases hadvances with
          | step stack habove | runStep stack resume habove =>
              cases hstack
              exact (Machine.stepActs_of_suspended hsuspended hkept).imp (fun hsteps => ⟨[], hsteps⟩) id
          | settle stack hbelow | runEnd stack resume hbelow =>
              cases hstack
              exact absurd hbelow habove
          | begin | submit | done | act | wait | sendOut | gather | «await» | report | rest => cases hstack
      · exact .inr (.inl ⟨rest ++ deeds acts task, by rw [hresumed, List.cons_append]⟩)
      · exact .inr (.inr ⟨rest ++ deeds acts task, by rw [hnoticed, List.cons_append, List.cons_append]⟩)

/-! ## Forks -/

/-- A task is the one of an effect: all that it did is what becomes of a task that is forked with the effect. -/
def Offspring (machine : Machine) (trace : Trace) (system : System) (effect : Effect) (forked : TaskId) : Prop :=
  ∃ context activity, system.activity? forked = some activity ∧
    Career machine context forked effect (deeds trace forked) activity

/-- What a fork is answered with, by the act that stands after it: an error, or a task that was not there before. -/
inductive ForkAnswer (machine : Machine) (first : Host) (trace : Trace) (system : System) (task : TaskId)
    (before : List Act) (effect : Effect) : Act → Outcome → Prop
  | refused (error : Error) :
      ForkAnswer machine first trace system task before effect (.failed error) (.error error)
  | forked {earlier : Trace} {seen : System} (forked : TaskId) (runs : Runs machine first earlier seen)
      (hbefore : deeds earlier task = before) (hnew : seen.activity? forked = none)
      (hoffspring : Offspring machine trace system effect forked) :
      ForkAnswer machine first trace system task before effect (.forked effect) (.ok (.task forked))

/-- A computation that is running in a process was not reached by a cancellation. -/
theorem Runs.kept_of_running (runs : Runs machine first trace system) {stack : Stack} {body : Body}
    (hdriven : system.driven? task = some stack) (hrunning : stack.top.progress = .running body) :
    stack.top.cancellation = .none := by
  obtain ⟨stages, -, stands⟩ := runs.stands task (show Drives (system.driven? task) stack by rw [hdriven]; rfl)
  exact stands.kept_of_running hrunning

/-- A process that forks an effect is told an error or the new task, and then goes on with that, unless a cancellation is
noticed. -/
theorem Runs.fork_answered (runs : Runs machine first trace system)
    (hfork : machine.registry.hasHandlers Kind.fork = false) {before after : List Act} {effect : Effect}
    (hdeeds : deeds trace task = before ++ .performed (.fork effect) :: after) :
    (∃ rest, after = .noticed :: rest) ∨ ∃ act later answer, after = act :: later ∧
      ForkAnswer machine first trace system task before effect act answer ∧
      (later = [] ∨ (∃ rest, later = .resumed answer :: rest) ∨ ∃ rest, later = .noticed :: .givenUp :: rest) := by
  obtain ⟨opened, hmoves, proceeds, rfl, hown, rfl, rfl⟩ := runs.didByMove hdeeds
  rename_i earlier acts later seen next own rest
  obtain ⟨activity, following, host, hcurrent, hadvances, hfollowing, hlike, hothers⟩ :=
    hmoves.advances_of_deeds opened.sound (by rw [hown]; simp)
  have hactivity := System.activity?_current opened.sound hcurrent
  have hkept (stack : Stack) (body : Body) (hstack : activity.stack? = some stack)
      (hrunning : stack.top.progress = .running body) : stack.top.cancellation = .none :=
    opened.kept_of_running (by rw [System.driven?, hactivity]; exact hstack) hrunning
  obtain ⟨rfl, rfl | ⟨stack, resume, hstack, habove, hrunning, rfl, hnext, rfl⟩⟩ := hadvances.performs hown hkept
  · exact .inl ⟨_, rfl⟩
  refine .inr ?_
  have hsound := hmoves.sound opened.sound
  -- what the process was told is what it is resumed with, whatever happens in between
  have hresumed {answer : Outcome}
      (htold : (machine.handle (.fork effect) (Run.asking { stack, host := seen.host } resume)).stack =
        (Run.asking { stack, host := seen.host } resume).stack.withTop fun frame => frame.absorb answer) :
      deeds later task = [] ∨ (∃ rest, deeds later task = .resumed answer :: rest) ∨
        ∃ rest, deeds later task = .noticed :: .givenUp :: rest := by
    rw [htold] at hnext
    have hgoing : ((Run.asking { stack, host := seen.host } resume).stack.withTop fun frame =>
        frame.absorb answer).top.cancellation = .none := hkept stack _ hstack hrunning
    exact (proceeds.resumes hsound hfollowing hnext habove rfl hgoing).imp And.left id
  rcases machine.handle_fork hfork effect (Run.asking { stack, host := seen.host } resume) with
    ⟨error, hacts, htold⟩ | ⟨hacts, htold⟩
  · exact ⟨_, _, _, by rw [hacts]; rfl, .refused error, hresumed htold⟩
  have hnew : seen.activity? ⟨seen.host.activities.length⟩ = none := by
    rw [System.activity?_eq_getElem?, System.parked, hcurrent]
    exact List.getElem?_eq_none (by simp [Host.activities_park])
  have hother : (⟨seen.host.activities.length⟩ : TaskId) ≠ task := by
    rintro rfl
    rw [hnew] at hactivity
    cases hactivity
  refine ⟨_, _, _, by rw [hacts]; rfl, .forked ⟨seen.host.activities.length⟩ opened (by simp) hnew ?_, hresumed htold⟩
  -- the new task has done nothing before
  have hspawned := (machine.handle_chain (.fork effect) (Run.asking { stack, host := seen.host } resume)).activities
  rw [hacts] at hspawned
  have hforked : next.activity? ⟨seen.host.activities.length⟩ = some (.forked stack.context effect) := by
    rw [System.activity?_eq hlike, Host.park_other _ fun hindex => hother (congrArg TaskId.mk hindex.symm), ← List.getElem?_map]
    show (Host.activities _)[_]? = _
    rw [hspawned]
    exact List.getElem?_concat_length
  obtain ⟨descent, origins⟩ := opened.origins
  have hunborn : deeds earlier ⟨seen.host.activities.length⟩ = [] := by
    refine origins.unborn _ ?_
    rw [System.activity?_eq_getElem?, List.getElem?_eq_none_iff] at hnew
    exact hnew
  obtain ⟨last, hlast, career⟩ := proceeds.career hsound hforked
  refine ⟨stack.context, last, hlast, ?_⟩
  rw [deeds_append, deeds_append, hunborn, hothers _ hother]
  exact career

theorem strides_singleton {act : Act} (hstride : act.isStride = true) : strides [act] = [act] :=
  List.filter_cons_of_pos hstride

theorem strides_of_not_stride {act : Act} (hstride : act.isStride = false) : strides [act] = [] :=
  List.filter_cons_of_neg (by simp [hstride])

/-- The frame on top of a stack, if it is not the sentinel. -/
theorem Roll.head?_eq {roll : Roll} {number : Nat} (hpos : 0 < number) (htop : roll.live.headD 0 = number) :
    roll.live.head? = some number := by
  cases hlive : roll.live with
  | nil =>
      rw [hlive] at htop
      exact absurd htop (Nat.ne_of_lt hpos)
  | cons head rest =>
      rw [hlive] at htop
      exact congrArg some htop

/-- What stands in the strides of a frame stands in the deeds of its process. -/
theorem exists_of_strides {acts : List Act} {number : Nat} {earlier later : List Act} {act : Act}
    (hstrides : strides (life acts number) = earlier ++ act :: later) :
    ∃ before after, acts = before ++ act :: after ∧ (Roll.after before).actor act = number ∧
      strides (life before number) = earlier := by
  induction acts using List.reverseRecOn generalizing later with
  | nil => simp [strides] at hstrides
  | append_singleton acts last ih =>
      rw [life_concat, strides_append] at hstrides
      rcases split_of_append hstrides with ⟨rest, hrest, -⟩ | ⟨own, rfl, hlast⟩
      · obtain ⟨before, after, rfl, hactor, hbefore⟩ := ih hrest
        exact ⟨before, after ++ [last], by simp, hactor, hbefore⟩
      · split at hlast
        · rename_i hactor
          cases hstride : last.isStride with
          | true =>
              rw [strides, List.filter_cons_of_pos hstride, List.filter_nil] at hlast
              cases own with
              | nil =>
                  cases hlast
                  exact ⟨acts, [], rfl, hactor, by simp⟩
              | cons head own => simp at hlast
          | false => simp [strides, hstride] at hlast
        · simp [strides] at hlast

/-- Performing an effect that is then forked or refused puts no frame on the stack and takes none off. -/
theorem ForkAnswer.after_eq {before : List Act} {effect : Effect} {act : Act} {answer : Outcome}
    (told : ForkAnswer machine first trace system task before effect act answer) (acts : List Act) :
    act.isStride = false ∧ Roll.after (acts ++ [.performed (.fork effect), act]) = Roll.after acts := by
  cases told with
  | refused | forked => simp [Act.isStride, Roll.after, Roll.apply]

/-- Where a computation is that has performed an effect to be forked: it is told an error or the new task, its frame is
on top of its stack, and the next stride, if there is one, is to be resumed with what it was told. -/
theorem Runs.fork_told (runs : Runs machine first trace system)
    (hfork : machine.registry.hasHandlers Kind.fork = false) (hcalm : .noticed ∉ deeds trace task) {number : Nat}
    {path later : List Act} {effect : Effect}
    (hstrides : strides (life (deeds trace task) number) = path ++ .performed (.fork effect) :: later) :
    ∃ before act answer after, deeds trace task = before ++ .performed (.fork effect) :: act :: after ∧
      (Roll.after before).actor (.performed (.fork effect)) = number ∧ strides (life before number) = path ∧
      ForkAnswer machine first trace system task before effect act answer ∧
      (later = [] ∧ (Roll.after (deeds trace task)).live.headD 0 = number ∨ ∃ rest, later = .resumed answer :: rest) := by
  obtain ⟨before, after, hdeeds, hactor, hpath⟩ := exists_of_strides hstrides
  rcases runs.fork_answered hfork hdeeds with ⟨rest, rfl⟩ | ⟨act, rest, told, rfl, hanswer, hrest⟩
  · exact absurd (by simp [hdeeds]) hcalm
  obtain ⟨hstride, hroll⟩ := hanswer.after_eq before
  have hopen : strides (life (before ++ [.performed (.fork effect), act]) number) = path ++ [.performed (.fork effect)] := by
    rw [List.append_cons, life_concat, life_concat, if_pos hactor, strides_append, strides_append, hpath,
      strides_singleton rfl]
    split
    · rw [strides_of_not_stride hstride, List.append_nil]
    · exact List.append_nil _
  refine ⟨before, act, told, rest, hdeeds, hactor, hpath, hanswer, ?_⟩
  rw [hdeeds] at hcalm hstrides ⊢
  rcases hrest with rfl | ⟨more, rfl⟩ | ⟨more, rfl⟩
  · rw [hopen] at hstrides
    exact .inl ⟨by simpa using hstrides, by rw [hroll]; exact hactor⟩
  · -- the frame that is resumed is the one that performed the effect
    have hnumber : (Roll.after (before ++ [.performed (.fork effect), act])).actor (.resumed told) = number := by
      rw [hroll]
      exact hactor
    have hsplit : before ++ .performed (.fork effect) :: act :: .resumed told :: more =
        before ++ [.performed (.fork effect), act] ++ [.resumed told] ++ more := by simp
    obtain ⟨further, hfurther⟩ := life_prefix (before ++ [.performed (.fork effect), act] ++ [.resumed told]) more number
    rw [hsplit, hfurther, life_concat, if_pos hnumber, strides_append, strides_append, hopen,
      strides_singleton rfl] at hstrides
    simp only [List.append_assoc, List.append_cancel_left_eq, List.cons_append, List.nil_append, List.cons.injEq,
      true_and] at hstrides
    exact .inr ⟨_, hstrides.symm⟩
  · simp at hcalm

/-- A computation whose effect was forked is not told an error. -/
theorem Runs.not_refused_of_forked (runs : Runs machine first trace system)
    (hfork : machine.registry.hasHandlers Kind.fork = false) {number : Nat} {before after later : List Act} {effect : Effect}
    {error : Error} (hdeeds : deeds trace task = before ++ .performed (.fork effect) :: .forked effect :: after)
    (hactor : (Roll.after before).actor (.performed (.fork effect)) = number) :
    strides (life (deeds trace task) number) ≠
      strides (life before number) ++ .performed (.fork effect) :: .resumed (.error error) :: later := by
  intro hstrides
  rcases runs.fork_answered hfork hdeeds with ⟨rest, hnoticed⟩ | ⟨act, rest, told, hact, hanswer, hrest⟩
  · cases hnoticed
  obtain ⟨rfl, rfl⟩ := List.cons.inj hact
  obtain ⟨-, hroll⟩ := hanswer.after_eq before
  obtain ⟨forked, rfl⟩ : ∃ forked, told = .ok (.task forked) := by
    cases hanswer
    exact ⟨_, rfl⟩
  obtain ⟨opened, hopened⟩ : ∃ opened, opened = before ++ [.performed (.fork effect), .forked effect] := ⟨_, rfl⟩
  have hopen : strides (life opened number) = strides (life before number) ++ [.performed (.fork effect)] := by
    rw [hopened, List.append_cons, life_concat, life_concat, if_pos hactor, strides_append, strides_append,
      strides_singleton rfl]
    split
    · rw [strides_of_not_stride rfl, List.append_nil]
    · exact List.append_nil _
  have hsplit : deeds trace task = opened ++ after := by rw [hdeeds, hopened, List.append_assoc]; rfl
  rw [hsplit] at hstrides
  rw [← hopened] at hroll
  rcases hrest with rfl | ⟨more, rfl⟩ | ⟨more, rfl⟩
  · rw [List.append_nil, hopen] at hstrides
    simp at hstrides
  · have hresumed : (Roll.after opened).actor (.resumed (.ok (.task forked))) = number := hroll ▸ hactor
    obtain ⟨rest, hrest⟩ := exists_strides_of_split rfl hresumed rfl
    rw [hrest, hopen] at hstrides
    simp at hstrides
  · have hgivenUp : (Roll.after (opened ++ [.noticed])).actor .givenUp = number := by
      rw [Roll.after_concat]
      exact hroll ▸ hactor
    obtain ⟨rest, hrest⟩ := exists_strides_of_split rfl hgivenUp rfl
    have hnoticed : strides (life (opened ++ [.noticed]) number) = strides (life opened number) := by
      rw [life_concat, strides_append]
      split
      · rw [strides_of_not_stride rfl, List.append_nil]
      · exact List.append_nil _
    rw [List.append_cons, hrest, hnoticed, hopen] at hstrides
    simp at hstrides

/-- A computation that forked an effect and was resumed got an error, or else a task that was not there before, which
is the one of the effect. -/
theorem Runs.fork_of_strides (runs : Runs machine first trace system)
    (hfork : machine.registry.hasHandlers Kind.fork = false) (hcalm : .noticed ∉ deeds trace task) {number : Nat}
    {path later : List Act} {effect : Effect} {answer : Outcome}
    (hstrides : strides (life (deeds trace task) number) =
      path ++ .performed (.fork effect) :: .resumed answer :: later) :
    (∃ error, answer = .error error) ∨
      ∃ forked earlier seen, answer = .ok (.task forked) ∧ Runs machine first earlier seen ∧
        .noticed ∉ deeds earlier task ∧ strides (life (deeds earlier task) number) = path ∧
        seen.activity? forked = none ∧ Offspring machine trace system effect forked := by
  obtain ⟨before, act, told, _, hdeeds, -, hpath, hanswer, hnext⟩ := runs.fork_told hfork hcalm hstrides
  have htold : told = answer := by
    rcases hnext with ⟨hnone, -⟩ | ⟨rest, hresumed⟩
    · cases hnone
    · exact (Act.resumed.inj (List.cons.inj hresumed).1).symm
  subst htold
  cases hanswer with
  | refused error => exact .inl ⟨error, rfl⟩
  | forked forked earlier hbefore hnew hoffspring =>
      subst hbefore
      exact .inr ⟨forked, _, _, rfl, earlier, fun hmem => hcalm (by simp [hdeeds, hmem]), hpath, hnew, hoffspring⟩

/-- The strides by which effects are forked as tasks, one after another. -/
def forkings : List (Effect × TaskId) → List Act
  | [] => []
  | (effect, forked) :: rest => .performed (.fork effect) :: .resumed (.ok (.task forked)) :: forkings rest

theorem forkings_append (pairs more : List (Effect × TaskId)) :
    forkings (pairs ++ more) = forkings pairs ++ forkings more := by
  induction pairs with
  | nil => rfl
  | cons pair rest ih => simp [forkings, ih]

/-- Tasks that a computation forked one after another are those of the effects, and no two of them are the same. -/
theorem Runs.offspring_of_forkings (runs : Runs machine first trace system)
    (hfork : machine.registry.hasHandlers Kind.fork = false) (hcalm : .noticed ∉ deeds trace task) {number : Nat}
    {path later : List Act} {pairs : List (Effect × TaskId)}
    (hstrides : strides (life (deeds trace task) number) = path ++ forkings pairs ++ later) :
    (∀ pair ∈ pairs, Offspring machine trace system pair.1 pair.2) ∧ (pairs.map Prod.snd).Nodup := by
  induction pairs using List.reverseRecOn generalizing trace system later with
  | nil => simp
  | append_singleton pairs pair ih =>
      obtain ⟨effect, forked⟩ := pair
      rw [forkings_append, ← List.append_assoc, List.append_assoc] at hstrides
      obtain ⟨hearlier, hdistinct⟩ := ih runs hcalm hstrides
      rcases runs.fork_of_strides hfork hcalm hstrides with ⟨error, herror⟩ |
        ⟨own, earlier, seen, hown, before, hquiet, hbefore, hnew, hoffspring⟩
      · cases herror
      · cases hown
        refine ⟨List.forall_mem_append.2 ⟨hearlier, List.forall_mem_singleton.2 hoffspring⟩, ?_⟩
        rw [List.map_append, List.nodup_append]
        refine ⟨hdistinct, by simp, fun other hother last hlast hsame => ?_⟩
        -- when the last one was forked, the others were there
        obtain ⟨older, holder, rfl⟩ := List.mem_map.1 hother
        obtain ⟨-, activity, hactivity, -⟩ := (ih before hquiet ((hbefore).trans (List.append_nil _).symm)).1 older holder
        rw [hsame, List.mem_singleton.1 hlast, hnew] at hactivity
        cases hactivity

end EffectMachine
