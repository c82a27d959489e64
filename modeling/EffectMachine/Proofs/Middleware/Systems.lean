import EffectMachine.Proofs.Middleware.Steps

/-!
# Systems behind an observer

A system behind an observer makes every step that the system without it makes, and those of the observer in between.

* `Observer.Mirrors` says how far a system behind an observer has come, and where the system without it is meanwhile.
* `Observer.Follows` is a step of the observer, and `Observer.InStep` one that both systems make, unless both stop.
* `Observer.Mirrors.step` says that every step is of these, as long as it does not depend on the observer.
-/

namespace EffectMachine

/-- No act of a run ends a process. -/
theorem Run.Chain.report?_eq {run final : Run} {acts : List Act} (chain : run.Chain acts final) (task : TaskId) :
    final.host.report? task = run.host.report? task := by
  rw [Host.report?_eq_activities, Host.report?_eq_activities, chain.activities, List.getElem?_append]
  split
  · rfl
  · rename_i hlength
    rw [List.getElem?_eq_none (Nat.le_of_not_lt hlength)]
    cases hnew : (acts.flatMap (Act.spawned run.stack.context))[task.index - run.host.activities.length]? with
    | none => rfl
    | some activity =>
        obtain ⟨act, -, hspawned⟩ := List.mem_flatMap.1 (List.mem_of_getElem? hnew)
        cases act with
        | forked effect =>
            rw [List.mem_singleton.1 hspawned]
            rfl
        | _ => cases hspawned

/-- A process that has not ended goes on by a step of its own. -/
theorem System.step_of_going (machine : Machine) (task : TaskId) {activity : Activity} (hgoing : activity.report? = none)
    (host : Host) : ({ host, current := some (task, activity) } : System).step machine =
      some (settleIn task (machine.advance task activity host)) := by
  cases activity with
  | ended => cases hgoing
  | _ => rfl

/-- A start operation is refused with the effect it wraps. -/
theorem Registry.run_validate_start_refused {registry : Registry} {effect : Effect} {error : Error} {host later : Host}
    (hrefused : host.run (registry.validate effect) = (some error, later)) :
    host.run (registry.validate (.start effect)) = (some error, later) := by
  simp only [Registry.validate, Host.run_bind, hrefused, Host.run]

/-- A start operation is checked once the effect it wraps has passed. -/
theorem Registry.run_validate_start_passed {registry : Registry} {effect : Effect} {host later : Host}
    (hpassed : host.run (registry.validate effect) = (none, later)) :
    host.run (registry.validate (.start effect)) = later.run (registry.validateOne (.start effect)) := by
  simp only [Registry.validate, Host.run_bind, hpassed]

namespace Observer

open Middleware Machine

/-- A system behind an observer, and where the system without it is meanwhile.  It is ahead by the services, and the rank
falls with every step that it does not take part in. -/
inductive Mirrors (observer : Observer) (machine : Machine) : System → System → List (TaskId × Service) → Rank → Prop
  /-- Nothing runs. -/
  | idle {watched host : Host} (halike : observer.Alike watched host) :
      Mirrors observer machine { host := watched } { host } [] (rank 0 0 0)
  /-- A process runs that has no stack. -/
  | other {watched host : Host} (task : TaskId) {activity : Activity} (hstack : activity.stack? = none)
      (halike : observer.Alike watched host) :
      Mirrors observer machine { host := watched, current := some (task, activity) }
        { host, current := some (task, activity) } [] (rank 0 0 0)
  /-- A process runs that has one. -/
  | driving {watched run : Run} {owed : List Service} {place : Rank} (task : TaskId) (driver : Driver)
      (hleads : observer.Leads machine watched run owed place) :
      Mirrors observer machine (.driving task driver watched) (.driving task driver run)
        (owed.map fun service => (task, service)) place

variable {observer : Observer} {fronted machine : Machine}

/-- A system behind an observer makes a step that the other one takes no part in, and comes closer to it. -/
def Follows (observer : Observer) (fronted machine : Machine) (watched system : System) (owed : List (TaskId × Service))
    (place : Rank) : Prop :=
  ∃ next ahead later, watched.step fronted = some next ∧ observer.Mirrors machine next system ahead later ∧
    served observer.kinds (watched.acts fronted) ++ ahead = owed ∧ later < place

/-- Two systems make a step, one of them behind an observer, or both have stopped. -/
def InStep (observer : Observer) (fronted machine : Machine) (watched system : System) : Prop :=
  (watched.step fronted = none ∧ system.step machine = none) ∨
  ∃ watchedNext next ahead later, watched.step fronted = some watchedNext ∧ system.step machine = some next ∧
    observer.Mirrors machine watchedNext next ahead later ∧
    served observer.kinds (watched.acts fronted) ++ ahead = served [] (system.acts machine)

/-! ## Reports -/

theorem report?_settled (handled : Handled) (task : TaskId) :
    (settled handled).host.report? task = handled.run.host.report? task := by
  rcases handled with ⟨after, _ | error⟩
  · rfl
  · obtain ⟨events, hrefused⟩ := after.exists_refused error
    show (after.refused error).host.report? task = _
    rw [hrefused]
    rfl

/-- Wherever an observer stands, the same processes have ended on both sides. -/
theorem Leads.report?_eq {watched run : Run} {owed : List Service} {place : Rank}
    (hleads : observer.Leads machine watched run owed place) (task : TaskId) :
    run.host.report? task = watched.host.report? task := by
  cases hleads with
  | rests hcovers hrests halike => exact halike.report? task
  | @opens run operation _ _ hcovers halike =>
      -- the other run is ahead, but no act of it ends a process
      rw [report?_settled, (machine.dispatch_chain operation 0 run).report?_eq, halike.report?]
  | closes hcovers halike => exact halike.report? task
  | passes hcovers halike hown hclosing hfinished =>
      rw [(machine.unwind_chain _ ((Frame.isFinished_absorb _ _).trans hfinished)).report?_eq]
      exact halike.report? task

/-- The same processes have ended in both systems. -/
theorem Mirrors.report?_eq {watched system : System} {owed : List (TaskId × Service)} {place : Rank}
    (mirrors : observer.Mirrors machine watched system owed place) (task : TaskId) :
    system.host.report? task = watched.host.report? task := by
  cases mirrors with
  | idle halike => exact halike.report? task
  | other _ _ halike => exact halike.report? task
  | driving _ _ hleads => exact hleads.report?_eq task

/-! ## Steps that do not depend on the observer -/

@[simp] theorem stack?_activity (driver : Driver) (stack : Stack) : (driver.activity stack).stack? = some stack := by
  cases driver <;> rfl

@[simp] theorem mayWait_activity (driver : Driver) (stack : Stack) :
    (driver.activity stack).mayWait = stack.top.progress.mayWait := by
  cases driver <;> rfl

/-- The core rules of a step of a process that drives a stack are those of the stack. -/
theorem advanceRulings_activity (fronted : Machine) (task : TaskId) (driver : Driver) {watched : Run}
    (habove : watched.stack.below ≠ []) :
    fronted.advanceRulings task (driver.activity watched.stack) watched.host = fronted.stepRulings watched := by
  obtain ⟨⟨context, signal, top, below, canceled⟩, host⟩ := watched
  cases below with
  | nil => exact absurd rfl habove
  | cons parent rest => cases driver <;> rfl

/-- What it means for a process that drives a stack that its step does not depend on middleware. -/
theorem spared_of_spares {task : TaskId} {driver : Driver} {watched : Run} (habove : watched.stack.below ≠ [])
    (hspares : spares observer.kinds fronted task (driver.activity watched.stack) watched.host = true) :
    observer.Spared fronted watched := by
  unfold spares at hspares
  rw [advanceRulings_activity fronted task driver habove] at hspares
  simp only [Bool.and_eq_true] at hspares
  obtain ⟨⟨hcalm, -⟩, hrulings⟩ := hspares
  have hdelegates : delegates observer.kinds (driver.activity watched.stack) = delegates observer.kinds (.task watched.stack) := by
    unfold delegates
    rw [stack?_activity]
    rfl
  rw [hdelegates] at hrulings
  refine ⟨?_, fun hothers => ?_, fun hdelegation => ?_⟩
  · unfold calm at hcalm
    simp only [stack?_activity, Option.all_some, Bool.or_eq_true, Bool.not_eq_true', List.any_eq_false] at hcalm
    rcases hcalm with (hnone | hcanceled) | hsignal
    · exact .inl fun frame hmem => Bool.eq_false_iff.2 (hnone frame hmem)
    · exact .inr (.inl hcanceled)
    · exact .inr (.inr hsignal)
  · rw [hothers] at hrulings
    exact List.all_eq_true.1 hrulings
  · rw [hdelegation] at hrulings
    cases hsteps : fronted.stepRulings watched with
    | nil =>
        rw [hsteps] at hrulings
        cases hrulings
    | cons ruling rulings =>
        rw [hsteps] at hrulings
        simp only [Bool.and_eq_true, decide_eq_true_eq] at hrulings
        exact ⟨ruling, rulings, rfl, hrulings.1, List.all_eq_true.1 hrulings.2⟩

/-! ## New stacks -/

/-- New stacks are where an effect can be handed on. -/
theorem Poised.of_new (context : Context) (signal : Option TaskId) {watched host : Host} (halike : observer.Alike watched host) :
    observer.Poised { stack := { context, signal }, host := watched } { stack := { context, signal }, host } where
  covers := .refl_new context signal
  alike := halike
  holds howns := absurd howns Bool.false_ne_true
  expectant := ⟨fun _ => rfl, fun _ hrunning => nomatch hrunning⟩

/-- A start operation that no plugin handles is the effect itself. -/
theorem dispatch_start (hnone : machine.registry.hasHandlers Kind.start = false) (effect : Effect) (first : Nat) (run : Run) :
    machine.dispatch (.start effect) first run = machine.dispatch effect 0 run ∧
      machine.dispatchActs (.start effect) first run = machine.dispatchActs effect 0 run :=
  machine.dispatch_eq_core (.start effect) hnone first run

/-- Handling an effect that is wrapped in a start operation for the observer only comes to what it comes to without. -/
theorem Poised.handle_start {watched run : Run} (hpoised : observer.Poised watched run) (hfronts : observer.Fronts fronted machine)
    (hnone : machine.registry.hasHandlers Kind.start = false) {effect : Effect}
    (hadmits : ∀ later, watched.host.run (fronted.registry.validate effect) = (none, later) → ∃ last,
      later.run (fronted.registry.validateOne (.start effect)) = (none, last) ∧ last.nextIdentity = later.nextIdentity)
    (hspares : ∀ ruling ∈ fronted.handleRulings (.start effect) watched, ruling.spares observer.kinds = true) :
    observer.Comes machine (fronted.handle (.start effect) watched) (machine.handle effect run)
      (fronted.handleActs (.start effect) watched) (machine.handleActs effect run)
      (rank 0 (watched.stack.height + 3 + 2 * observer.reach (.start effect) 0) 0) := by
  obtain ⟨hverdict, halike⟩ := hpoised.alike.run (fronted.registry.validate effect)
  rw [handle_eq_settled, handle_eq_settled]
  unfold attempt handleActs
  unfold handleRulings at hspares
  rw [← hfronts.validate]
  rcases hwatched : watched.host.run (fronted.registry.validate effect) with ⟨verdict, watchedLater⟩
  rcases hplain : run.host.run (fronted.registry.validate effect) with ⟨plainVerdict, later⟩
  rw [hwatched, hplain] at hverdict halike
  obtain rfl : verdict = plainVerdict := hverdict.symm
  cases verdict with
  | some error =>
      obtain ⟨place, hleads, hplace⟩ := (hpoised.withHost halike).refused machine error
      rw [Registry.run_validate_start_refused hwatched]
      exact .of_leads hleads rfl (hplace.trans_le (rank_le (by show watched.stack.height + 1 ≤ _; omega) 0))
  | none =>
      -- the check of the start operation itself does not count
      obtain ⟨last, hlast, hidentity⟩ := hadmits watchedLater hwatched
      have hquiet := watchedLater.quiet_run (fronted.registry.validateOne (.start effect))
      rw [hlast] at hquiet
      rw [Registry.run_validate_start_passed hwatched, hlast] at hspares ⊢
      obtain ⟨ahead, place, hleads, hservices, hplace⟩ := observer.dispatches hfronts (.start effect) 0 _ _
        (hpoised.withHost (halike.quiet_left hquiet hidentity)) hspares
      obtain ⟨hdispatch, hacts⟩ := dispatch_start hnone effect (0 - observer.kinds.count (Effect.start effect).kind)
        { run with host := later }
      rw [hdispatch] at hleads
      rw [hacts] at hservices
      refine ⟨ahead, place, hleads, ?_, hplace⟩
      simpa only [services_append, services_failureActs, List.append_nil] using hservices

/-- A submission that is wrapped for the observer only may pass when it may without. -/
theorem exists_of_admits (hfronts : observer.Fronts fronted machine) (hnone : machine.registry.hasHandlers Kind.start = false)
    (hkind : Kind.start ∈ observer.kinds) {context : Context} {effect : Effect} {resume : Outcome → Body} {host later : Host}
    (hadmits : admits observer.kinds fronted.registry (.client (.evaluate context (.perform effect resume))) host = true)
    (hpasses : host.run (fronted.registry.validate effect) = (none, later)) : ∃ last,
      later.run (fronted.registry.validateOne (.start effect)) = (none, last) ∧ last.nextIdentity = later.nextIdentity := by
  have hlength : (fronted.registry.handlersOf Kind.start).length = observer.kinds.count Kind.start := by
    have hempty : machine.registry.handlersOf Kind.start = [] := by simpa [Registry.hasHandlers] using hnone
    rw [hfronts.handlersOf, hempty, List.append_nil, List.length_replicate]
  have hcontains : observer.kinds.contains Kind.start = true := List.contains_iff_mem.2 hkind
  unfold admits at hadmits
  simp only [hcontains, hlength, hpasses, Nat.lt_irrefl, decide_false, Bool.not_true, Bool.false_or, Bool.and_eq_true,
    Option.isNone_iff_eq_none, decide_eq_true_eq] at hadmits
  exact ⟨_, Prod.ext hadmits.1 rfl, hadmits.2⟩

/-- Submitting an effect behind an observer comes to what it comes to without. -/
theorem Poised.submit {watched run : Run} (hpoised : observer.Poised watched run) (hfronts : observer.Fronts fronted machine)
    {context : Context} {effect : Effect} {resume : Outcome → Body}
    (hadmits : admits observer.kinds fronted.registry (.client (.evaluate context (.perform effect resume))) watched.host = true)
    (hspares : ∀ ruling ∈ fronted.handleRulings (fronted.submission effect) watched, ruling.spares observer.kinds = true) :
    ∃ bound, observer.Comes machine (fronted.handle (fronted.submission effect) watched)
      (machine.handle (machine.submission effect) run) (fronted.handleActs (fronted.submission effect) watched)
      (machine.handleActs (machine.submission effect) run) bound := by
  by_cases hwrapped : fronted.registry.hasHandlers Kind.start = machine.registry.hasHandlers Kind.start
  · have hsame : fronted.submission effect = machine.submission effect := by
      unfold submission
      rw [hwrapped]
    rw [hsame] at hspares ⊢
    exact ⟨_, hpoised.handle hfronts _ hspares⟩
  · -- only the observer handles start operations
    have hkind : Kind.start ∈ observer.kinds :=
      Decidable.byContradiction fun hnot => hwrapped (hfronts.hasHandlers_of_not_mem hnot)
    have hfrontedHas : fronted.registry.hasHandlers Kind.start = true := by
      have hpositive : observer.kinds.count Kind.start ≠ 0 := fun hzero => List.count_eq_zero.1 hzero hkind
      unfold Registry.hasHandlers
      rw [hfronts.handlersOf]
      simp [hpositive]
    have hnone : machine.registry.hasHandlers Kind.start = false :=
      Bool.eq_false_iff.2 fun hhas => hwrapped (hfrontedHas.trans hhas.symm)
    have hstart : fronted.submission effect = .start effect := if_pos hfrontedHas
    have hplain : machine.submission effect = effect := by
      unfold submission
      rw [hnone]
      rfl
    rw [hstart] at hspares ⊢
    rw [hplain]
    exact ⟨_, hpoised.handle_start hfronts hnone (fun later hpasses => exists_of_admits hfronts hnone hkind hadmits hpasses) hspares⟩

/-! ## Steps that both systems make -/

/-- The same step of a process, behind an observer and without. -/
inductive SameStepped (observer : Observer) : Stepped Activity → Stepped Activity → Prop
  | moved {earlier later : Activity} {watched host : Host} (hsame : observer.SameActivity earlier later)
      (halike : observer.Alike watched host) : SameStepped observer (.moved earlier watched) (.moved later host)
  | gaveWay {earlier later : Activity} {watched host : Host} (hsame : observer.SameActivity earlier later)
      (halike : observer.Alike watched host) : SameStepped observer (.gaveWay earlier watched) (.gaveWay later host)
  | waits {earlier later : Activity} {watched host : Host} (hsame : observer.SameActivity earlier later)
      (halike : observer.Alike watched host) (occasions : List Occasion) :
      SameStepped observer (.waits earlier watched occasions) (.waits later host occasions)

theorem SameActivity.mirrors (machine : Machine) (task : TaskId) {earlier later : Activity} {watched host : Host}
    (hsame : observer.SameActivity earlier later) (halike : observer.Alike watched host) :
    observer.Mirrors machine { host := watched, current := some (task, earlier) } { host, current := some (task, later) } []
      (rank 0 0 0) := by
  cases hsame with
  | @driving watchedStack stack driver hcovers hrests =>
      have hleads : observer.Leads machine ⟨watchedStack, watched⟩ ⟨stack, host⟩ [] (rank 0 0 0) :=
        .rests hcovers hrests halike
      exact .driving task driver hleads
  | other _ hstack => exact .other task hstack halike

theorem SameStepped.mirrors (machine : Machine) (task : TaskId) {watched stepped : Stepped Activity}
    (hsame : observer.SameStepped watched stepped) :
    observer.Mirrors machine (System.settleIn task watched) (System.settleIn task stepped) [] (rank 0 0 0) := by
  cases hsame with
  | moved hsame halike => exact hsame.mirrors machine task (halike.reschedule (Schedule.proceed · task))
  | gaveWay hsame halike =>
      exact .idle ((halike.park task hsame).reschedule fun schedule => (schedule.proceed task).giveWay task)
  | waits hsame halike occasions =>
      exact .idle ((halike.park task hsame).reschedule (Schedule.await · task occasions))

/-- Both systems pick the same process. -/
theorem Alike.resume (machine : Machine) {watched host : Host} (halike : observer.Alike watched host) (task : TaskId) :
    observer.Mirrors machine (System.resume watched task) (System.resume host task) [] (rank 0 0 0) := by
  have hsame := halike.processes task.index
  unfold System.resume
  revert hsame
  generalize watched.processes[task.index]? = watchedProcess
  generalize host.processes[task.index]? = process
  intro hsame
  cases hsame with
  | none => exact .idle halike
  | @some earlier later hprocess =>
      obtain ⟨watchedActivity, _, _⟩ := earlier
      obtain ⟨activity, _, _⟩ := later
      have hactivity : observer.SameActivity watchedActivity activity := hprocess.activity
      have hmirrors := hactivity.mirrors machine task halike
      simp only [Option.map_some, Option.getD_some]
      cases hactivity with
      | driving driver hcovers hrests => cases driver <;> exact hmirrors
      | other _ hstack =>
          split
          · exact .idle halike
          · exact hmirrors

/-- When nothing runs, the same happens next in both systems. -/
theorem Alike.idle (fronted machine : Machine) {watched host : Host} (halike : observer.Alike watched host) :
    observer.InStep fronted machine { host := watched } { host } := by
  have hstep (machine : Machine) (host : Host) : ({ host } : System).step machine = System.idle host := rfl
  unfold InStep
  rw [hstep, hstep]
  unfold System.idle
  rw [halike.schedule]
  cases watched.schedule.next? with
  | some picked =>
      exact .inr ⟨_, _, [], _, rfl, rfl, (halike.withSchedule picked.2).resume machine picked.1, rfl⟩
  | none =>
      rw [halike.timers]
      cases watched.timers.advance? with
      | none => exact .inl ⟨rfl, rfl⟩
      | some advance =>
          -- nobody can go on before the next timers expire
          have hannounced (due : List TimerId) {watched host : Host} (halike : observer.Alike watched host) :
              observer.Alike (due.foldl (fun host timer => host.announce (.expired timer)) watched)
                (due.foldl (fun host timer => host.announce (.expired timer)) host) := by
            induction due generalizing watched host with
            | nil => exact halike
            | cons timer due ih => exact ih (halike.announce (.expired timer))
          have hletIn : observer.Alike { watched with timers := advance.2, schedule := watched.schedule.letIn }
              { host with timers := advance.2, schedule := watched.schedule.letIn } :=
            (halike.withTimers advance.2).withSchedule watched.schedule.letIn
          exact .inr ⟨_, _, [], _, rfl, rfl, .idle (hannounced advance.1 hletIn), rfl⟩

/-- Both hosts get the same new clients. -/
theorem Alike.sendOut {watched host : Host} (halike : observer.Alike watched host) (errands : List Errand) :
    (Machine.sendOut host errands).1 = (Machine.sendOut watched errands).1 ∧
      observer.Alike (Machine.sendOut watched errands).2 (Machine.sendOut host errands).2 := by
  induction errands generalizing watched host with
  | nil => exact ⟨rfl, halike⟩
  | cons errand rest ih =>
      have hstack : (Activity.client errand).stack? = none := rfl
      obtain ⟨htask, hspawned⟩ := halike.spawn hstack
      obtain ⟨htasks, hsent⟩ := ih hspawned
      exact ⟨congrArg₂ List.cons htask htasks, hsent⟩

/-- A process that ends does so in both systems. -/
theorem Alike.conclude (machine : Machine) {watched host : Host} (halike : observer.Alike watched host) (task : TaskId)
    (report : Report) : observer.Mirrors machine { host := System.conclude watched task report }
      { host := System.conclude host task report } [] (rank 0 0 0) := by
  have hsame : observer.SameActivity (.ended report) (.ended report) := .other _ rfl
  exact .idle (((halike.park task hsame).reschedule (Schedule.proceed · task)).announce (.ended task))

section Other

variable {watched host : Host} {task : TaskId} {activity : Activity}

/-- A process goes on by the same step in both systems. -/
theorem inStep_of_same {later : Activity} (hgoing : activity.report? = none) (hlater : later.report? = none)
    (hsame : observer.SameStepped (fronted.advance task activity watched) (machine.advance task later host))
    (hacts : services observer.kinds (fronted.advanceActs task activity watched) =
      services [] (machine.advanceActs task later host)) :
    observer.InStep fronted machine { host := watched, current := some (task, activity) }
      { host, current := some (task, later) } := by
  refine .inr ⟨_, _, [], _, System.step_of_going fronted task hgoing watched, System.step_of_going machine task hlater host,
    hsame.mirrors machine task, ?_⟩
  rw [List.append_nil]
  show served observer.kinds (List.map _ _) = served [] (List.map _ _)
  rw [served_own, served_own, hacts]

variable (patient : ({ host := watched, current := some (task, activity) } : System).Patient)
  (sound : ({ host := watched, current := some (task, activity) } : System).Sound)
  (plainPatient : ({ host, current := some (task, activity) } : System).Patient)
  (plainSound : ({ host, current := some (task, activity) } : System).Sound)

include patient sound plainPatient plainSound

/-- A process begins with a stack in both systems. -/
theorem inStep_of_comes (hgoing : activity.report? = none) (hgoes : activity.mayWait = false) (driver : Driver)
    {watchedRun run : Run} {bound : Rank}
    (comes : observer.Comes machine watchedRun run (fronted.advanceActs task activity watched)
      (machine.advanceActs task activity host) bound)
    (hwatched : fronted.advance task activity watched = .moved (driver.activity watchedRun.stack) watchedRun.host)
    (hrun : machine.advance task activity host = .moved (driver.activity run.stack) run.host) :
    observer.InStep fronted machine { host := watched, current := some (task, activity) }
      { host, current := some (task, activity) } := by
  obtain ⟨ahead, place, hleads, hservices, -⟩ := comes
  have hwatchedStep := System.step_of_going fronted task hgoing watched
  have hstep := System.step_of_going machine task hgoing host
  rw [hwatched, patient.settleIn_moved sound rfl hgoes hwatched] at hwatchedStep
  rw [hrun, plainPatient.settleIn_moved plainSound rfl hgoes hrun] at hstep
  refine .inr ⟨_, _, _, _, hwatchedStep, hstep, .driving task driver hleads, ?_⟩
  show served observer.kinds (List.map _ _) ++ _ = served [] (List.map _ _)
  rw [served_own, served_own, ← List.map_append, hservices]

/-- A process that has no stack makes its step in both systems. -/
theorem inStep_of_other (hfronts : observer.Fronts fronted machine) (halike : observer.Alike watched host)
    (hstack : activity.stack? = none) (hspares : spares observer.kinds fronted task activity watched = true) :
    observer.InStep fronted machine { host := watched, current := some (task, activity) }
      { host, current := some (task, activity) } := by
  have hother : delegates observer.kinds activity = false := by simp [delegates, hstack]
  unfold spares at hspares
  rw [hother] at hspares
  simp only [Bool.and_eq_true, List.all_eq_true] at hspares
  obtain ⟨⟨-, hadmits⟩, hrulings⟩ := hspares
  cases activity with
  | task | run => cases hstack
  | ended report => exact .inr ⟨_, _, [], _, rfl, rfl, halike.conclude machine task report, rfl⟩
  | forked context effect =>
      exact inStep_of_comes patient sound plainPatient plainSound rfl rfl .task
        ((Poised.of_new context (some task) halike).handle hfronts effect hrulings) rfl rfl
  | gathering reports awaited =>
      refine inStep_of_same rfl rfl ?_ rfl
      cases awaited with
      | nil => exact .moved (.other _ rfl) halike
      | cons awaited rest =>
          simp only [advance, halike.report?]
          cases watched.report? awaited with
          | some report => exact .moved (.other _ rfl) halike
          | none => exact .waits (.other _ rfl) halike _
  | client errand =>
      cases errand with
      | join errands =>
          obtain ⟨htasks, hsent⟩ := halike.sendOut errands
          refine inStep_of_same rfl rfl ?_ rfl
          simp only [advance, htasks]
          exact .moved (.other _ rfl) hsent
      | evaluate context body =>
          cases body with
          | done outcome =>
              refine inStep_of_same rfl rfl ?_ rfl
              exact .moved (.other _ rfl) halike
          | perform effect resume =>
              obtain ⟨bound, comes⟩ := (Poised.of_new context none halike).submit hfronts hadmits hrulings
              exact inStep_of_comes patient sound plainPatient plainSound rfl rfl (.client resume) comes rfl rfl
          | act action resume =>
              refine inStep_of_same rfl rfl ?_ rfl
              have hreacts := halike.react action
              simp only [advance, evaluate]
              revert hreacts
              generalize watched.react action = watchedReaction
              generalize host.react action = reaction
              intro hreacts
              cases hreacts with
              | reply hlater reply => exact .moved (.other _ rfl) hlater
              | giveWay hlater reply => exact .gaveWay (.other _ rfl) hlater
              | wait hlater occasions => exact .waits (.other _ rfl) hlater occasions

end Other

/-! ## Stacks -/

/-- A covered stack has the same outcome. -/
theorem Covers.outcome_eq {watched stack : Stack} (hcovers : observer.Covers watched stack)
    (hother : owns observer.kinds watched.top = false) : stack.outcome = watched.outcome := by
  unfold Stack.outcome
  rw [hcovers.canceled, (hcovers.top_and_below hother).1]
  rfl

/-- While an observer is at work, there are frames below. -/
theorem Leads.rests_of_sentinel {watched run : Run} {owed : List Service} {place : Rank}
    (hleads : observer.Leads machine watched run owed place) (hbelow : watched.stack.below = []) :
    owed = [] ∧ observer.Covers watched.stack run.stack ∧ observer.Rests watched.stack ∧
      observer.Alike watched.host run.host := by
  cases hleads with
  | rests hcovers hrests halike => exact ⟨rfl, hcovers, hrests, halike⟩
  | opens hcovers _ hown => exact absurd hbelow (hcovers.below_ne_nil hown.owns)
  | closes hcovers _ hown => exact absurd hbelow (hcovers.below_ne_nil hown.owns)
  | passes hcovers _ hown => exact absurd hbelow (hcovers.below_ne_nil hown.owns)

/-- A process whose stack is down to its sentinel goes on with the same outcome in both systems. -/
theorem inStep_of_sentinel {watched run : Run} (hcovers : observer.Covers watched.stack run.stack)
    (hrests : observer.Rests watched.stack) (halike : observer.Alike watched.host run.host) (task : TaskId) (driver : Driver)
    (hbelow : watched.stack.below = []) :
    observer.InStep fronted machine (.driving task driver watched) (.driving task driver run) := by
  have hempty := (hcovers.below_eq_nil_iff hrests.other).2 hbelow
  have houtcome := hcovers.outcome_eq hrests.other
  have hcontext := hcovers.context
  obtain ⟨⟨_, _, _, _, _⟩, watchedHost⟩ := watched
  obtain ⟨⟨_, _, _, _, _⟩, host⟩ := run
  subst hbelow hempty hcontext
  refine inStep_of_same (driver.going _) (driver.going _) ?_ (by cases driver <;> rfl)
  cases driver with
  | task =>
      simp only [Driver.activity, advance, houtcome]
      exact .moved (.other _ rfl) halike
  | client resume =>
      simp only [Driver.activity, advance, houtcome]
      exact .moved (.other _ rfl) halike

/-- A process that drives a stack goes on at once, if it need not wait. -/
theorem step_driving_of_moved {run next : Run} {task : TaskId} {driver : Driver}
    (patient : (System.driving task driver run).Patient) (sound : (System.driving task driver run).Sound)
    (habove : run.stack.below ≠ []) (hgoes : run.stack.top.progress.mayWait = false)
    (hstep : machine.step run = moved next) :
    (System.driving task driver run).step machine = some (.driving task driver next) := by
  have hadvance := (driver.advance_eq machine task habove).1
  have hsystem := (System.step_driving machine task driver habove).1
  rw [hstep] at hadvance hsystem
  rw [hsystem]
  exact congrArg some (patient.settleIn_moved sound rfl ((mayWait_activity driver run.stack).trans hgoes) hadvance)

section Driving

variable {watched run : Run} {task : TaskId} {driver : Driver}
variable (patient : (System.driving task driver watched).Patient) (sound : (System.driving task driver watched).Sound)

include patient sound

/-- A process takes a step of the observer. -/
theorem Approaches.follows {owed : List Service} {place : Rank} (habove : watched.stack.below ≠ [])
    (hgoes : watched.stack.top.progress.mayWait = false) (happroaches : observer.Approaches fronted machine watched run owed place) :
    observer.Follows fronted machine (.driving task driver watched) (.driving task driver run)
      (owed.map fun service => (task, service)) place := by
  obtain ⟨next, ahead, later, hstep, hleads, hservices, hless⟩ := happroaches
  refine ⟨_, _, later, step_driving_of_moved patient sound habove hgoes hstep, .driving task driver hleads, ?_, hless⟩
  rw [(System.step_driving fronted task driver habove).2, served_own, ← List.map_append, hservices]

variable (plainPatient : (System.driving task driver run).Patient) (plainSound : (System.driving task driver run).Sound)

include plainPatient plainSound

/-- A process takes a step in both systems. -/
theorem Together.inStep {ahead : List Service} (habove : watched.stack.below ≠ []) (hplain : run.stack.below ≠ [])
    (hgoes : run.stack.top.progress.mayWait = watched.stack.top.progress.mayWait)
    (htogether : observer.Together machine watched.stack.top.progress.mayWait (fronted.step watched) (machine.step run) ahead)
    (hservices : services observer.kinds (fronted.stepActs watched) ++ ahead = services [] (machine.stepActs run)) :
    observer.InStep fronted machine (.driving task driver watched) (.driving task driver run) := by
  obtain ⟨hwatchedStep, hwatchedActs⟩ := System.step_driving fronted task driver habove
  obtain ⟨hstep, hacts⟩ := System.step_driving machine task driver hplain
  have hserved : served observer.kinds ((System.driving task driver watched).acts fronted) ++
      ahead.map (fun service => (task, service)) = served [] ((System.driving task driver run).acts machine) := by
    rw [hwatchedActs, hacts, served_own, served_own, ← List.map_append, hservices]
  have hsettles {earlier later : Stepped Stack} (hwatched : fronted.step watched = earlier) (hrun : machine.step run = later)
      (hnone : ahead = []) (hsame : observer.SameStepped (earlier.map driver.activity) (later.map driver.activity)) :
      observer.InStep fronted machine (.driving task driver watched) (.driving task driver run) := by
    subst hwatched hrun hnone
    exact .inr ⟨_, _, [], _, hwatchedStep, hstep, hsame.mirrors machine task, hserved⟩
  -- where the observer may be at work afterwards, neither process has to wait
  generalize hmayWait : watched.stack.top.progress.mayWait = mayWait at htogether
  generalize hwatched : fronted.step watched = earlier at htogether
  generalize hrun : machine.step run = later at htogether
  cases htogether with
  | moved hleads =>
      exact .inr ⟨_, _, _, _, step_driving_of_moved patient sound habove hmayWait hwatched,
        step_driving_of_moved plainPatient plainSound hplain (hgoes.trans hmayWait) hrun, .driving task driver hleads, hserved⟩
  | replied hcovers hrests halike => exact hsettles hwatched hrun rfl (.moved (.driving driver hcovers hrests) halike)
  | gaveWay hcovers hrests halike => exact hsettles hwatched hrun rfl (.gaveWay (.driving driver hcovers hrests) halike)
  | waits hcovers hrests halike occasions =>
      exact hsettles hwatched hrun rfl (.waits (.driving driver hcovers hrests) halike occasions)

end Driving

/-- A step behind an observer is one of the observer, or one that both systems make. -/
theorem Mirrors.step (hfronts : observer.Fronts fronted machine) {watched system : System} {owed : List (TaskId × Service)}
    {place : Rank} (mirrors : observer.Mirrors machine watched system owed place) (patient : watched.Patient)
    (sound : watched.Sound) (plainPatient : system.Patient) (plainSound : system.Sound)
    (hspares : sparesNext observer.kinds fronted watched = true) :
    observer.Follows fronted machine watched system owed place ∨ owed = [] ∧ observer.InStep fronted machine watched system := by
  cases mirrors with
  | idle halike => exact .inr ⟨rfl, halike.idle fronted machine⟩
  | other task hstack halike =>
      exact .inr ⟨rfl, inStep_of_other patient sound plainPatient plainSound hfronts halike hstack hspares⟩
  | @driving watched run owed _ task driver hleads =>
      by_cases hbelow : watched.stack.below = []
      · obtain ⟨rfl, hcovers, hrests, halike⟩ := hleads.rests_of_sentinel hbelow
        exact .inr ⟨rfl, inStep_of_sentinel hcovers hrests halike task driver hbelow⟩
      · rcases hleads.step hfronts hbelow (spared_of_spares hbelow hspares) with
          ⟨hgoes, happroaches⟩ | ⟨rfl, hplain, hgoes, ahead, htogether, hservices⟩
        · exact .inl (happroaches.follows patient sound hbelow hgoes)
        · exact .inr ⟨rfl, htogether.inStep patient sound plainPatient plainSound hbelow hplain hgoes hservices⟩

end Observer
end EffectMachine
