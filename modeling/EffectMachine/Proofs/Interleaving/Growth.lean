import EffectMachine.Proofs.Acts.Adequacy
import EffectMachine.System

/-!
# How hosts grow

While processes run, new ones are started, and those that there are may be asked to cancel; what a process
is doing is noted only when it stops running.

* `Host.Grows` is what the acts of one process do to a host; `Run.Does.grows` and `Run.Chain.grows` show it.
* `Host.Later` is what any number of moves of a system do to a host: a process that has ended keeps its
  report, and one that was asked to cancel stays so.
-/

namespace EffectMachine

/-- The stack that a process drives, if it drives one. -/
def Activity.stack? : Activity → Option Stack
  | .task stack | .run stack _ => some stack
  | _ => none

namespace Host

/-- What is reported of a process depends on what it is doing. -/
theorem report?_eq {process other : Process} (hactivity : other.activity = process.activity) :
    other.report? = process.report? := by
  rw [Process.report?, Process.report?, hactivity]

/-- What the acts of one process do to a host. -/
structure Grows (host later : Host) : Prop where
  /-- Processes are doing what they did, and those that were asked to cancel stay so. -/
  kept : ∀ {index : Nat} {process : Process}, host.processes[index]? = some process →
    ∃ after, later.processes[index]? = some after ∧ after.activity = process.activity ∧
      (process.canceled = true → after.canceled = true)
  /-- New processes have not begun. -/
  new : ∀ {index : Nat} {process : Process}, later.processes[index]? = some process →
    host.processes.length ≤ index → process.activity.stack? = none
  scheduled : later.scheduled = host.scheduled

/-- A host at some later time. -/
structure Later (host later : Host) : Prop where
  reports : ∀ {task : TaskId} {report : Report}, host.report? task = some report →
    later.report? task = some report
  canceled : ∀ {task : TaskId}, host.isCanceled task = true → later.isCanceled task = true
  scheduled : later.scheduled = host.scheduled

namespace Grows

variable {host next later : Host}

/-- Nothing happens to the processes. -/
theorem of_processes (hprocesses : later.processes = host.processes)
    (hscheduled : later.scheduled = host.scheduled) : host.Grows later where
  kept := fun hprocess => ⟨_, hprocesses ▸ hprocess, rfl, id⟩
  new := by
    intro index process hprocess hlength
    have hless := (List.getElem?_eq_some_iff.1 hprocess).1
    rw [hprocesses] at hless
    omega
  scheduled := hscheduled

theorem refl (host : Host) : host.Grows host :=
  of_processes rfl rfl

theorem trans (hfirst : host.Grows next) (hsecond : next.Grows later) : host.Grows later where
  kept := by
    intro index process hprocess
    obtain ⟨middle, hmiddle, hactivity, hcanceled⟩ := hfirst.kept hprocess
    obtain ⟨after, hafter, hsame, hstill⟩ := hsecond.kept hmiddle
    exact ⟨after, hafter, hsame.trans hactivity, fun h => hstill (hcanceled h)⟩
  new := by
    intro index process hprocess hlength
    by_cases hnext : next.processes.length ≤ index
    · exact hsecond.new hprocess hnext
    · obtain ⟨after, hafter, hactivity, _⟩ :=
        hsecond.kept (List.getElem?_eq_getElem (show index < next.processes.length by omega))
      rw [hafter] at hprocess
      cases hprocess
      rw [hactivity]
      exact hfirst.new (List.getElem?_eq_getElem (show index < next.processes.length by omega)) hlength
  scheduled := hsecond.scheduled.trans hfirst.scheduled

/-- The processes change, but not what they are doing. -/
theorem of_modify (task : TaskId) (change : Process → Process)
    (hactivity : ∀ process, (change process).activity = process.activity)
    (hcanceled : ∀ process, process.canceled = true → (change process).canceled = true)
    (hprocesses : later.processes = host.processes.modify task.index change)
    (hscheduled : later.scheduled = host.scheduled) : host.Grows later where
  kept := by
    intro index process hprocess
    rw [hprocesses, List.getElem?_modify, hprocess]
    by_cases hindex : task.index = index
    · refine ⟨change process, by simp [hindex], hactivity process, hcanceled process⟩
    · exact ⟨process, by simp [hindex], rfl, id⟩
  new := by
    intro index process hprocess hlength
    have hless := (List.getElem?_eq_some_iff.1 hprocess).1
    rw [hprocesses, List.length_modify] at hless
    omega
  scheduled := hscheduled

/-- A process is started. -/
theorem spawn (host : Host) {activity : Activity} (hactivity : activity.stack? = none) :
    host.Grows (host.spawn activity).2 where
  kept := by
    intro index process hprocess
    have hless := (List.getElem?_eq_some_iff.1 hprocess).1
    refine ⟨process, ?_, rfl, id⟩
    show (host.processes ++ [({ activity } : Process)])[index]? = some process
    rw [List.getElem?_append_left hless]
    exact hprocess
  new := by
    intro index process hprocess hlength
    have hlast : (host.processes ++ [({ activity } : Process)])[index]? = some process := hprocess
    rw [List.getElem?_append_right hlength] at hlast
    have hmem := List.mem_of_getElem? hlast
    rw [List.mem_singleton.1 hmem]
    exact hactivity
  scheduled := rfl

/-- A settled slot is no matter of processes. -/
theorem settle (host : Host) (slot : Slot) (state : SlotState) : host.Grows (host.settle slot state) := by
  unfold Host.settle
  split
  · exact of_processes rfl rfl
  · exact refl host

/-- Closing slots is no matter of processes. -/
theorem close (host : Host) (slots : List Slot) : host.Grows (host.close slots) := by
  unfold Host.close
  induction slots generalizing host with
  | nil => exact refl host
  | cons slot slots ih => exact (settle host slot .closed).trans (ih _)

/-- Taking an outcome changes no activity. -/
theorem collect (host : Host) (task : TaskId) : host.Grows (host.collect task) := by
  unfold Host.collect
  split
  · exact of_modify task (fun process => { process with collected := true }) (fun _ => rfl) (fun _ h => h)
      rfl rfl
  · exact refl host

theorem collectAll (tasks : List TaskId) (host : Host) : host.Grows (tasks.foldl Host.collect host) := by
  induction tasks generalizing host with
  | nil => exact refl host
  | cons task tasks ih => exact (collect host task).trans (ih _)

/-- Asking a process to cancel changes no activity. -/
theorem cancel (host : Host) (task : TaskId) : host.Grows (host.cancel task) :=
  of_modify task (fun process => { process with canceled := true }) (fun _ => rfl) (fun _ _ => rfl) rfl rfl

/-- The journal is no matter of processes. -/
theorem of_quiet (hquiet : later.quiet = host.quiet) : host.Grows later :=
  of_processes (congrArg Host.processes hquiet :) (congrArg Host.scheduled hquiet :)

end Grows

/-- The host after the reaction to an action. -/
def reacted {α : Type} : Reaction α → Host
  | .reply host _ | .giveWay host _ | .wait host _ => host

/-- A look at tasks takes outcomes, and nothing else. -/
theorem grows_look {α : Type} (host : Host) (looked tasks : List TaskId) (answer : Option α) :
    host.Grows (reacted (host.look looked tasks answer)) := by
  cases answer with
  | none => exact .collectAll looked host
  | some answer => exact .collectAll looked host

/-- A host grows with its reactions. -/
theorem grows_react (host : Host) (action : Action) : host.Grows (reacted (host.react action)) := by
  cases action with
  | cancel task => exact .cancel host task
  | join tasks => exact host.grows_look tasks tasks _
  | firstFailure tasks => exact host.grows_look _ tasks _
  | arm delay =>
      rw [react]
      split
      · exact .of_processes rfl rfl
      · exact .refl host
  | expired timers =>
      rw [react]
      split
      · exact .of_processes rfl rfl
      · exact .refl host
  | abandon group =>
      have hremoved : host.Grows { host with batches := host.batches.remove group } :=
        .of_processes rfl rfl
      exact hremoved.trans (.close _ _)
  | answer slot outcome => exact .settle host slot _
  | receive slot =>
      rw [react]
      split
      · exact .refl host
      · exact .refl host
      · exact .refl host
  | _ => exact .of_processes rfl rfl

end Host

/-- A host grows with every act. -/
theorem Run.Does.grows {run next : Run} {act : Act} (hdoes : run.Does act next) :
    run.host.Grows next.host := by
  cases hdoes with
  | drop parent rest hbelow => exact .close _ _
  | fail error =>
      unfold Run.failTop
      split <;> exact .of_processes rfl rfl
  | answer value =>
      unfold Run.answerTop
      split <;> exact .refl _
  | fork effect hscheduled =>
      unfold Run.answerTop
      split <;> exact .spawn run.host rfl
  | act action resume host reply hrunning hreact =>
      have hgrows := run.host.grows_react action
      rcases hreact with hreact | hreact
      · rw [hreact] at hgrows
        exact hgrows
      · rw [hreact] at hgrows
        exact hgrows
  | wait action resume host occasions hrunning hreact =>
      have hgrows := run.host.grows_react action
      rw [hreact] at hgrows
      exact hgrows
  | complete outcome hrunning => exact .close _ _
  | giveUp hfinished hdue => exact .close _ _
  | vacate hroot => exact .close _ _
  | _ => exact .refl _

/-- A host grows with a sequence of acts. -/
theorem Run.Chain.grows {run final : Run} {acts : List Act} (chain : run.Chain acts final) :
    run.host.Grows final.host := by
  induction chain with
  | done run => exact .refl _
  | quiet host hquiet _ ih => exact (Host.Grows.of_quiet hquiet).trans ih
  | act hdoes _ ih => exact hdoes.grows.trans ih

namespace Host

/-- Processes keep their reports while a host grows. -/
theorem Grows.later {host later : Host} (grows : host.Grows later) : host.Later later where
  reports := by
    intro task report hreport
    unfold report? at hreport ⊢
    cases hprocess : host.processes[task.index]? with
    | none =>
        rw [hprocess] at hreport
        cases hreport
    | some process =>
        obtain ⟨after, hafter, hactivity, _⟩ := grows.kept hprocess
        rw [hprocess] at hreport
        rw [hafter]
        exact (report?_eq hactivity).trans hreport
  canceled := by
    intro task hcanceled
    unfold isCanceled at hcanceled ⊢
    cases hprocess : host.processes[task.index]? with
    | none =>
        rw [hprocess] at hcanceled
        cases hcanceled
    | some process =>
        obtain ⟨after, hafter, _, hstill⟩ := grows.kept hprocess
        rw [hprocess] at hcanceled
        rw [hafter]
        exact hstill hcanceled
  scheduled := grows.scheduled

namespace Later

variable {host next later : Host}

theorem refl (host : Host) : host.Later host :=
  ⟨id, id, rfl⟩

theorem trans (hfirst : host.Later next) (hsecond : next.Later later) : host.Later later where
  reports := fun h => hsecond.reports (hfirst.reports h)
  canceled := fun h => hsecond.canceled (hfirst.canceled h)
  scheduled := hsecond.scheduled.trans hfirst.scheduled

/-- A task that has settled stays settled, with its outcome. -/
theorem outcome? (hlater : host.Later later) {task : TaskId} {outcome : Outcome}
    (houtcome : host.outcome? task = some outcome) : later.outcome? task = some outcome := by
  obtain ⟨report, hreport, hsingle⟩ := Option.bind_eq_some_iff.1 houtcome
  exact Option.bind_eq_some_iff.2 ⟨report, hlater.reports hreport, hsingle⟩

/-- A task that has settled stays settled. -/
theorem isSettled (hlater : host.Later later) {task : TaskId} (hsettled : host.isSettled task = true) :
    later.isSettled task = true := by
  obtain ⟨outcome, houtcome⟩ := Option.isSome_iff_exists.1 hsettled
  exact Option.isSome_iff_exists.2 ⟨outcome, hlater.outcome? houtcome⟩

/-- Noting what a process is doing is no matter of reports, unless it has ended. -/
theorem park (host : Host) (task : TaskId) (activity : Activity) (hgoing : host.report? task = none) :
    host.Later (host.park task activity) where
  reports := by
    intro other report hreport
    have hother : task.index ≠ other.index := by
      intro hsame
      have hindex : task = other := by
        cases task
        cases other
        exact congrArg TaskId.mk hsame
      rw [← hindex, hgoing] at hreport
      cases hreport
    unfold report? Host.park at *
    rw [List.getElem?_modify]
    simpa [hother] using hreport
  canceled := by
    intro other hcanceled
    unfold isCanceled Host.park at *
    rw [List.getElem?_modify]
    cases hprocess : host.processes[other.index]? with
    | none =>
        rw [hprocess] at hcanceled
        cases hcanceled
    | some process =>
        rw [hprocess] at hcanceled
        by_cases hindex : task.index = other.index
        · simpa [hindex] using hcanceled
        · simpa [hindex] using hcanceled
  scheduled := rfl

/-- The schedule and the clock are no matter of processes. -/
theorem of_processes (hprocesses : later.processes = host.processes)
    (hscheduled : later.scheduled = host.scheduled) : host.Later later :=
  (Grows.of_processes hprocesses hscheduled).later

end Later
end Host
end EffectMachine
