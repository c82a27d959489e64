import EffectMachine.Proofs.Scheduling.Waits

/-!
# Who waits

A process is among those that wait as long as it is at an action that may have to wait, or gathers reports.  As soon as
it has done anything else it waits no longer.

* `Action.mayWait` and `Activity.mayWait` say of actions and processes that they may have to wait.
* `System.Patient` says that nobody else waits, and `System.Patient.step` that this stays so.
* `System.Patient.settleIn_moved`: a step of a process that need not wait is none of the schedule's business.
-/

namespace EffectMachine

/-- An action that may have to wait. -/
def Action.mayWait : Action → Bool
  | .join _ | .firstFailure _ | .expired _ | .receive _ => true
  | _ => false

/-- A computation is at an action that may have to wait. -/
def Progress.mayWait : Progress → Bool
  | .running (.act action _) => action.mayWait
  | _ => false

/-- A process is at an action that may have to wait, or waits for reports. -/
def Activity.mayWait : Activity → Bool
  | .task stack | .run stack _ => stack.top.progress.mayWait
  | .client (.evaluate _ (.act action _)) => action.mayWait
  | .gathering _ _ => true
  | _ => false

/-- Whoever waits is where it may have to wait. -/
def System.Patient (system : System) : Prop :=
  ∀ waiter ∈ system.host.schedule.waiting, ∃ activity, system.activity? waiter.process = some activity ∧
    activity.mayWait = true

variable {machine : Machine}

/-- A frame that has finished waits for nothing. -/
theorem Progress.mayWait_of_isFinished {frame : Frame} (hfinished : frame.isFinished = true) :
    frame.progress.mayWait = false := by
  unfold Frame.isFinished at hfinished
  split at hfinished
  · rename_i hprogress
    rw [hprogress]
    rfl
  · cases hfinished

theorem Host.mayWait_of_react {host later : Host} {action : Action} {occasions : List Occasion}
    (hreact : host.react action = .wait later occasions) : action.mayWait = true := by
  cases action with
  | join | firstFailure | expired | receive => rfl
  | arm =>
      simp only [react] at hreact
      split at hreact <;> cases hreact
  | _ => cases hreact

/-- A process that finds that it has to wait is where it may have to. -/
theorem Machine.mayWait_of_advance {task : TaskId} {activity next : Activity} {host after : Host} {occasions : List Occasion}
    (hadvance : machine.advance task activity host = .waits next after occasions) : next.mayWait = true := by
  have hstack {stack : Stack} (hnext : next.stack? = some stack) : stack.top.progress.mayWait = true := by
    obtain ⟨-, action, resume, hrunning, hreact⟩ := (advance_eq_waits hadvance).2 stack hnext
    rw [hrunning]
    exact Host.mayWait_of_react hreact
  have hcases := machine.advances task activity host
  rw [hadvance] at hcases
  generalize machine.advanceActs task activity host = own at hcases
  cases hcases with
  | begin | settle | submit | runEnd | done | sendOut | report | rest =>
      simp [advance, evaluate, *] at hadvance
  | step | runStep => exact hstack rfl
  | act context action resume reply later hreact =>
      rcases hreact with hreact | hreact <;> simp [advance, evaluate, hreact] at hadvance
  | wait context action resume later occasions hreact => exact Host.mayWait_of_react hreact
  | gather | await => rfl

namespace Schedule

variable {schedule : Schedule} {process : TaskId} {waiter : Waiter}

/-- Whoever waits after a process has begun to waits before, or is that process. -/
theorem mem_waiting_of_await {occasions : List Occasion} (hmem : waiter ∈ (schedule.await process occasions).waiting)
    (hother : waiter.process ≠ process) : waiter ∈ schedule.waiting := by
  unfold await at hmem
  split at hmem
  · rw [(Widens.release _ process).waiting] at hmem
    obtain ⟨earlier, hearlier, rfl⟩ := List.mem_map.1 hmem
    split at hother
    · rename_i hown
      exact absurd hown hother
    · rename_i hkept
      rw [if_neg hkept]
      exact hearlier
  · rw [(Widens.release _ process).waiting] at hmem
    rcases List.mem_append.1 hmem with hearlier | hlast
    · exact hearlier
    · rw [List.mem_singleton.1 hlast] at hother
      exact absurd rfl hother

/-- A process that does not wait has no place to leave. -/
theorem proceed_eq (hidle : ∀ waiter ∈ schedule.waiting, waiter.process ≠ process) : schedule.proceed process = schedule := by
  have hwaiting : schedule.waiting.filter (fun waiter => waiter.process ≠ process) = schedule.waiting :=
    List.filter_eq_self.2 fun waiter hmem => decide_eq_true (hidle waiter hmem)
  unfold proceed
  rw [hwaiting]

end Schedule

namespace System

variable {system next : System} {task : TaskId} {activity : Activity}

/-- What a process is doing that does not run is what was noted of it. -/
theorem activity?_of_idle (hidle : ∀ doing, system.current ≠ some (task, doing)) :
    system.activity? task = system.host.processes[task.index]?.map Process.activity := by
  cases hcurrent : system.current with
  | none => rw [activity?, parked, hcurrent]
  | some running =>
      obtain ⟨running, doing⟩ := running
      exact activity?_other hcurrent fun hsame => hidle doing (hsame ▸ hcurrent)

/-- Whoever waits after a step of a process waits before, or is that process and has just begun to. -/
theorem mem_waiting_of_settleIn {stepped : Stepped Activity} {waiter : Waiter}
    (hmem : waiter ∈ (settleIn task stepped).host.schedule.waiting) :
    (waiter.process ≠ task ∧ waiter ∈ stepped.host.schedule.waiting) ∨
      waiter.process = task ∧ ∃ next after occasions, stepped = .waits next after occasions := by
  have hproceeds {schedule : Schedule} (hmem : waiter ∈ (schedule.proceed task).waiting) :
      waiter.process ≠ task ∧ waiter ∈ schedule.waiting := by
    obtain ⟨hwaits, hother⟩ := List.mem_filter.1 hmem
    exact ⟨by simpa using hother, hwaits⟩
  cases stepped with
  | moved next after => exact .inl (hproceeds hmem)
  | gaveWay next after =>
      have hmem : waiter ∈ ((after.schedule.proceed task).giveWay task).waiting := hmem
      unfold Schedule.giveWay at hmem
      rw [(Schedule.Widens.release _ task).waiting] at hmem
      exact .inl (hproceeds hmem)
  | waits next after occasions =>
      by_cases hown : waiter.process = task
      · exact .inr ⟨hown, next, after, occasions, rfl⟩
      · exact .inl ⟨hown, Schedule.mem_waiting_of_await hmem hown⟩

namespace Patient

/-- Before anybody waits, nobody waits without need. -/
theorem of_nobody (hnobody : system.host.schedule.waiting = []) : system.Patient := by
  intro waiter hmem
  rw [hnobody] at hmem
  cases hmem

/-- It is as patient when the running process goes on, gives way or waits. -/
theorem settleIn (patient : system.Patient) (sound : system.Sound) (hcurrent : system.current = some (task, activity)) :
    (settleIn task (machine.advance task activity system.host)).Patient := by
  have hadvances := machine.advances task activity system.host
  have hleaves := (Host.LeavesOthers.advances hadvances).trans (.settleIn task _)
  intro waiter hmem
  rcases mem_waiting_of_settleIn hmem with ⟨hother, hwaits⟩ | ⟨rfl, next, after, occasions, hadvance⟩
  · have hidle (later : System) (hrunning : ∀ other doing, later.current = some (other, doing) → other = task) :
        later.activity? waiter.process = later.host.processes[waiter.process.index]?.map Process.activity :=
      activity?_of_idle fun doing hsame => hother (hrunning _ doing hsame)
    rw [hadvances.widens.waiting] at hwaits
    obtain ⟨doing, hdoing, hmayWait⟩ := patient waiter hwaits
    rw [hidle system fun other doing hsame => congrArg Prod.fst (Option.some.inj (hsame.symm.trans hcurrent))] at hdoing
    refine ⟨doing, ?_, hmayWait⟩
    rw [hidle _ fun other doing hsame => ?_]
    · exact hleaves.activities _ doing hother hdoing
    · cases hstepped : machine.advance task activity system.host with
      | moved next after =>
          rw [hstepped] at hsame
          exact (congrArg Prod.fst (Option.some.inj hsame)).symm
      | gaveWay | waits =>
          rw [hstepped] at hsame
          cases hsame
  · obtain ⟨process, hprocess, -⟩ := sound waiter.process activity hcurrent
    obtain ⟨kept, hkept, -⟩ := hadvances.grows.kept hprocess
    rw [hadvance] at hkept ⊢
    exact ⟨next, Host.activity_park_self next hkept, Machine.mayWait_of_advance hadvance⟩

/-- It is as patient when the running process ends. -/
theorem conclude {report : Report} (patient : system.Patient) (hcurrent : system.current = some (task, .ended report)) :
    System.Patient { host := System.conclude system.host task report } := by
  intro waiter hmem
  have hmem : waiter ∈ ((system.host.schedule.proceed task).announce (.ended task)).waiting := hmem
  rw [(Schedule.Widens.announce _ _).waiting] at hmem
  obtain ⟨hwaits, hother⟩ := List.mem_filter.1 hmem
  have hother : waiter.process ≠ task := by simpa using hother
  obtain ⟨doing, hdoing, hmayWait⟩ := patient waiter hwaits
  rw [activity?_of_idle fun doing hsame => hother
    (congrArg Prod.fst (Option.some.inj (hsame.symm.trans hcurrent)))] at hdoing
  exact ⟨doing, (Host.LeavesOthers.conclude system.host task report).activities _ doing hother hdoing, hmayWait⟩

/-- It is as patient when nothing runs and the next thing happens. -/
theorem idle {host : Host} (patient : System.Patient { host }) (hidle : System.idle host = some next) : next.Patient := by
  have hwaiting : next.host.schedule.waiting = host.schedule.waiting := by
    rcases idle_cases hidle with ⟨picked, schedule, rfl, hwaiting, -⟩ | ⟨-, hwaiting, -⟩
    · rw [host_resume]
      exact hwaiting
    · exact hwaiting
  intro waiter hmem
  obtain ⟨doing, hdoing, hmayWait⟩ := patient waiter (hwaiting ▸ hmem)
  refine ⟨doing, ?_, hmayWait⟩
  rw [activity?_eq (parked_idle hidle)]
  exact hdoing

/-- Nobody ever waits without need. -/
theorem step (patient : system.Patient) (sound : system.Sound) (hstep : system.step machine = some next) : next.Patient := by
  unfold System.step at hstep
  split at hstep
  · cases hstep
    exact patient.conclude (by assumption)
  · cases hstep
    exact patient.settleIn sound (by assumption)
  · rename_i hcurrent
    obtain ⟨host, current⟩ := system
    subst hcurrent
    exact patient.idle hstep

/-- A process that need not wait does not, neither before nor after its step. -/
theorem settleIn_moved {after : Host} (patient : system.Patient) (sound : system.Sound)
    (hcurrent : system.current = some (task, activity)) (hgoes : activity.mayWait = false) {next : Activity}
    (hadvance : machine.advance task activity system.host = .moved next after) :
    System.settleIn task (.moved next after) = { host := after, current := some (task, next) } := by
  have hwaiting := (machine.advances task activity system.host).widens.waiting
  rw [hadvance] at hwaiting
  have hidle : ∀ waiter ∈ after.schedule.waiting, waiter.process ≠ task := by
    rintro waiter hmem rfl
    obtain ⟨doing, hdoing, hmayWait⟩ := patient waiter (hwaiting ▸ hmem)
    rw [activity?_current sound hcurrent] at hdoing
    cases hdoing
    exact Bool.false_ne_true (hgoes.symm.trans hmayWait)
  show System.mk { after with schedule := after.schedule.proceed task } _ = _
  rw [Schedule.proceed_eq hidle]

end Patient
end System
end EffectMachine
