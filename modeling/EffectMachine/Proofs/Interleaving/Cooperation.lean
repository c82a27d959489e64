import EffectMachine.Proofs.Interleaving.Careers
import EffectMachine.Proofs.Interleaving.Execution
import EffectMachine.Proofs.Interleaving.Ledgers
import EffectMachine.Proofs.Interleaving.Places

/-!
# Cooperation

A running process is not stopped while it can go on: it stops when it waits, gives up its turn or ends.  Other than
that, processes take turns in any order.  Then nobody is forgotten: a process that is stopped has another turn coming,
or waits for something that has not happened yet.

* `Cooperates` are the moves of a system in which no running process is stopped.
* `Host.Attends` says that a process has another turn coming or waits; what it waits for has not happened
  (`Host.Awaits`).
* `System.Attended` says that nobody is forgotten, and `Cooperates.attended` that this stays so.
* `System.Attended.awaits` is what follows when nothing is left to happen.
-/

namespace EffectMachine

/-- Any number of moves of a system in which no running process is stopped, with all acts on the way. -/
inductive Cooperates (machine : Machine) (system : System) : Trace → System → Prop
  | start : Cooperates machine system [] system
  | step {trace : Trace} {middle next : System} (cooperates : Cooperates machine system trace middle)
      (hstep : middle.step machine = some next) : Cooperates machine system (trace ++ middle.acts machine) next
  | pick {trace : Trace} {host : Host} (cooperates : Cooperates machine system trace { host }) (task : TaskId) :
      Cooperates machine system trace (System.resume host task)
  | elapse {trace : Trace} {host : Host} (cooperates : Cooperates machine system trace { host }) (due : List TimerId)
      (timers : Timers) (hadvance : host.timers.advance? = some (due, timers)) :
      Cooperates machine system trace { host := { host with timers } }

variable {machine : Machine} {system final : System} {trace : Trace}

/-- Cooperation is one way for a system to proceed. -/
theorem Cooperates.proceeds (cooperates : Cooperates machine system trace final) :
    Proceeds machine system trace final := by
  induction cooperates with
  | start => exact .start
  | step _ hstep ih => exact .move ih (.step hstep)
  | pick _ task ih => simpa using Proceeds.move ih (.pick _ task)
  | elapse _ due timers hadvance ih => simpa using Proceeds.move ih (.elapse _ due timers hadvance)

/-- The steps that a schedule has are cooperative. -/
theorem Cooperates.execute {middle : System} (cooperates : Cooperates machine system trace middle) (steps : Nat) :
    Cooperates machine system (trace ++ (middle.execute machine steps).1) (middle.execute machine steps).2 := by
  induction steps generalizing trace middle with
  | zero =>
      rw [System.execute, List.append_nil]
      exact cooperates
  | succ steps ih =>
      unfold System.execute
      cases hstep : middle.step machine with
      | none =>
          rw [List.append_nil]
          exact cooperates
      | some next =>
          have hnext := ih (.step cooperates hstep)
          rw [List.append_assoc] at hnext
          exact hnext

/-- What a system does with an effect that its client submits is cooperative. -/
theorem Cooperates.submitted (machine : Machine) (context : Context) (effect : Effect) (steps : Nat) :
    Cooperates machine { host := System.clients context [.perform effect .done] }
      ((System.submitting context effect).execute machine steps).1
      ((System.submitting context effect).execute machine steps).2 :=
  (Cooperates.start.pick ⟨0⟩).execute steps

/-! ## Outcomes that are not there yet -/

/-- What is reported of a process, by what it is doing. -/
def Activity.report? : Activity → Option Report
  | .ended report => some report
  | _ => none

theorem Host.report?_eq_activities (host : Host) (task : TaskId) :
    host.report? task = host.activities[task.index]?.bind Activity.report? := by
  unfold Host.report? Host.activities
  rw [List.getElem?_map]
  cases host.processes[task.index]? with
  | none => rfl
  | some process =>
      show process.report? = process.activity.report?
      unfold Process.report?
      cases process.activity <;> rfl

/-- A step of a process reports nothing of any, before it is noted how the process goes on. -/
theorem Machine.Advances.report?_eq {task : TaskId} {host after : Host} {activity next : Activity} {acts : List Act}
    (hadvances : machine.Advances task host activity acts next after) (other : TaskId) :
    after.report? other = host.report? other := by
  obtain ⟨added, hactivities, hadds⟩ := hadvances.activities
  rw [Host.report?_eq_activities, Host.report?_eq_activities, hactivities, List.getElem?_append]
  split
  · rfl
  · rename_i hlength
    rw [List.getElem?_eq_none (Nat.le_of_not_lt hlength)]
    cases hnew : added[other.index - host.activities.length]? with
    | none => rfl
    | some activity =>
        cases hadds activity (List.mem_of_getElem? hnew) with
        | forked | sentOut => rfl

/-- Noting that a process goes on ends no other one, nor itself. -/
theorem Host.outcome?_park {host : Host} {task other : TaskId} {activity : Activity}
    (hgoing : task = other → activity.report? = none) (hother : host.outcome? other = none) :
    (host.park task activity).outcome? other = none := by
  unfold Host.outcome? at hother ⊢
  rw [Host.report?_eq_activities] at hother ⊢
  rw [Host.activities_park, List.getElem?_set]
  split
  · rename_i hindex
    split
    · rw [Option.bind_some, hgoing (by cases task; cases other; exact congrArg TaskId.mk hindex)]
      rfl
    · rfl
  · exact hother

/-! ## Waiting -/

/-- A process waits for tasks: one of them has not settled, and the end of any wakes the process. -/
structure Host.AwaitsEnds (host : Host) (task : TaskId) (tasks : List TaskId) : Prop where
  unsettled : ∃ other ∈ tasks, host.outcome? other = none
  woken : ∃ waiter ∈ host.schedule.waiting, waiter.process = task ∧ waiter.occasions = tasks.map .ended

/-- A process waits as an action does. -/
inductive Host.Awaits (host : Host) (task : TaskId) : Action → Prop
  | join {tasks : List TaskId} (hends : host.AwaitsEnds task tasks) : Awaits host task (.join tasks)
  | firstFailure {tasks : List TaskId} (hends : host.AwaitsEnds task tasks) : Awaits host task (.firstFailure tasks)
  | expired (timers : List TimerId) : Awaits host task (.expired timers)
  | receive (slot : Slot) : Awaits host task (.receive slot)

/-- A process that is stopped has another turn coming, or waits. -/
inductive Host.Attends (host : Host) (task : TaskId) (stack : Stack) : Prop
  | ready (hready : task ∈ host.schedule.ready)
  | yielded (hyielded : task ∈ host.schedule.yielded)
  | waiting {action : Action} {resume : action.Reply → Body} (habove : stack.below ≠ [])
      (hrunning : stack.top.progress = .running (.act action resume)) (hawaits : host.Awaits task action)

/-- No process that is stopped is forgotten. -/
def System.Attended (system : System) : Prop :=
  ∀ (task : TaskId) (process : Process) (stack : Stack), system.host.processes[task.index]? = some process →
    process.activity.stack? = some stack → (∀ activity, system.current ≠ some (task, activity)) →
    system.host.Attends task stack

namespace Host

variable {host after : Host} {task : TaskId} {tasks : List TaskId} {stack : Stack}

/-- Whoever waits for tasks waits on or has another turn, unless it is taken off those that wait. -/
theorem AwaitsEnds.later (hends : host.AwaitsEnds task tasks)
    (hnone : ∀ other ∈ tasks, host.outcome? other = none → after.outcome? other = none)
    (hwaiting : ∀ waiter ∈ host.schedule.waiting, waiter.process = task → waiter ∈ after.schedule.waiting) :
    after.AwaitsEnds task tasks := by
  obtain ⟨⟨other, hmem, hother⟩, waiter, hwaiter, hprocess, hoccasions⟩ := hends
  exact ⟨⟨other, hmem, hnone other hmem hother⟩, waiter, hwaiting waiter hwaiter hprocess, hprocess, hoccasions⟩

/-- What a process waits for lasts as long as no task settles. -/
theorem Awaits.later {action : Action} (hawaits : host.Awaits task action)
    (hnone : ∀ other, host.outcome? other = none → after.outcome? other = none)
    (hwaiting : ∀ waiter ∈ host.schedule.waiting, waiter.process = task → waiter ∈ after.schedule.waiting) :
    after.Awaits task action := by
  cases hawaits with
  | join hends => exact .join (hends.later (fun other _ => hnone other) hwaiting)
  | firstFailure hends => exact .firstFailure (hends.later (fun other _ => hnone other) hwaiting)
  | expired timers => exact .expired timers
  | receive slot => exact .receive slot

/-- Nobody is forgotten as long as places are kept and no task settles. -/
theorem Attends.later (hattends : host.Attends task stack)
    (hplace : task ∈ host.schedule.ready ∨ task ∈ host.schedule.yielded →
      task ∈ after.schedule.ready ∨ task ∈ after.schedule.yielded)
    (hnone : ∀ other, host.outcome? other = none → after.outcome? other = none)
    (hwaiting : ∀ waiter ∈ host.schedule.waiting, waiter.process = task → waiter ∈ after.schedule.waiting) :
    after.Attends task stack := by
  cases hattends with
  | ready hready => exact (hplace (.inl hready)).elim .ready .yielded
  | yielded hyielded => exact (hplace (.inr hyielded)).elim .ready .yielded
  | waiting habove hrunning hawaits => exact .waiting habove hrunning (hawaits.later hnone hwaiting)

/-- Nobody is forgotten when the schedule widens. -/
theorem Attends.widens (hattends : host.Attends task stack) (hwidens : host.schedule.Widens after.schedule)
    (hnone : ∀ other, host.outcome? other = none → after.outcome? other = none) : after.Attends task stack :=
  hattends.later (Or.imp (hwidens.ready task) fun hyielded => hwidens.yielded ▸ hyielded) hnone
    fun _ hwaiter _ => hwidens.waiting ▸ hwaiter

/-- If the outcomes of tasks are not all there, one of them has not settled. -/
theorem exists_of_allOutcomes?_eq_none (hnone : host.allOutcomes? tasks = none) :
    ∃ other ∈ tasks, host.outcome? other = none := by
  induction tasks with
  | nil => cases hnone
  | cons first rest ih =>
      unfold allOutcomes? at hnone
      cases hfirst : host.outcome? first with
      | none => exact ⟨first, List.mem_cons_self, hfirst⟩
      | some outcome =>
          cases hrest : host.allOutcomes? rest with
          | none =>
              obtain ⟨other, hmem, hother⟩ := ih hrest
              exact ⟨other, List.mem_cons_of_mem _ hmem, hother⟩
          | some outcomes => simp [hfirst, hrest] at hnone

/-- If tasks have neither failed nor all succeeded, one of them has not settled. -/
theorem exists_of_firstFailure?_eq_none (hnone : host.firstFailure? tasks = none) :
    ∃ other ∈ tasks, host.outcome? other = none := by
  induction tasks with
  | nil => cases hnone
  | cons first rest ih =>
      unfold firstFailure? at hnone
      cases hfirst : host.outcome? first with
      | none => exact ⟨first, List.mem_cons_self, hfirst⟩
      | some outcome =>
          cases hrest : host.firstFailure? rest with
          | none =>
              obtain ⟨other, hmem, hother⟩ := ih hrest
              exact ⟨other, List.mem_cons_of_mem _ hmem, hother⟩
          | some answer => cases outcome <;> cases answer <;> simp [hfirst, hrest] at hnone

/-- Whoever waited for the end of a task has another turn once it is announced, or waits on for others. -/
theorem Attends.announce (hattends : host.Attends task stack) (ended : TaskId)
    (hschedule : after.schedule = host.schedule.announce (.ended ended))
    (hnone : ∀ other, other ≠ ended → host.outcome? other = none → after.outcome? other = none) :
    after.Attends task stack := by
  have hwidens := Schedule.Widens.announce host.schedule (.ended ended)
  rw [← hschedule] at hwidens
  have hends {tasks : List TaskId} (hends : host.AwaitsEnds task tasks) :
      task ∈ after.schedule.ready ∨ after.AwaitsEnds task tasks := by
    obtain ⟨waiter, hwaiter, hprocess, hoccasions⟩ := hends.woken
    by_cases hmem : ended ∈ tasks
    · left
      rw [hschedule, ← hprocess]
      exact Schedule.mem_ready_announce hwaiter (hoccasions ▸ List.mem_map_of_mem hmem)
    · right
      exact hends.later (fun other hother => hnone other (ne_of_mem_of_not_mem hother hmem))
        fun _ hwaiter _ => hwidens.waiting ▸ hwaiter
  cases hattends with
  | ready hready => exact .ready (hwidens.ready task hready)
  | yielded hyielded => exact .yielded (hwidens.yielded ▸ hyielded)
  | waiting habove hrunning hawaits =>
      cases hawaits with
      | join hjoin => exact (hends hjoin).elim .ready fun hjoin => .waiting habove hrunning (.join hjoin)
      | firstFailure hfirst =>
          exact (hends hfirst).elim .ready fun hfirst => .waiting habove hrunning (.firstFailure hfirst)
      | expired timers => exact .waiting habove hrunning (.expired timers)
      | receive slot => exact .waiting habove hrunning (.receive slot)

/-- An action that has to wait waits for something. -/
theorem awaits_of_react {action : Action} {occasions : List Occasion} (hreact : host.react action = .wait after occasions)
    {last : Host} (hnone : ∀ other, host.outcome? other = none → last.outcome? other = none)
    (hwoken : ∃ waiter ∈ last.schedule.waiting, waiter.process = task ∧ waiter.occasions = occasions) :
    last.Awaits task action := by
  cases action with
  | join tasks =>
      simp only [react, look] at hreact
      split at hreact
      · cases hreact
      · rename_i hanswer
        cases hreact
        obtain ⟨other, hmem, hother⟩ := exists_of_allOutcomes?_eq_none hanswer
        exact .join ⟨⟨other, hmem, hnone other hother⟩, hwoken⟩
  | firstFailure tasks =>
      simp only [react, look] at hreact
      split at hreact
      · cases hreact
      · rename_i hanswer
        cases hreact
        obtain ⟨other, hmem, hother⟩ := exists_of_firstFailure?_eq_none hanswer
        exact .firstFailure ⟨⟨other, hmem, hnone other hother⟩, hwoken⟩
  | expired timers => exact .expired timers
  | receive slot => exact .receive slot
  | arm delay =>
      rw [react] at hreact
      split at hreact <;> cases hreact
  | _ => cases hreact

end Host

/-! ## Stopping -/

namespace Machine

/-- A step that waits or gives way is one of an action. -/
theorem step_eq_waits {run : Run} {next : Stack} {host : Host} {occasions : List Occasion}
    (hstep : machine.step run = .waits next host occasions) :
    ∃ action resume, next = run.stack ∧ run.stack.top.progress = .running (.act action resume) ∧
      run.host.react action = .wait host occasions := by
  unfold step at hstep
  split at hstep
  · cases hstep
  · cases hstep
  · rename_i action resume hrunning
    unfold act at hstep
    split at hstep
    · cases hstep
    · cases hstep
    · rename_i hreact
      cases hstep
      exact ⟨action, resume, rfl, hrunning, hreact⟩
  · cases hstep

/-- What a process that waits is doing, if it has a stack: an action that has to wait. -/
theorem advance_eq_waits {task : TaskId} {activity next : Activity} {host after : Host} {occasions : List Occasion}
    (hadvance : machine.advance task activity host = .waits next after occasions) :
    next.report? = none ∧ ∀ stack, next.stack? = some stack → stack.below ≠ [] ∧ ∃ action resume,
      stack.top.progress = .running (.act action resume) ∧ host.react action = .wait after occasions := by
  have hstack {stack : Stack} (wrap : Stack → Activity) {parent : Frame} {rest : List Frame}
      (hbelow : stack.below = parent :: rest) (hwrap : ∀ stack, (wrap stack).stack? = some stack)
      (hgoing : ∀ stack, (wrap stack).report? = none)
      (hstep : (machine.step { stack, host }).map wrap = .waits next after occasions) :
      next.report? = none ∧ ∀ stack, next.stack? = some stack → stack.below ≠ [] ∧ ∃ action resume,
        stack.top.progress = .running (.act action resume) ∧ host.react action = .wait after occasions := by
    cases hstepped : machine.step { stack, host } with
    | moved | gaveWay => rw [hstepped] at hstep; cases hstep
    | waits waiting host occasions =>
        rw [hstepped] at hstep
        cases hstep
        obtain ⟨action, resume, rfl, hrunning, hreact⟩ := step_eq_waits hstepped
        refine ⟨hgoing _, fun other hother => ?_⟩
        rw [hwrap] at hother
        cases hother
        exact ⟨by simp [hbelow], action, resume, hrunning, hreact⟩
  unfold advance at hadvance
  cases activity with
  | forked => cases hadvance
  | task stack =>
      simp only at hadvance
      split at hadvance
      · cases hadvance
      · rename_i hbelow
        exact hstack .task hbelow (fun _ => rfl) (fun _ => rfl) hadvance
  | run stack resume =>
      simp only at hadvance
      split at hadvance
      · cases hadvance
      · rename_i hbelow
        exact hstack (fun stack => .run stack resume) hbelow (fun _ => rfl) (fun _ => rfl) hadvance
  | client errand =>
      cases errand with
      | join errands => cases hadvance
      | evaluate context body =>
          simp only [evaluate] at hadvance
          split at hadvance
          · cases hadvance
          · cases hadvance
          · split at hadvance <;> cases hadvance
            exact ⟨rfl, by rintro _ ⟨⟩⟩
  | gathering reports awaited =>
      cases awaited with
      | nil => cases hadvance
      | cons awaited rest =>
          simp only at hadvance
          split at hadvance <;> cases hadvance
          exact ⟨rfl, by rintro _ ⟨⟩⟩
  | ended => cases hadvance

/-- A process that gives way goes on. -/
theorem advance_eq_gaveWay {task : TaskId} {activity next : Activity} {host after : Host}
    (hadvance : machine.advance task activity host = .gaveWay next after) : next.report? = none := by
  unfold advance at hadvance
  cases activity with
  | forked | ended => cases hadvance
  | task stack | run stack =>
      simp only at hadvance
      split at hadvance
      · cases hadvance
      · cases hstep : machine.step { stack, host } <;> rw [hstep] at hadvance <;> cases hadvance
        rfl
  | client errand =>
      cases errand with
      | join errands => cases hadvance
      | evaluate context body =>
          simp only [evaluate] at hadvance
          split at hadvance
          · cases hadvance
          · cases hadvance
          · split at hadvance <;> cases hadvance
            rfl
  | gathering reports awaited =>
      cases awaited with
      | nil => cases hadvance
      | cons awaited rest =>
          simp only at hadvance
          split at hadvance <;> cases hadvance

end Machine

/-! ## Nobody is forgotten -/

/-- What a process is doing is what was noted of it. -/
theorem Host.activity_of_park (host : Host) {task : TaskId} {activity : Activity} {process : Process}
    (hprocess : (host.park task activity).processes[task.index]? = some process) : process.activity = activity := by
  obtain ⟨before, -, rfl⟩ := Option.map_eq_some_iff.1 ((List.getElem?_modify _ _ _ _).symm.trans hprocess)
  simp

namespace System.Attended

variable {host : Host} {task : TaskId} {activity : Activity}

/-- A process that is stopped and has a stack had it before the running process moved. -/
theorem attends (attended : system.Attended) (hcurrent : system.current = some (task, activity)) {after : Host}
    (grows : system.host.Grows after) {other : TaskId} (hother : other ≠ task) {process : Process} {stack : Stack}
    (hprocess : after.processes[other.index]? = some process) (hstack : process.activity.stack? = some stack) :
    system.host.Attends other stack := by
  cases hbefore : system.host.processes[other.index]? with
  | none =>
      rw [grows.new hprocess (List.getElem?_eq_none_iff.1 hbefore)] at hstack
      cases hstack
  | some earlier =>
      obtain ⟨kept, hkept, hactivity, -⟩ := grows.kept hbefore
      rw [hprocess] at hkept
      cases hkept
      refine attended other earlier stack hbefore (hactivity ▸ hstack) fun doing hrunning => hother ?_
      rw [hcurrent] at hrunning
      cases hrunning
      rfl

/-- Nobody is forgotten when the running process goes on, gives way or waits. -/
theorem settleIn (attended : system.Attended)
    (hcurrent : system.current = some (task, activity)) :
    (settleIn task (machine.advance task activity system.host)).Attended := by
  have hadvances := machine.advances task activity system.host
  have hnone (other : TaskId) (hother : system.host.outcome? other = none) :
      (machine.advance task activity system.host).host.outcome? other = none := by
    unfold Host.outcome? at hother ⊢
    rw [hadvances.report?_eq]
    exact hother
  -- the others keep their turns and places
  have hothers {last : Host} {other : TaskId} {process : Process} {stack : Stack} (hother : other ≠ task)
      (hprocess : (machine.advance task activity system.host).host.processes[other.index]? = some process)
      (hstack : process.activity.stack? = some stack)
      (hspares : (machine.advance task activity system.host).host.schedule.Spares task last.schedule)
      (hlast : ∀ other, system.host.outcome? other = none → last.outcome? other = none) : last.Attends other stack := by
    refine (attended.attends hcurrent hadvances.grows hother hprocess hstack).later (fun hplace => ?_) hlast ?_
    · exact hspares.turns other hother (hplace.imp (hadvances.widens.ready other) (hadvances.widens.yielded ▸ ·))
    · intro waiter hwaiter hown
      exact hspares.waiting waiter (hadvances.widens.waiting ▸ hwaiter) (hown ▸ hother)
  intro other process stack hprocess hstack hidle
  cases hstep : machine.advance task activity system.host with
  | moved next after =>
      rw [hstep] at hprocess hidle hothers hnone
      have hother : other ≠ task := fun hsame => hidle next (hsame ▸ rfl)
      exact hothers hother hprocess hstack (.proceed _ _) hnone
  | gaveWay next after =>
      rw [hstep] at hprocess hothers hnone
      by_cases hother : other = task
      · subst hother
        exact .yielded (Schedule.mem_yielded_giveWay _ _)
      · have hgoing := Machine.advance_eq_gaveWay hstep
        refine hothers hother ?_ hstack (.giveWay _ _) fun settled hsettled => ?_
        · exact (Host.park_other next fun hindex => hother (congrArg TaskId.mk hindex.symm)) ▸ hprocess
        · exact Host.outcome?_park (fun _ => hgoing) (hnone settled hsettled)
  | waits next after occasions =>
      rw [hstep] at hprocess hothers hnone
      obtain ⟨hgoing, hwaits⟩ := Machine.advance_eq_waits hstep
      have hsettled (settled : TaskId) (hsettled : system.host.outcome? settled = none) :
          (after.park task next).outcome? settled = none :=
        Host.outcome?_park (fun _ => hgoing) (hnone settled hsettled)
      by_cases hother : other = task
      · subst hother
        have hown : process.activity = next := Host.activity_of_park after hprocess
        obtain ⟨habove, action, resume, hacting, hreact⟩ := hwaits stack (hown ▸ hstack)
        exact .waiting habove hacting (Host.awaits_of_react hreact hsettled (Schedule.exists_waiter_await _ _ _))
      · refine hothers hother ?_ hstack (.await _ _ _) hsettled
        exact (Host.park_other next fun hindex => hother (congrArg TaskId.mk hindex.symm)) ▸ hprocess

/-- Nobody is forgotten when the running process ends. -/
theorem conclude {report : Report} (attended : system.Attended)
    (hcurrent : system.current = some (task, .ended report)) :
    System.Attended { host := System.conclude system.host task report } := by
  intro other process stack hprocess hstack hidle
  have hparked : (system.host.park task (.ended report)).processes[other.index]? = some process := hprocess
  have hother : other ≠ task := by
    rintro rfl
    rw [Host.activity_of_park _ hparked] at hstack
    cases hstack
  rw [Host.park_other _ fun hindex => hother (congrArg TaskId.mk hindex.symm)] at hparked
  have hattends := attended other process stack hparked hstack fun activity hrunning => hother (by
    rw [hcurrent] at hrunning
    cases hrunning
    rfl)
  -- the process that has ended leaves its own place first
  have hproceeds : Host.Attends { system.host with schedule := system.host.schedule.proceed task } other stack := by
    refine hattends.later id (fun _ => id) fun waiter hwaiter hown => ?_
    exact (Schedule.Spares.proceed system.host.schedule task).waiting waiter hwaiter (hown ▸ hother)
  refine hproceeds.announce task rfl fun settled hsettled hnone => ?_
  exact Host.outcome?_park (fun hsame => absurd hsame.symm hsettled) hnone

/-- Picking a process forgets nobody. -/
theorem resume (attended : System.Attended { host }) (task : TaskId) : (System.resume host task).Attended := by
  intro other process stack hprocess hstack hidle
  rw [System.host_resume] at hprocess ⊢
  exact attended other process stack hprocess hstack fun _ hrunning => nomatch hrunning

/-- Whoever has the next turn runs, and nobody else is forgotten. -/
theorem next {schedule : Schedule} (attended : System.Attended { host })
    (hnext : host.schedule.next? = some (task, schedule)) : (System.resume { host with schedule } task).Attended := by
  intro other process stack hprocess hstack hidle
  rw [System.host_resume] at hprocess ⊢
  have hother : other ≠ task := by
    rintro rfl
    have hactivity : ((host.processes[other.index]?.map Process.activity).getD default) = process.activity := by
      rw [show host.processes[other.index]? = some process from hprocess]
      rfl
    refine hidle process.activity ?_
    unfold System.resume
    simp only [hactivity]
    split
    · rename_i hended
      rw [hended] at hstack
      cases hstack
    · rfl
  have hspares := Schedule.Spares.next hnext
  refine (attended other process stack hprocess hstack fun _ hrunning => nomatch hrunning).later
    (hspares.turns other hother) (fun _ => id) fun waiter hwaiter hown => ?_
  exact hspares.waiting waiter hwaiter (hown ▸ hother)

/-- Nobody is forgotten when time passes. -/
theorem elapse (attended : System.Attended { host }) (timers : Timers) :
    System.Attended { host := { host with timers } } := by
  intro other process stack hprocess hstack hidle
  have hattends := attended other process stack hprocess hstack fun _ hrunning => nomatch hrunning
  exact hattends.later id (fun _ => id) fun _ hwaiter _ => hwaiter

/-- Nobody is forgotten when timers run out. -/
theorem announceAll (attended : System.Attended { host }) (occasions : List Occasion) :
    System.Attended { host := occasions.foldl Host.announce host } := by
  induction occasions generalizing host with
  | nil => exact attended
  | cons occasion occasions ih =>
      refine ih fun other process stack hprocess hstack hidle => ?_
      have hattends := attended other process stack hprocess hstack fun _ hrunning => nomatch hrunning
      exact hattends.widens (.announce host.schedule occasion) fun _ => id

/-- Nobody is forgotten when nothing runs and the next thing happens. -/
theorem idle {next : System} (attended : System.Attended { host }) (hidle : System.idle host = some next) :
    next.Attended := by
  unfold System.idle at hidle
  split at hidle
  · rename_i hnext
    cases hidle
    exact attended.next hnext
  · obtain ⟨⟨due, timers⟩, _, hnext⟩ := Option.map_eq_some_iff.1 hidle
    cases hnext
    show System.Attended { host := due.foldl (fun host timer => host.announce (.expired timer)) _ }
    rw [← List.foldl_map (f := Occasion.expired) (g := Host.announce)]
    refine announceAll (fun other process stack hprocess hstack hidle => ?_) _
    have hattends := attended other process stack hprocess hstack fun _ hrunning => nomatch hrunning
    refine hattends.later (fun hplace => .inl (Schedule.mem_ready_letIn hplace)) (fun _ => id) fun _ hwaiter _ => ?_
    exact (Schedule.Widens.enqueueAll _ _).waiting.symm ▸ hwaiter

end System.Attended

/-- Nobody is forgotten as long as all cooperate. -/
theorem Cooperates.attended (cooperates : Cooperates machine system trace final) (attended : system.Attended) :
    final.Attended := by
  induction cooperates with
  | start => exact attended
  | @step trace middle next _ hstep ih =>
      unfold System.step at hstep
      split at hstep
      · cases hstep
        exact ih.conclude (by assumption)
      · cases hstep
        exact ih.settleIn (by assumption)
      · rename_i hcurrent
        obtain ⟨host, current⟩ := middle
        subst hcurrent
        exact ih.idle hstep
  | pick _ task ih => exact ih.resume task
  | elapse _ due timers _ ih => exact ih.elapse timers

/-- Before anybody has begun, nobody is forgotten. -/
theorem System.Attended.of_new {first : Host} (hnew : ∀ process ∈ first.processes, process.activity.stack? = none) :
    System.Attended { host := first } := by
  intro task process stack hprocess hstack
  rw [hnew process (List.mem_of_getElem? hprocess)] at hstack
  cases hstack

/-- When nothing runs and nobody can, every process that has a stack waits. -/
theorem System.Attended.awaits_of_nobody (attended : system.Attended) (hcurrent : system.current = none)
    (hnext : system.host.schedule.next? = none) {task : TaskId} {stack : Stack}
    (hdriven : system.driven? task = some stack) :
    stack.below ≠ [] ∧ ∃ action resume, stack.top.progress = .running (.act action resume) ∧
      system.host.Awaits task action := by
  obtain ⟨host, current⟩ := system
  obtain rfl : current = none := hcurrent
  obtain ⟨activity, hactivity, hstack⟩ := Option.bind_eq_some_iff.1 hdriven
  obtain ⟨process, hprocess, rfl⟩ := Option.map_eq_some_iff.1 hactivity
  obtain ⟨hready, hyielded⟩ := Schedule.no_turns hnext task
  cases attended task process stack hprocess hstack fun _ hrunning => nomatch hrunning with
  | ready hmem => exact absurd hmem hready
  | yielded hmem => exact absurd hmem hyielded
  | waiting habove hrunning hawaits => exact ⟨habove, _, _, hrunning, hawaits⟩

/-- When nothing is left to happen, nothing runs and nobody can. -/
theorem System.nobody_of_step (hstuck : system.step machine = none) :
    system.current = none ∧ system.host.schedule.next? = none := by
  obtain ⟨host, current⟩ := system
  unfold System.step at hstuck
  split at hstuck
  · cases hstuck
  · cases hstuck
  · rename_i hcurrent
    refine ⟨hcurrent, ?_⟩
    unfold System.idle at hstuck
    split at hstuck
    · cases hstuck
    · assumption

/-- When nothing is left to happen, every process that has a stack waits. -/
theorem System.Attended.awaits (attended : system.Attended) (hstuck : system.step machine = none) {task : TaskId}
    {stack : Stack} (hdriven : system.driven? task = some stack) :
    stack.below ≠ [] ∧ ∃ action resume, stack.top.progress = .running (.act action resume) ∧
      system.host.Awaits task action :=
  attended.awaits_of_nobody (nobody_of_step hstuck).1 (nobody_of_step hstuck).2 hdriven

end EffectMachine
