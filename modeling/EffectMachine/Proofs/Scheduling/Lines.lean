import EffectMachine.Proofs.Scheduling.Waits

/-!
# The line

Those who can run do so one after another: first the queue, then those who stand aside.  The line does not depend on
when the latter are let in.

* `Schedule.next?_of_line` says that the first of the line runs next, and what the line is then.
* `System.exists_turn_of_line` is the turn that it is given.
-/

namespace EffectMachine
namespace Schedule

variable {schedule : Schedule} {process : TaskId} {rest : List TaskId}

/-- Those who can run, in the order in which they will. -/
def line (schedule : Schedule) : List TaskId :=
  schedule.ready ++ schedule.yielded

theorem enqueue_of_not_mem (hnew : process ∉ schedule.ready) :
    schedule.enqueue process = { schedule with ready := schedule.ready ++ [process] } := by
  unfold enqueue
  rw [if_neg (by simpa using hnew)]

theorem enqueueAll_of_nodup {processes : List TaskId} (hnodup : (schedule.ready ++ processes).Nodup) :
    processes.foldl enqueue schedule = { schedule with ready := schedule.ready ++ processes } := by
  induction processes generalizing schedule with
  | nil => simp
  | cons process processes ih =>
      have hnew : process ∉ schedule.ready := fun hmem =>
        (List.nodup_append.1 hnodup).2.2 process hmem process List.mem_cons_self rfl
      rw [List.foldl_cons, enqueue_of_not_mem hnew, ih (by simpa using hnodup)]
      simp

/-- Letting those in who stand aside leaves the line as it is. -/
theorem letIn_of_line (hnodup : schedule.line.Nodup) :
    schedule.letIn = { schedule with ready := schedule.line, yielded := [], turns := 0 } := by
  unfold letIn
  have hready : ({ schedule with yielded := [], turns := 0 } : Schedule).ready ++ schedule.yielded = schedule.line := rfl
  rw [enqueueAll_of_nodup (hready ▸ hnodup)]
  rfl

/-- The first of the line runs next. -/
theorem next?_of_line (hnodup : schedule.line.Nodup) (hline : schedule.line = process :: rest) :
    ∃ later, schedule.next? = some (process, later) ∧ later.line = rest ∧ later.waiting = schedule.waiting ∧
      later.woken = false ∧ (schedule.yielded = [] → later.yielded = []) := by
  by_cases hletIn : (schedule.ready.isEmpty || decide (schedule.turns = patience)) = true
  · have hbefore : schedule.beforeTurn = { schedule with ready := process :: rest, yielded := [], turns := 0 } := by
      rw [beforeTurn, if_pos hletIn, letIn_of_line hnodup, hline]
    refine ⟨_, by unfold next?; rw [hbefore], ?_⟩
    simp [line]
  · have hbefore : schedule.beforeTurn = schedule := by rw [beforeTurn, if_neg hletIn]
    cases hready : schedule.ready with
    | nil => simp [hready] at hletIn
    | cons first ready =>
        have hcons : first :: (ready ++ schedule.yielded) = process :: rest := by
          rw [← hline, line, hready]
          rfl
        obtain ⟨rfl, rfl⟩ := List.cons.inj hcons
        refine ⟨{ schedule with ready, turns := schedule.turns + 1, woken := false }, ?_, rfl, rfl, rfl, id⟩
        unfold next?
        simp only [hbefore, hready]

/-- Whoever gives up its turn goes to the end of the line, when nobody stands aside. -/
theorem line_giveWay (hwoken : schedule.woken = false) (hyielded : schedule.yielded = []) (process : TaskId) :
    (schedule.giveWay process).line = schedule.line ++ [process] := by
  simp [giveWay, release, hwoken, hyielded, line]

/-- Whoever waits leaves the line as it is, unless it was woken meanwhile or waits for a crowd. -/
theorem line_await (hwoken : schedule.woken = false) {occasions : List Occasion}
    (hfew : schedule.isWaiting process = true ∨ occasions.length ≤ crowd) :
    (schedule.await process occasions).line = schedule.line ∧
      (schedule.await process occasions).yielded = schedule.yielded := by
  unfold await
  split
  · simp [release, hwoken, line]
  · rename_i hidle
    have hless := hfew.resolve_left hidle
    simp [release, hwoken, line, Nat.not_lt.2 hless]

theorem line_release (hready : process ∉ schedule.ready) (hyielded : schedule.yielded = []) :
    ((schedule.release process).line = schedule.line ∨ (schedule.release process).line = schedule.line ++ [process]) ∧
      (schedule.release process).yielded = [] := by
  cases hwoken : schedule.woken <;> simp [release, enqueue, hwoken, hready, line, hyielded]

/-- Whoever waits may get another turn, after all others. -/
theorem line_await_of_nodup (hready : process ∉ schedule.ready) (hyielded : schedule.yielded = []) (occasions : List Occasion) :
    ((schedule.await process occasions).line = schedule.line ∨
      (schedule.await process occasions).line = schedule.line ++ [process]) ∧
      (schedule.await process occasions).yielded = [] := by
  unfold await
  split
  · exact line_release hready hyielded
  · exact line_release hready hyielded

theorem mem_waiting_await (schedule : Schedule) (process : TaskId) (occasions : List Occasion) :
    ⟨process, occasions⟩ ∈ (schedule.await process occasions).waiting := by
  obtain ⟨waiter, hmem, rfl, rfl⟩ := exists_waiter_await schedule process occasions
  exact hmem

end Schedule

namespace System

variable {host : Host} {task : TaskId} {activity : Activity} {rest : List TaskId}

/-- The first of the line has its turn. -/
theorem exists_turn_of_line (machine : Machine) (hnodup : host.schedule.line.Nodup) (hline : host.schedule.line = task :: rest)
    (hactivity : host.processes[task.index]?.map Process.activity = some activity) (hgoing : activity.report? = none) :
    ∃ schedule, Scheduled machine { host } [] { host := { host with schedule }, current := some (task, activity) } ∧
      schedule.line = rest ∧ schedule.waiting = host.schedule.waiting ∧ schedule.woken = false ∧
      (host.schedule.yielded = [] → schedule.yielded = []) := by
  obtain ⟨schedule, hnext, hrest⟩ := Schedule.next?_of_line hnodup hline
  refine ⟨schedule, ?_, hrest⟩
  have hcurrent : (System.resume { host with schedule } task).current = some (task, activity) :=
    current_resume_of_going hactivity hgoing
  have hstep : ({ host } : System).step machine = some { host := { host with schedule }, current := some (task, activity) } := by
    show idle host = _
    unfold idle
    rw [hnext, ← hcurrent]
    exact congrArg some (congrArg (System.mk · _) (host_resume { host with schedule } task))
  exact .single hstep

end System
end EffectMachine
