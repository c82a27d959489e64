import EffectMachine.Proofs.Interleaving.Cooperation

/-!
# Turns

The schedule of a system is fair: whoever stands in the queue has a turn, as long as every turn ends.  The others can
only queue up behind, so the number of those ahead falls by one with every turn that is given out.

* `Scheduled` are the steps of a system as its schedule has them, which is one way only (`Scheduled.total`).
* `Host.LeavesOthers` is what a step of the running process does to all others.
* `System.Shares` says that nobody keeps the thread for ever, and `System.Shares.exists_turn` that everybody in the
  queue has a turn then.
-/

namespace EffectMachine

/-- Steps of a system, as its schedule has them, with all acts on the way. -/
inductive Scheduled (machine : Machine) (system : System) : Trace → System → Prop
  | start : Scheduled machine system [] system
  | step {trace : Trace} {middle next : System} (scheduled : Scheduled machine system trace middle)
      (hstep : middle.step machine = some next) : Scheduled machine system (trace ++ middle.acts machine) next

namespace Scheduled

variable {machine : Machine} {system next later other : System} {trace more : Trace}

theorem single (hstep : system.step machine = some next) : Scheduled machine system (system.acts machine) next :=
  .step .start hstep

/-- Steps are put one behind the other. -/
theorem trans (hfirst : Scheduled machine system trace later) (hsecond : Scheduled machine later more other) :
    Scheduled machine system (trace ++ more) other := by
  induction hsecond with
  | start => simpa using hfirst
  | step _ hstep ih =>
      rw [← List.append_assoc]
      exact .step ih hstep

theorem cooperates (scheduled : Scheduled machine system trace later) : Cooperates machine system trace later := by
  induction scheduled with
  | start => exact .start
  | step _ hstep ih => exact .step ih hstep

theorem runs {first : Host} (scheduled : Scheduled machine system more later) (runs : Runs machine first trace system) :
    Runs machine first (trace ++ more) later :=
  scheduled.cooperates.proceeds.runs runs

theorem execute (machine : Machine) (system : System) (steps : Nat) :
    Scheduled machine system (system.execute machine steps).1 (system.execute machine steps).2 := by
  induction steps generalizing system with
  | zero => exact .start
  | succ steps ih =>
      unfold System.execute
      cases hstep : system.step machine with
      | none => exact .start
      | some next => exact (single hstep).trans (ih next)

/-- The steps after the first one. -/
theorem first_step (scheduled : Scheduled machine system trace later) :
    (trace = [] ∧ later = system) ∨ ∃ next more, system.step machine = some next ∧ trace = system.acts machine ++ more ∧
      Scheduled machine next more later := by
  induction scheduled with
  | start => exact .inl ⟨rfl, rfl⟩
  | step _ hstep ih =>
      rcases ih with ⟨rfl, rfl⟩ | ⟨next, more, hfirst, rfl, rest⟩
      · exact .inr ⟨_, [], hstep, by simp, .start⟩
      · exact .inr ⟨next, _, hfirst, by rw [List.append_assoc], rest.step hstep⟩

/-- There is one way only in which the steps of a system go. -/
theorem total (hfirst : Scheduled machine system trace later) (hsecond : Scheduled machine system more other) :
    (∃ rest, Scheduled machine later rest other ∧ more = trace ++ rest) ∨
      ∃ rest, Scheduled machine other rest later ∧ trace = more ++ rest := by
  induction hsecond with
  | start => exact .inr ⟨trace, hfirst, rfl⟩
  | step _ hstep ih =>
      rcases ih with ⟨rest, hrest, rfl⟩ | ⟨rest, hrest, rfl⟩
      · exact .inl ⟨_, hrest.step hstep, by rw [List.append_assoc]⟩
      · rcases hrest.first_step with ⟨rfl, rfl⟩ | ⟨next, more, hnext, rfl, hmore⟩
        · exact .inl ⟨_, single hstep, by simp⟩
        · cases hnext.symm.trans hstep
          exact .inr ⟨more, hmore, by rw [List.append_assoc]⟩

/-- Scheduled steps are some number of steps. -/
theorem exists_execute (scheduled : Scheduled machine system trace later) :
    ∃ steps, system.execute machine steps = (trace, later) := by
  induction scheduled with
  | start => exact ⟨0, rfl⟩
  | @step trace middle next _ hstep ih =>
      obtain ⟨steps, hsteps⟩ := ih
      refine ⟨steps + 1, ?_⟩
      clear * - hsteps hstep
      induction steps generalizing system trace with
      | zero =>
          cases hsteps
          simp [System.execute, hstep]
      | succ steps ih =>
          unfold System.execute at hsteps ⊢
          split at hsteps
          · cases hsteps
            rw [ih rfl, List.append_assoc]
          · cases hsteps
            simp_all

end Scheduled

/-! ## What the running process leaves alone -/

/-- What a step of a process leaves alone: the queue, to which it only adds, and what the others are doing or wait for. -/
structure Host.LeavesOthers (task : TaskId) (host later : Host) : Prop where
  queue : host.schedule.ready <+: later.schedule.ready
  activities : ∀ other activity, other ≠ task → host.processes[other.index]?.map Process.activity = some activity →
    later.processes[other.index]?.map Process.activity = some activity
  waiting : ∀ waiter ∈ host.schedule.waiting, waiter.process ≠ task → waiter ∈ later.schedule.waiting

namespace Host.LeavesOthers

variable {task : TaskId} {host middle later : Host}

theorem trans (hfirst : host.LeavesOthers task middle) (hsecond : middle.LeavesOthers task later) :
    host.LeavesOthers task later where
  queue := hfirst.queue.trans hsecond.queue
  activities := fun other activity hother hdoing =>
    hsecond.activities other activity hother (hfirst.activities other activity hother hdoing)
  waiting := fun waiter hmem hother => hsecond.waiting waiter (hfirst.waiting waiter hmem hother) hother

/-- Noting what the process is doing is no matter of the others. -/
theorem park (task : TaskId) (host : Host) (activity : Activity) : host.LeavesOthers task (host.park task activity) where
  queue := List.prefix_rfl
  activities := fun other doing hother hdoing => by
    rw [Host.park_other _ fun hindex => hother (congrArg TaskId.mk hindex.symm)]
    exact hdoing
  waiting := fun _ hmem _ => hmem

/-- What becomes of the place of the process when it stops is no matter of the others. -/
theorem reschedule (schedule : Schedule) (hqueue : host.schedule.ready <+: schedule.ready)
    (hspares : host.schedule.Spares task schedule) : host.LeavesOthers task { host with schedule } where
  queue := hqueue
  activities := fun _ _ _ hdoing => hdoing
  waiting := hspares.waiting

theorem advances {machine : Machine} {activity next : Activity} {acts : List Act}
    (hadvances : machine.Advances task host activity acts next later) : host.LeavesOthers task later where
  queue := hadvances.widens.queue
  activities := fun other doing _ hdoing => by
    obtain ⟨process, hprocess, rfl⟩ := Option.map_eq_some_iff.1 hdoing
    obtain ⟨after, hafter, hactivity, -⟩ := hadvances.grows.kept hprocess
    rw [hafter, Option.map_some, hactivity]
  waiting := fun _ hmem _ => hadvances.widens.waiting ▸ hmem

theorem settleIn (task : TaskId) (stepped : Stepped Activity) :
    stepped.host.LeavesOthers task (System.settleIn task stepped).host := by
  cases stepped with
  | moved next host => exact reschedule _ List.prefix_rfl (.proceed _ _)
  | gaveWay next host =>
      refine (park task host next).trans (reschedule _ ?_ (.giveWay _ _))
      exact (Schedule.Widens.release { host.schedule.proceed task with yielded := _ } task).queue
  | waits next host occasions =>
      refine (park task host next).trans (reschedule _ ?_ (.await _ _ _))
      unfold Schedule.await
      split
      · refine .trans ?_ (Schedule.Widens.release _ task).queue
        exact List.prefix_rfl
      · refine .trans ?_ (Schedule.Widens.release _ task).queue
        exact List.prefix_rfl

theorem conclude (host : Host) (task : TaskId) (report : Report) :
    host.LeavesOthers task (System.conclude host task report) := by
  refine (park task host (.ended report)).trans ?_
  refine .trans (reschedule (host.schedule.proceed task) List.prefix_rfl (.proceed _ _)) ?_
  have hwidens := Schedule.Widens.announce ((host.park task (.ended report)).schedule.proceed task) (.ended task)
  exact ⟨hwidens.queue, fun _ _ _ => id, fun _ hmem _ => hwidens.waiting ▸ hmem⟩

end Host.LeavesOthers

namespace System

variable {machine : Machine} {system next : System} {task : TaskId} {activity : Activity}

/-- The running process runs on or stops, and leaves the others alone. -/
theorem leavesOthers_of_step (hcurrent : system.current = some (task, activity))
    (hstep : system.step machine = some next) :
    system.host.LeavesOthers task next.host ∧ (next.current = none ∨ ∃ doing, next.current = some (task, doing)) := by
  unfold System.step at hstep
  split at hstep
  · cases hcurrent.symm.trans (by assumption)
    cases hstep
    exact ⟨.conclude _ _ _, .inl rfl⟩
  · cases hcurrent.symm.trans (by assumption)
    cases hstep
    refine ⟨(Host.LeavesOthers.advances (machine.advances task activity system.host)).trans (.settleIn _ _), ?_⟩
    cases machine.advance task activity system.host with
    | moved next host => exact .inr ⟨next, rfl⟩
    | gaveWay | waits => exact .inl rfl
  · rename_i hnone
    cases hcurrent.symm.trans hnone

/-- Whoever is picked runs, unless it has ended; nothing else happens. -/
theorem current_resume (host : Host) (task : TaskId) :
    (System.resume host task).current = none ∨ ∃ doing, (System.resume host task).current = some (task, doing) := by
  unfold System.resume
  split
  · exact .inl rfl
  · exact .inr ⟨_, rfl⟩

/-- A process that has not ended runs when it is picked. -/
theorem current_resume_of_going {host : Host} (hactivity : host.processes[task.index]?.map Process.activity = some activity)
    (hgoing : activity.report? = none) : (System.resume host task).current = some (task, activity) := by
  unfold System.resume
  simp only [hactivity, Option.getD_some]
  split
  · cases hgoing
  · rfl

/-- When nothing runs, the first in the queue is picked. -/
theorem idle_of_ready {host : Host} {first : TaskId} {rest : List TaskId} (hready : host.schedule.ready = first :: rest) :
    ∃ schedule, idle host = some (System.resume { host with schedule } first) ∧ rest <+: schedule.ready := by
  obtain ⟨added, hadded⟩ : ∃ added, host.schedule.beforeTurn.ready = first :: (rest ++ added) := by
    unfold Schedule.beforeTurn
    split
    · obtain ⟨added, hadded⟩ := (Schedule.Widens.enqueueAll host.schedule.yielded
        { host.schedule with yielded := [], turns := 0 }).queue
      refine ⟨added, hadded.symm.trans ?_⟩
      rw [hready]
      rfl
    · exact ⟨[], by simpa using hready⟩
  refine ⟨{ host.schedule.beforeTurn with
    ready := rest ++ added, turns := host.schedule.beforeTurn.turns + 1, woken := false }, ?_, List.prefix_append rest added⟩
  unfold idle Schedule.next?
  simp only [hadded]

end System

/-! ## Everybody has a turn -/

/-- Nobody keeps the thread for ever. -/
def System.Shares (machine : Machine) (system : System) : Prop :=
  ∀ trace later, Scheduled machine system trace later → ∃ steps, (later.execute machine steps).2.current = none

namespace System

variable {machine : Machine} {system : System} {task : TaskId} {activity : Activity}

theorem Shares.later {trace : Trace} {later : System} (shares : system.Shares machine)
    (scheduled : Scheduled machine system trace later) : later.Shares machine :=
  fun _ _ hmore => shares _ _ (scheduled.trans hmore)

/-- What a process does while another one runs, or nobody: nothing. -/
theorem deeds_acts_other (machine : Machine) (hidle : ∀ doing, system.current ≠ some (task, doing)) :
    deeds (system.acts machine) task = [] := by
  unfold acts
  split
  · rename_i running doing hcurrent
    have hother : running ≠ task := fun hsame => hidle doing (by rw [hcurrent, hsame])
    exact deeds_other hother _
  · rfl

/-- A turn ends, and leaves the others alone. -/
theorem exists_stop {running : TaskId} {doing : Activity} (steps : Nat)
    (hstops : (system.execute machine steps).2.current = none) (hcurrent : system.current = some (running, doing)) :
    ∃ trace host, Scheduled machine system trace { host } ∧ system.host.LeavesOthers running host ∧
      ∀ other, other ≠ running → deeds trace other = [] := by
  induction steps generalizing system doing with
  | zero => cases hstops.symm.trans hcurrent
  | succ steps ih =>
      unfold execute at hstops
      split at hstops
      · rename_i next hstep
        have hown {other : TaskId} (hother : other ≠ running) : deeds (system.acts machine) other = [] :=
          deeds_acts_other machine fun _ hsame => hother (congrArg Prod.fst (Option.some.inj (hsame.symm.trans hcurrent)))
        obtain ⟨hleaves, hnone | ⟨doing, hdoing⟩⟩ := leavesOthers_of_step hcurrent hstep
        · obtain ⟨host, current⟩ := next
          obtain rfl : current = none := hnone
          exact ⟨_, host, .single hstep, hleaves, fun _ hother => hown hother⟩
        · obtain ⟨trace, host, scheduled, hmore, hdeeds⟩ := ih hstops hdoing
          refine ⟨_, host, (Scheduled.single hstep).trans scheduled, hleaves.trans hmore, fun other hother => ?_⟩
          rw [deeds_append, hown hother, hdeeds other hother]
          rfl
      · cases hstops.symm.trans hcurrent

/-- Whoever stands in the queue has a turn, and does nothing before.  The induction is on the number of those ahead. -/
theorem Shares.exists_turn (shares : system.Shares machine)
    (hactivity : system.host.processes[task.index]?.map Process.activity = some activity) (hgoing : activity.report? = none)
    (hready : task ∈ system.host.schedule.ready) (hidle : ∀ doing, system.current ≠ some (task, doing)) :
    ∃ trace later, Scheduled machine system trace later ∧ later.current = some (task, activity) ∧ deeds trace task = [] := by
  obtain ⟨ahead, behind, hqueue⟩ := List.append_of_mem hready
  generalize hnumber : ahead.length = number
  induction number using Nat.strongRecOn generalizing system ahead behind with
  | ind number ih =>
      -- the turn that someone else may have is over first
      obtain ⟨trace, host, behind, scheduled, hactivity, hqueue, hdeeds⟩ : ∃ trace host behind,
          Scheduled machine system trace { host } ∧ host.processes[task.index]?.map Process.activity = some activity ∧
            host.schedule.ready = ahead ++ task :: behind ∧ deeds trace task = [] := by
        obtain ⟨host, current⟩ := system
        cases current with
        | none => exact ⟨[], host, behind, .start, hactivity, hqueue, rfl⟩
        | some entry =>
            obtain ⟨steps, hstops⟩ := shares [] _ .start
            obtain ⟨trace, later, scheduled, hleaves, hdeeds⟩ := exists_stop steps hstops rfl
            obtain ⟨more, hmore⟩ := hleaves.queue
            have hother : task ≠ entry.1 := fun hsame => hidle entry.2 (by rw [hsame])
            exact ⟨trace, later, behind ++ more, scheduled, hleaves.activities task activity hother hactivity,
              by rw [← hmore, hqueue]; simp, hdeeds task hother⟩
      have hpicking : deeds (trace ++ ({ host } : System).acts machine) task = [] := by
        rw [deeds_append, hdeeds]
        rfl
      cases ahead with
      | nil =>
          obtain ⟨schedule, hnext, -⟩ := idle_of_ready hqueue
          exact ⟨_, _, scheduled.step hnext, current_resume_of_going hactivity hgoing, hpicking⟩
      | cons first ahead =>
          obtain ⟨schedule, hnext, more, hmore⟩ := idle_of_ready hqueue
          by_cases hfirst : first = task
          · subst hfirst
            exact ⟨_, _, scheduled.step hnext, current_resume_of_going hactivity hgoing, hpicking⟩
          · have hturn := scheduled.step hnext
            have hhost := host_resume { host with schedule } first
            obtain ⟨rest, later, hrest, hlater, hmoredeeds⟩ := ih ahead.length (by simp [← hnumber]) (shares.later hturn)
              (by rw [hhost]; exact hactivity) (by rw [hhost]; simp [← hmore])
              (by
                intro doing hdoing
                rcases current_resume { host with schedule } first with hnone | ⟨other, hother⟩
                · cases hnone.symm.trans hdoing
                · rw [hother] at hdoing
                  cases hdoing
                  exact hfirst rfl)
              ahead (behind ++ more) (by rw [hhost]; simp [← hmore]) rfl
            refine ⟨_, later, hturn.trans hrest, hlater, ?_⟩
            rw [deeds_append, hpicking, hmoredeeds]
            rfl

end System
end EffectMachine
