import EffectMachine.Proofs.Interleaving.Origins
import EffectMachine.Proofs.Windows.Clock

/-!
# Nobody oversleeps

A process that waits for timers has a turn coming once one of them has run out, and a task that was forked has one from
the start.  So when nobody can run any more, every computation on top of a stack waits for something, and no timer has
run out that it waits for.

* `Host.Enlists` is what a step of a process does for those that it starts: they have a turn coming.
* `Host.Sleeps` says that a process has begun, and that no timer has run out that it waits for.
* `System.Punctual` says that whoever is stopped has a turn coming or sleeps, and `Scheduled.punctual` that this stays
  so.
* `System.Resting` says that nobody can run, and `System.Resting.blocked` what every process with a stack does then.
-/

namespace EffectMachine

/-! ## Those that are started -/

/-- What the acts of one process do to the queue: nobody loses a place, and every process that is added has a turn. -/
structure Host.Enlists (host later : Host) : Prop where
  widens : host.schedule.Widens later.schedule
  longer : host.activities.length ≤ later.activities.length
  enlisted : ∀ task : TaskId, host.activities.length ≤ task.index → task.index < later.activities.length →
    task ∈ later.schedule.ready

namespace Host.Enlists

variable {host middle later : Host}

theorem of_activities (hwidens : host.schedule.Widens later.schedule) (hsame : later.activities = host.activities) :
    host.Enlists later where
  widens := hwidens
  longer := Nat.le_of_eq (congrArg List.length hsame.symm)
  enlisted := fun _ hnew hborn => absurd (hsame ▸ hborn) (Nat.not_lt_of_le hnew)

theorem refl (host : Host) : host.Enlists host :=
  .of_activities (.refl _) rfl

theorem trans (hfirst : host.Enlists middle) (hsecond : middle.Enlists later) : host.Enlists later where
  widens := hfirst.widens.trans hsecond.widens
  longer := Nat.le_trans hfirst.longer hsecond.longer
  enlisted := by
    intro task hnew hborn
    by_cases hmiddle : task.index < middle.activities.length
    · exact hsecond.widens.ready task (hfirst.enlisted task hnew hmiddle)
    · exact hsecond.enlisted task (Nat.le_of_not_lt hmiddle) hborn

theorem spawn (host : Host) (activity : Activity) : host.Enlists (host.spawn activity).2 where
  widens := .enqueue _ _
  longer := by simp
  enlisted := by
    intro task hnew hborn
    rw [host.activities_spawn, List.length_append, List.length_singleton] at hborn
    have hindex : task = ⟨host.processes.length⟩ := by
      have hlength : host.activities.length = host.processes.length := List.length_map _
      cases task
      simp only [TaskId.mk.injEq] at hnew hborn ⊢
      omega
    rw [hindex]
    exact Schedule.mem_ready_enqueue _ _

theorem sendOut (host : Host) (errands : List Errand) : host.Enlists (Machine.sendOut host errands).2 := by
  induction errands generalizing host with
  | nil => exact .refl _
  | cons errand rest ih => exact (spawn host (.client errand)).trans (ih _)

end Host.Enlists

theorem Run.Does.enlists {run next : Run} {act : Act} (hdoes : run.Does act next) : run.host.Enlists next.host := by
  cases hforks : act.isFork with
  | false =>
      refine .of_activities hdoes.widens (hdoes.activities.trans ?_)
      cases act <;> first | exact List.append_nil _ | cases hforks
  | true =>
      cases hdoes with
      | fork effect hscheduled =>
          have henlists := Host.Enlists.spawn run.host (.forked run.stack.context effect)
          unfold Run.answerTop
          split <;> exact henlists
      | _ => cases hforks

theorem Run.Chain.enlists {run final : Run} {acts : List Act} (chain : run.Chain acts final) :
    run.host.Enlists final.host := by
  induction chain with
  | done run => exact .refl _
  | quiet host hquiet _ ih =>
      exact (Host.Enlists.of_activities (Host.widens_of_quiet hquiet) (Host.activities_of_quiet hquiet)).trans ih
  | act hdoes _ ih => exact hdoes.enlists.trans ih

namespace Machine.Advances

variable {machine : Machine} {task : TaskId} {host later : Host} {activity after : Activity} {own : List Act}

/-- Every process that a step adds has a turn coming. -/
theorem enlists (hadvances : machine.Advances task host activity own after later) : host.Enlists later := by
  have hstep (stack : Stack) : host.Enlists (machine.step { stack, host }).host := by
    have henlists := (machine.step_chain { stack, host }).enlists
    rwa [Stepped.run_eq] at henlists
  cases hadvances with
  | begin context effect => exact (machine.handle_chain effect { stack := { context, signal := some task }, host }).enlists
  | step stack habove => exact hstep stack
  | submit context effect resume =>
      exact (machine.handle_chain (machine.submission effect) { stack := { context, signal := none }, host }).enlists
  | runStep stack resume habove => exact hstep stack
  | act context action resume reply later hreact =>
      have hwidens := host.widens_react action
      have hactivities := host.activities_react action
      rcases hreact with hreact | hreact <;> rw [hreact] at hwidens hactivities <;> exact .of_activities hwidens hactivities
  | wait context action resume later occasions hreact =>
      have hwidens := host.widens_react action
      have hactivities := host.activities_react action
      rw [hreact] at hwidens hactivities
      exact .of_activities hwidens hactivities
  | sendOut errands => exact .sendOut host errands
  | _ => exact .refl _

/-- A task that has made a step has begun. -/
theorem begun (hadvances : machine.Advances task host activity own after later) (context : Context) (effect : Effect) :
    after ≠ .forked context effect := by
  cases hadvances <;> simp

end Machine.Advances

/-! ## Those that sleep -/

/-- The timers that the computation of a frame waits for. -/
def Frame.awaited (frame : Frame) : List TimerId :=
  match frame.progress with
  | .running (.act (.expired timers) _) => timers
  | _ => []

/-- The timers that the computation on top of the stack of a process waits for. -/
def Activity.awaited : Activity → List TimerId
  | .task stack | .run stack _ => stack.top.awaited
  | _ => []

/-- A process has begun, and each timer that it waits for is still to run out and wakes the process then. -/
structure Host.Sleeps (host : Host) (task : TaskId) (activity : Activity) : Prop where
  begun : ∀ context effect, activity ≠ .forked context effect
  silent : ∀ timer ∈ activity.awaited, timer ∉ host.timers.expired
  waits : ∀ timer ∈ activity.awaited, ∃ waiter ∈ host.schedule.waiting, waiter.process = task ∧
    .expired timer ∈ waiter.occasions

/-- A process that is stopped has a turn coming, or sleeps. -/
inductive Host.Heeds (host : Host) (task : TaskId) (activity : Activity) : Prop
  | turn (hturn : task ∈ host.schedule.ready ∨ task ∈ host.schedule.yielded)
  | sleeps (hsleeps : host.Sleeps task activity)

/-- Whoever is stopped has a turn coming, or sleeps. -/
def System.Punctual (system : System) : Prop :=
  ∀ (task : TaskId) (activity : Activity), system.host.activities[task.index]? = some activity →
    (∀ doing, system.current ≠ some (task, doing)) → system.host.Heeds task activity

namespace Host

variable {host last : Host} {task : TaskId} {activity : Activity}

/-- Whoever sleeps sleeps on, as long as it keeps its place and no timer runs out. -/
theorem Heeds.later (heeds : host.Heeds task activity)
    (hturns : task ∈ host.schedule.ready ∨ task ∈ host.schedule.yielded →
      task ∈ last.schedule.ready ∨ task ∈ last.schedule.yielded)
    (hwaiting : ∀ waiter ∈ host.schedule.waiting, waiter.process = task → waiter ∈ last.schedule.waiting)
    (hexpired : ∀ timer ∈ last.timers.expired, timer ∈ host.timers.expired) : last.Heeds task activity := by
  cases heeds with
  | turn hturn => exact .turn (hturns hturn)
  | sleeps hsleeps =>
      refine .sleeps ⟨hsleeps.begun, fun timer hmem hlater => hsleeps.silent timer hmem (hexpired timer hlater),
        fun timer hmem => ?_⟩
      obtain ⟨waiter, hwaiter, hprocess, hoccasion⟩ := hsleeps.waits timer hmem
      exact ⟨waiter, hwaiting waiter hwaiter hprocess, hprocess, hoccasion⟩

/-- What waits for no timers and has begun sleeps. -/
theorem Sleeps.of_awaited (hbegun : ∀ context effect, activity ≠ .forked context effect) (hnone : activity.awaited = []) :
    host.Sleeps task activity where
  begun := hbegun
  silent := fun timer hmem => by
    rw [hnone] at hmem
    cases hmem
  waits := fun timer hmem => by
    rw [hnone] at hmem
    cases hmem

/-- A process that finds that it has to wait for timers sleeps. -/
theorem Sleeps.of_waits {machine : Machine} {running : Activity} {after : Host} {occasions : List Occasion}
    (hadvance : machine.advance task running host = .waits activity after occasions)
    (htimers : last.timers = after.timers)
    (hwaits : ∃ waiter ∈ last.schedule.waiting, waiter.process = task ∧ waiter.occasions = occasions) :
    last.Sleeps task activity := by
  have hadvances := machine.advances task running host
  rw [hadvance] at hadvances
  -- a process with a stack waits as the action of its top frame does
  have hstack (stack : Stack) (hsome : activity.stack? = some stack) {timer : TimerId}
      (hmem : timer ∈ stack.top.awaited) :
      timer ∉ last.timers.expired ∧ ∃ waiter ∈ last.schedule.waiting, waiter.process = task ∧
        .expired timer ∈ waiter.occasions := by
    obtain ⟨-, action, resume, hrunning, hreact⟩ := (Machine.advance_eq_waits hadvance).2 stack hsome
    rw [Frame.awaited, hrunning] at hmem
    cases action with
    | expired timers =>
        rw [react] at hreact
        split at hreact
        · cases hreact
        · rename_i hnone
          cases hreact
          obtain ⟨waiter, hwaiter, hprocess, hoccasions⟩ := hwaits
          refine ⟨fun hexpired => ?_, waiter, hwaiter, hprocess, hoccasions ▸ List.mem_map_of_mem hmem⟩
          have hsilent := List.findFinIdx?_eq_none_iff.1 hnone timer hmem
          rw [htimers] at hexpired
          exact hsilent (List.contains_iff_mem.2 hexpired)
    | _ => cases hmem
  refine ⟨hadvances.begun, fun timer hmem => ?_, fun timer hmem => ?_⟩
  · cases activity with
    | task stack => exact (hstack stack rfl hmem).1
    | run stack resume => exact (hstack stack rfl hmem).1
    | _ => cases hmem
  · cases activity with
    | task stack => exact (hstack stack rfl hmem).2
    | run stack resume => exact (hstack stack rfl hmem).2
    | _ => cases hmem

end Host

namespace System.Punctual

variable {machine : Machine} {system next : System} {host : Host} {task : TaskId} {activity : Activity}

/-- Nobody oversleeps when the running process goes on, gives way or waits. -/
theorem settleIn (punctual : system.Punctual) (hcurrent : system.current = some (task, activity)) :
    (System.settleIn task (machine.advance task activity system.host)).Punctual := by
  have hadvances := machine.advances task activity system.host
  have henlists := hadvances.enlists
  -- the others keep their turns and places, and those that are added have a turn coming
  have hothers {last : Host} {other : TaskId} {doing : Activity} (hother : other ≠ task)
      (hdoing : (machine.advance task activity system.host).host.activities[other.index]? = some doing)
      (hspares : (machine.advance task activity system.host).host.schedule.Spares task last.schedule)
      (htimers : last.timers = (machine.advance task activity system.host).host.timers) : last.Heeds other doing := by
    by_cases hborn : other.index < system.host.activities.length
    · obtain ⟨added, hadded, -⟩ := hadvances.activities
      rw [hadded, List.getElem?_append_left hborn] at hdoing
      have heeds := punctual other doing hdoing fun running hrunning => hother (by
        rw [hcurrent] at hrunning
        cases hrunning
        rfl)
      refine heeds.later (fun hturn => ?_) (fun waiter hmem hown => ?_) fun timer hmem => ?_
      · exact hspares.turns other hother (hturn.imp (henlists.widens.ready other) (henlists.widens.yielded ▸ ·))
      · exact hspares.waiting waiter (henlists.widens.waiting ▸ hmem) (hown ▸ hother)
      · exact hadvances.ticks.expired timer (htimers ▸ hmem)
    · have hlast := (List.getElem?_eq_some_iff.1 hdoing).1
      exact .turn (hspares.turns other hother (.inl (henlists.enlisted other (Nat.le_of_not_lt hborn) hlast)))
  intro other doing hdoing hidle
  cases hstep : machine.advance task activity system.host with
  | moved running after =>
      rw [hstep] at hdoing hidle hothers
      have hother : other ≠ task := fun hsame => hidle running (hsame ▸ rfl)
      exact hothers hother hdoing (.proceed _ _) rfl
  | gaveWay running after =>
      rw [hstep] at hdoing hothers
      by_cases hother : other = task
      · subst hother
        exact .turn (.inr (Schedule.mem_yielded_giveWay _ _))
      · refine hothers hother ?_ (.giveWay _ _) rfl
        have hparked : (after.park task running).activities[other.index]? = some doing := hdoing
        rwa [Host.activities_park, List.getElem?_set_ne fun hindex => hother (congrArg TaskId.mk hindex.symm)] at hparked
  | waits running after occasions =>
      rw [hstep] at hdoing hothers
      have hparked : (after.park task running).activities[other.index]? = some doing := hdoing
      by_cases hother : other = task
      · subst hother
        obtain rfl : running = doing := by
          rw [Host.activities_park, List.getElem?_set_self'] at hparked
          cases hbefore : after.activities[other.index]? with
          | none => simp [hbefore] at hparked
          | some earlier => simpa [hbefore] using hparked
        exact .sleeps (Host.Sleeps.of_waits hstep rfl (Schedule.exists_waiter_await _ _ _))
      · refine hothers hother ?_ (.await _ _ _) rfl
        rwa [Host.activities_park, List.getElem?_set_ne fun hindex => hother (congrArg TaskId.mk hindex.symm)] at hparked

/-- Nobody oversleeps when the running process ends. -/
theorem conclude {report : Report} (punctual : system.Punctual)
    (hcurrent : system.current = some (task, .ended report)) :
    System.Punctual { host := System.conclude system.host task report } := by
  intro other doing hdoing hidle
  have hparked : (system.host.park task (.ended report)).activities[other.index]? = some doing := hdoing
  by_cases hother : other = task
  · subst hother
    refine .sleeps (.of_awaited ?_ ?_)
    all_goals
      rw [Host.activities_park, List.getElem?_set_self'] at hparked
      cases hbefore : system.host.activities[other.index]? with
      | none => simp [hbefore] at hparked
      | some earlier =>
          obtain rfl : Activity.ended report = doing := by simpa [hbefore] using hparked
          simp [Activity.awaited]
  · rw [Host.activities_park, List.getElem?_set_ne fun hindex => hother (congrArg TaskId.mk hindex.symm)] at hparked
    have heeds := punctual other doing hparked fun running hrunning => hother (by
      rw [hcurrent] at hrunning
      cases hrunning
      rfl)
    have hspares := Schedule.Spares.proceed system.host.schedule task
    have hwidens := Schedule.Widens.announce (system.host.schedule.proceed task) (.ended task)
    refine heeds.later (fun hturn => ?_) (fun waiter hmem hown => ?_) fun timer hmem => hmem
    · exact (hspares.turns other hother hturn).imp (hwidens.ready other) (hwidens.yielded ▸ ·)
    · exact hwidens.waiting ▸ hspares.waiting waiter hmem (hown ▸ hother)

/-- Nobody oversleeps when whoever has the next turn is picked. -/
theorem resume {picked : TaskId} {schedule : Schedule} (punctual : System.Punctual { host })
    (hnext : host.schedule.next? = some (picked, schedule)) : (System.resume { host with schedule } picked).Punctual := by
  intro other doing hdoing hstopped
  rw [System.host_resume] at hdoing ⊢
  by_cases hother : other = picked
  · subst hother
    -- whoever is picked runs, unless it has ended
    cases hgoing : doing.report? with
    | none =>
        have hactivity : ({ host with schedule } : Host).processes[other.index]?.map Process.activity = some doing :=
          (List.getElem?_map ..).symm.trans hdoing
        exact absurd (System.current_resume_of_going hactivity hgoing) (hstopped doing)
    | some report =>
        obtain rfl : doing = .ended report := by
          cases doing <;> cases hgoing
          rfl
        exact .sleeps (.of_awaited (by simp) rfl)
  · have hspares := Schedule.Spares.next hnext
    exact (punctual other doing hdoing (by intro _ hrunning; cases hrunning)).later (hspares.turns other hother)
      (fun waiter hmem hown => hspares.waiting waiter hmem (hown ▸ hother)) fun timer hmem => hmem

/-- Nobody oversleeps when the clock jumps: whoever waits for a timer that runs out is woken. -/
theorem jumps {ids : List TimerId} (punctual : System.Punctual { host }) (hjumps : System.Jumps { host } ids next)
    (hlike : next.host.Like host) : next.Punctual := by
  intro other doing hdoing hstopped
  have hbefore : host.activities[other.index]? = some doing := by
    rwa [Host.activities, hlike.processes] at hdoing
  have hidle : ∀ running, ({ host } : System).current ≠ some (other, running) := by
    intro running hrunning
    cases hrunning
  cases punctual other doing hbefore hidle with
  | turn hturn =>
      have hnone := Schedule.no_turns hjumps.nobody other
      exact (hturn.elim hnone.1 hnone.2).elim
  | sleeps hsleeps =>
      by_cases hdue : ∃ timer ∈ doing.awaited, timer ∈ ids
      · obtain ⟨timer, hawaited, hmem⟩ := hdue
        obtain ⟨waiter, hwaiter, hprocess, hoccasion⟩ := hsleeps.waits timer hawaited
        exact .turn (.inl (hprocess ▸ hjumps.woken waiter hwaiter timer hmem hoccasion))
      · refine .sleeps ⟨hsleeps.begun, fun timer hawaited hexpired => ?_, fun timer hawaited => ?_⟩
        · rcases Timers.mem_expired_advance? hjumps.advance hexpired with hearlier | hmem
          · exact hsleeps.silent timer hawaited hearlier
          · exact hdue ⟨timer, hawaited, hmem⟩
        · obtain ⟨waiter, hwaiter, hwaits⟩ := hsleeps.waits timer hawaited
          exact ⟨waiter, hjumps.waiting ▸ hwaiter, hwaits⟩

/-- Nobody oversleeps by a step of the system. -/
theorem step (punctual : system.Punctual) (hstep : system.step machine = some next) : next.Punctual := by
  obtain ⟨host, current⟩ := system
  cases current with
  | none =>
      rcases System.picks_or_jumps_of_idle hstep with ⟨picked, schedule, hnext, rfl⟩ | ⟨ids, hjumps⟩
      · exact punctual.resume hnext
      · exact punctual.jumps hjumps (System.host_idle hstep)
  | some entry =>
      obtain ⟨task, activity⟩ := entry
      rcases System.step_of_current rfl hstep with ⟨report, rfl, rfl⟩ | ⟨-, rfl⟩
      · exact punctual.conclude rfl
      · exact punctual.settleIn rfl

/-- Before anybody has begun, nobody oversleeps. -/
theorem of_clients {first : Host} (hclients : ∀ process ∈ first.processes, ∃ errand, process.activity = .client errand) :
    System.Punctual { host := first } := by
  intro task activity hactivity _
  obtain ⟨process, hprocess, rfl⟩ := List.mem_map.1 (List.mem_of_getElem? hactivity)
  obtain ⟨errand, herrand⟩ := hclients process hprocess
  exact .sleeps (.of_awaited (by simp [herrand]) (by rw [herrand]; rfl))

end System.Punctual

/-- Nobody oversleeps, at any time. -/
theorem Scheduled.punctual {machine : Machine} {system later : System} {trace : Trace}
    (scheduled : Scheduled machine system trace later) (punctual : system.Punctual) : later.Punctual := by
  induction scheduled with
  | start => exact punctual
  | step _ hstep ih => exact ih.step hstep

/-! ## When nobody can run -/

/-- Nothing runs, and nobody can. -/
structure System.Resting (system : System) : Prop where
  current : system.current = none
  nobody : system.host.schedule.next? = none

/-- What a process that has a stack does when nobody can run: the computation on top of the stack waits, and if it waits
for timers then none of them has run out. -/
structure System.Blocked (system : System) (task : TaskId) (stack : Stack) : Prop where
  above : stack.below ≠ []
  waits : ∃ action resume, stack.top.progress = .running (.act action resume) ∧ system.host.Awaits task action
  silent : ∀ timer ∈ stack.top.awaited, timer ∉ system.host.timers.expired

namespace System.Resting

variable {machine : Machine} {system next : System} {task : TaskId}

/-- What a process is doing when nothing runs is what was noted of it. -/
theorem getElem?_activities (resting : system.Resting) {activity : Activity} (hactivity : system.activity? task = some activity) :
    system.host.activities[task.index]? = some activity := by
  rw [System.activity?_eq_getElem?] at hactivity
  unfold System.parked at hactivity
  rw [resting.current] at hactivity
  exact hactivity

/-- Whoever is stopped when nobody can run sleeps. -/
theorem sleeps (resting : system.Resting) (punctual : system.Punctual) {activity : Activity}
    (hactivity : system.activity? task = some activity) : system.host.Sleeps task activity := by
  have hstopped (doing : Activity) : system.current ≠ some (task, doing) := by simp [resting.current]
  cases punctual task activity (resting.getElem?_activities hactivity) hstopped with
  | turn hturn =>
      have hnone := Schedule.no_turns resting.nobody task
      exact (hturn.elim hnone.1 hnone.2).elim
  | sleeps hsleeps => exact hsleeps

/-- When nobody can run, every process with a stack waits. -/
theorem blocked (resting : system.Resting) (punctual : system.Punctual) (attended : system.Attended) {stack : Stack}
    (hdriven : system.driven? task = some stack) : system.Blocked task stack := by
  obtain ⟨habove, hwaits⟩ := attended.awaits_of_nobody resting.current resting.nobody hdriven
  refine ⟨habove, hwaits, fun timer hmem => ?_⟩
  obtain ⟨activity, hactivity, hstack⟩ := Option.bind_eq_some_iff.1 hdriven
  refine (resting.sleeps punctual hactivity).silent timer ?_
  cases activity with
  | task other | run other => cases hstack; exact hmem
  | _ => cases hstack

end System.Resting
end EffectMachine
