import EffectMachine.Proofs.Coalescing.Calls
import EffectMachine.Proofs.Interleaving.Replies
import EffectMachine.Proofs.Scheduling.Lines

/-!
# The turns of a batched call

In each of its turns a batched call comes from one station to the next and then gives up the thread.

* `Host.Turn` is what a turn leaves behind on the host, and `callsIn` are the calls that are performed in a trace.
* `Batch.Burst.Served.turn_of_first` is the turn of the call that opens the batch, and
  `Batch.Burst.Served.turn_of_next` that of a call which enrolls in it.
* `Batch.Burst.Served.turn_of_opener` is the turn in which the function is invoked.
* The lemmas of `Host` at the end say what `all` sees when it looks at its tasks.
-/

namespace EffectMachine

/-! ## How a turn begins and ends -/

namespace System

variable {run : Run} {after : Host} {action : Action} {resume : action.Reply → Body}

/-- A process waits. -/
theorem driving_waits (machine : Machine) (task : TaskId) (driver : Driver) {occasions : List Occasion} (habove : run.stack.below ≠ [])
    (hprogress : run.stack.top.progress = .running (.act action resume))
    (hreact : run.host.react action = .wait after occasions) :
    Scheduled machine (driving task driver run) [(task, .waited action)]
      { host := { after.park task (driver.activity run.stack) with schedule := after.schedule.await task occasions } } := by
  obtain ⟨hstep, hacts⟩ := step_driving machine task driver habove
  obtain ⟨hwaits, hwaited⟩ : machine.step run = _ ∧ machine.stepActs run = _ := Machine.step_wait hprogress hreact
  rw [hwaits] at hstep
  rw [hwaited] at hacts
  have hsingle := Scheduled.single hstep
  rw [hacts] at hsingle
  exact hsingle

/-- A process gives up its turn. -/
theorem driving_givesWay (machine : Machine) (task : TaskId) (driver : Driver) {reply : action.Reply} (habove : run.stack.below ≠ [])
    (hprogress : run.stack.top.progress = .running (.act action resume))
    (hreact : run.host.react action = .giveWay after reply) :
    Scheduled machine (driving task driver run) [(task, .acted action reply)]
      { host := { after.park task (driver.activity (Machine.replied run.stack action resume reply)) with
          schedule := (after.schedule.proceed task).giveWay task } } := by
  obtain ⟨hstep, hacts⟩ := step_driving machine task driver habove
  obtain ⟨hgives, hacted⟩ : machine.step run = _ ∧ machine.stepActs run = _ := Machine.step_giveWay hprogress hreact
  rw [hgives] at hstep
  rw [hacted] at hacts
  have hsingle := Scheduled.single hstep
  rw [hacts] at hsingle
  exact hsingle

/-- A forked task begins. -/
theorem begins (machine : Machine) (task : TaskId) (context : Context) (effect : Effect) (host : Host) :
    Scheduled machine { host, current := some (task, .forked context effect) }
      ((machine.handleActs effect { stack := { context, signal := some task }, host }).map fun act => (task, act))
      (driving task .task (Run.proceed task (machine.begin context (some task) effect host))) :=
  .single rfl

/-- A task ends whose stack is down to its root. -/
theorem driving_ends {machine : Machine} {task : TaskId} {stack : Stack} {host : Host} (hbelow : stack.below = []) :
    Scheduled machine (driving task .task { stack, host }) []
      { host := conclude { host with schedule := host.schedule.proceed task } task (.single stack.outcome) } := by
  obtain ⟨context, signal, top, below, canceled⟩ := stack
  obtain rfl : below = [] := hbelow
  have hended : Scheduled machine (driving task .task { stack := ⟨context, signal, top, [], canceled⟩, host }) []
      { host := { host with schedule := host.schedule.proceed task }
        current := some (task, .ended (.single (Stack.outcome ⟨context, signal, top, [], canceled⟩))) } := .single rfl
  exact hended.step rfl

end System

/-- A turn of a process, which stops at some point of its work: nothing else has happened to the processes. -/
structure Host.Turn (task : TaskId) (activity : Activity) (batches : Batches) (host later : Host) : Prop where
  processes : later.processes = (host.park task activity).processes
  batches : later.batches = batches
  scheduled : later.scheduled = host.scheduled

namespace Host.Turn

variable {task other : TaskId} {activity : Activity} {batches : Batches} {host later : Host}

theorem isCanceled (turn : host.Turn task activity batches later) (other : TaskId) :
    later.isCanceled other = host.isCanceled other := by
  unfold Host.isCanceled
  rw [turn.processes, Host.park, List.getElem?_modify]
  cases host.processes[other.index]? with
  | none => rfl
  | some process =>
      rw [Option.map_eq_map, Option.map_some]
      split <;> rfl

theorem activity_other (turn : host.Turn task activity batches later) (hother : other ≠ task) :
    later.processes[other.index]?.map Process.activity = host.processes[other.index]?.map Process.activity := by
  rw [turn.processes, Host.park_other _ fun hindex => hother (congrArg TaskId.mk hindex.symm)]

theorem activity_self (turn : host.Turn task activity batches later) {before : Activity}
    (hbefore : host.processes[task.index]?.map Process.activity = some before) :
    later.processes[task.index]?.map Process.activity = some activity := by
  obtain ⟨process, hprocess, -⟩ := Option.map_eq_some_iff.1 hbefore
  rw [turn.processes]
  exact Host.activity_park_self activity hprocess

end Host.Turn

/-! ## The calls that are performed -/

/-- The calls of functions that are performed, in order. -/
def callsIn (trace : Trace) : List Effect :=
  trace.filterMap fun entry => entry.2.call?

theorem callsIn_append (trace more : Trace) : callsIn (trace ++ more) = callsIn trace ++ callsIn more :=
  List.filterMap_append

theorem callsIn_own (task : TaskId) (acts : List Act) :
    callsIn (acts.map fun act => (task, act)) = acts.filterMap Act.call? := by
  unfold callsIn
  rw [List.filterMap_map]
  rfl

theorem Scheduled.of_goesTo {machine : Machine} {task : TaskId} {run : Run} {acts : List Act} {stack : Stack} {host : Host}
    (goesTo : GoesTo machine task run acts stack host) (driver : Driver) :
    ∃ later, Scheduled machine (.driving task driver run) (acts.map fun act => (task, act))
      (.driving task driver { stack, host := later }) ∧ host.Still task later := by
  obtain ⟨later, ahead, still⟩ := goesTo
  exact ⟨later, ahead.scheduled driver, still⟩

namespace Host.Still

variable {task : TaskId} {host later : Host} {activity : Activity} {schedule : Schedule}

theorem line (still : host.Still task later) : later.schedule.line = host.schedule.line := by
  unfold Schedule.line
  rw [still.ready, still.yielded]

/-- A process stops after a turn in which nothing else has happened but to the batches. -/
theorem turn {first : Host} (still : host.Still task later) (hprocesses : host.processes = first.processes)
    (hscheduled : host.scheduled = first.scheduled) :
    first.Turn task activity host.batches { later.park task activity with schedule } where
  processes := by
    show (later.park task activity).processes = _
    unfold Host.park
    rw [still.processes, hprocesses]
  batches := still.batches
  scheduled := still.scheduled.trans hscheduled

end Host.Still

namespace Batch.Burst

variable {burst : Burst} {machine : Machine} {context : Context} {task : TaskId} {rest : List TaskId} {host : Host}
variable {args : List Value}

/-- A call whose batch is open enrolls in its first turn and waits. -/
theorem Served.turn_of_next (served : burst.Served machine) (hperforms : burst.Performs machine args)
    (hnodup : host.schedule.line.Nodup) (hline : host.schedule.line = task :: rest)
    (hactivity : host.processes[task.index]?.map Process.activity = some (.forked context (burst.call args)))
    (hcalm : host.isCanceled task = false) (hopen : host.batches.callsOf burst.group ≠ []) :
    ∃ trace later, Scheduled machine { host } trace { host := later } ∧ callsIn trace = [] ∧
      (∀ other, other ≠ task → deeds trace other = []) ∧
      host.Turn task (.task (burst.caller context task (.running (awaitAnswer ⟨host.batches.slots.length⟩))))
        (host.batches.enroll burst.group args).2 later ∧
      later.schedule.line = rest ∧ ⟨task, [.settled ⟨host.batches.slots.length⟩]⟩ ∈ later.schedule.waiting := by
  obtain ⟨schedule, hturn, hrest, -, hwoken, -⟩ := System.exists_turn_of_line machine hnodup hline hactivity rfl
  have hjoined : burst.joined (host.batches.enroll burst.group args).1 = awaitAnswer ⟨host.batches.slots.length⟩ := by
    have hclosed : (host.batches.enroll burst.group args).1.opened = false := by
      rw [← Bool.not_eq_true, Batches.opened_enroll_iff]
      exact hopen
    unfold joined
    rw [hclosed]
    rfl
  have hcalls := served.goesTo_joined context task { host with schedule } hperforms hcalm
  obtain ⟨later, hgoes, still⟩ := Scheduled.of_goesTo (hjoined ▸ hcalls) .task
  have hpending : later.batches.stateOf ⟨host.batches.slots.length⟩ = .pending := by
    rw [still.batches]
    simp [Batches.enroll, Batches.stateOf]
  have hreact : later.react (.receive ⟨host.batches.slots.length⟩) = .wait later [.settled ⟨host.batches.slots.length⟩] := by
    rw [Host.react, hpending]
  have habove : (burst.caller context task (.running (awaitAnswer ⟨host.batches.slots.length⟩))).below ≠ [] := by simp [caller]
  have hwaits := System.driving_waits machine task .task (show ({
    stack := burst.caller context task (.running (awaitAnswer ⟨host.batches.slots.length⟩)), host := later } : Run).stack.below ≠ []
    from habove) rfl hreact
  have hbegins := System.begins machine task context (burst.call args) { host with schedule }
  have hacts : machine.handleActs (burst.call args) { stack := { context, signal := some task }, host := { host with schedule } } =
      [.pushed (machine.invoke burst.batched args) none] := Machine.handleActs_call served.call served.calls _ _ _
  rw [hacts] at hbegins
  have hlater : later.schedule.woken = false := still.woken.trans hwoken
  refine ⟨_, _, (hturn.trans hbegins).trans (hgoes.trans hwaits), rfl, ?_, ?_, ?_, Schedule.mem_waiting_await _ _ _⟩
  · intro other hother
    simp [deeds, Ne.symm hother]
  · exact still.turn rfl rfl
  · exact (Schedule.line_await hlater (.inr (by simp [Schedule.crowd]))).1.trans (still.line.trans hrest)

/-- The first of the calls opens a batch in its first turn, and gives up its turn. -/
theorem Served.turn_of_first (served : burst.Served machine) (hperforms : burst.Performs machine args)
    (hnodup : host.schedule.line.Nodup) (hline : host.schedule.line = task :: rest) (hyielded : host.schedule.yielded = [])
    (hactivity : host.processes[task.index]?.map Process.activity = some (.forked context (burst.call args)))
    (hcalm : host.isCanceled task = false) (hclosed : host.batches.callsOf burst.group = []) :
    ∃ trace later, Scheduled machine { host } trace { host := later } ∧ callsIn trace = [] ∧
      (∀ other, other ≠ task → deeds trace other = []) ∧
      deeds trace task = [.pushed (machine.invoke burst.batched args) none, .resumed (.ok .null),
        .performed (burst.operation args), .pushed (handle burst.group.batcher 0 (burst.operation args)) (some ⟨executing, 0⟩),
        .resumed (.ok .null), .acted (.enroll burst.group args) (host.batches.enroll burst.group args).1,
        .acted (.emit (.batchOpened burst.function.name burst.group.key)) (),
        .performed (.bare (flush burst.group burst.function 0)), .pushed (flush burst.group burst.function 0) none,
        .resumed (.ok .null), .acted .yieldTurn ()] ∧
      host.Turn task (.task (burst.opener context task ⟨host.batches.slots.length⟩
          (.running (flushNow burst.group burst.function)) (.ok .null) []))
        (host.batches.enroll burst.group args).2 later ∧
      later.schedule.line = rest ++ [task] := by
  obtain ⟨schedule, hturn, hrest, -, hwoken, hnobody⟩ := System.exists_turn_of_line machine hnodup hline hactivity rfl
  have hopened : (host.batches.enroll burst.group args).1.opened = true := (Batches.opened_enroll_iff ..).2 hclosed
  have hjoined := served.goesTo_joined context task { host with schedule } hperforms hcalm
  obtain ⟨later, hgoes, still⟩ := Scheduled.of_goesTo (served.goesTo_yield hjoined hcalm hopened) .task
  have hreact : later.react .yieldTurn = .giveWay later () := rfl
  have habove : (burst.opener context task ⟨host.batches.slots.length⟩
      (.running (.act .yieldTurn fun _ => flushNow burst.group burst.function)) (.ok .null) []).below ≠ [] := by
    simp [opener, Stack.push]
  have hgivesWay := System.driving_givesWay machine task .task (show ({
    stack := burst.opener context task ⟨host.batches.slots.length⟩
      (.running (.act .yieldTurn fun _ => flushNow burst.group burst.function)) (.ok .null) []
    host := later } : Run).stack.below ≠ [] from habove) rfl hreact
  have hbegins := System.begins machine task context (burst.call args) { host with schedule }
  have hacts : machine.handleActs (burst.call args) { stack := { context, signal := some task }, host := { host with schedule } } =
      [.pushed (machine.invoke burst.batched args) none] := Machine.handleActs_call served.call served.calls _ _ _
  rw [hacts] at hbegins
  refine ⟨_, _, (hturn.trans hbegins).trans (hgoes.trans hgivesWay), rfl, ?_, ?_, ?_, ?_⟩
  · intro other hother
    simp [deeds, Ne.symm hother]
  · simp [deeds]
  · exact still.turn rfl rfl
  · have hstands : (later.schedule.proceed task).yielded = [] := still.yielded.trans (hnobody hyielded)
    have hasleep : (later.schedule.proceed task).woken = false := still.woken.trans hwoken
    have hline := Schedule.line_giveWay hasleep hstands task
    exact hline.trans (congrArg (· ++ [task]) (still.line.trans hrest))

/-- The call that has opened the batch flushes it in its second turn: it invokes the function. -/
theorem Served.turn_of_opener {slot : Slot} (served : burst.Served machine) (hnodup : host.schedule.line.Nodup)
    (hline : host.schedule.line = task :: rest)
    (hactivity : host.processes[task.index]?.map Process.activity = some (.task (burst.opener context task slot
      (.running (flushNow burst.group burst.function)) (.ok .null) [])))
    (hcalm : host.isCanceled task = false) {calls : List Enrolled} (hcalls : host.batches.callsOf burst.group = calls) :
    ∃ trace later, Scheduled machine { host } trace (.driving task .task
        { stack := (burst.opener context task slot (.suspended (burst.delivery calls)) (.ok .null)
              (calls.map Enrolled.slot)).push
            (.ofComputation (machine.invoke burst.function ((calls.map Enrolled.args).map Value.list)) none)
          host := later }) ∧
      callsIn trace = [burst.invocation calls] ∧ (∀ other, other ≠ task → deeds trace other = []) ∧
      deeds trace task = [.acted (.collect burst.group) calls,
        .acted (.emit (.batchFlushed burst.function.name calls.length)) (), .performed (burst.invocation calls),
        .pushed (machine.invoke burst.function ((calls.map Enrolled.args).map Value.list)) none] ∧
      later.processes = host.processes ∧ later.batches = host.batches.remove burst.group := by
  subst hcalls
  obtain ⟨schedule, hturn, -⟩ := System.exists_turn_of_line machine hnodup hline hactivity rfl
  obtain ⟨later, hgoes, still⟩ := Scheduled.of_goesTo (served.goesTo_function
    (goesTo_invocation burst machine context task slot { host with schedule }) hcalm) .task
  refine ⟨_, later, hturn.trans hgoes, rfl, ?_, ?_, still.processes, still.batches⟩
  · intro other hother
    simp [deeds, Ne.symm hother]
  · simp [deeds]

end Batch.Burst

/-! ## The turn of a process that waits for tasks -/

namespace Host

/-- Nothing is taken from tasks that have not ended. -/
theorem collectAll_of_going {host : Host} {tasks : List TaskId} (hgoing : ∀ task ∈ tasks, host.outcome? task = none) :
    tasks.foldl collect host = host := by
  induction tasks with
  | nil => rfl
  | cons task tasks ih =>
      have hkept : host.collect task = host := by
        unfold collect isSettled
        rw [hgoing task List.mem_cons_self]
        rfl
      rw [List.foldl_cons, hkept]
      exact ih fun task hmem => hgoing task (List.mem_cons_of_mem _ hmem)

theorem untilFailure_of_going {host : Host} {tasks : List TaskId} (hgoing : ∀ task ∈ tasks, host.outcome? task = none) :
    host.untilFailure tasks = tasks := by
  induction tasks with
  | nil => rfl
  | cons task tasks ih =>
      unfold untilFailure
      rw [hgoing task List.mem_cons_self, ih fun task hmem => hgoing task (List.mem_cons_of_mem _ hmem)]

/-- There is nothing to tell of some tasks while one has not ended and none has failed. -/
theorem firstFailure?_of_going {host : Host} {tasks : List TaskId} (hgoing : ∃ task ∈ tasks, host.outcome? task = none)
    (hwell : ∀ task ∈ tasks, ∀ error, host.outcome? task ≠ some (.error error)) : host.firstFailure? tasks = none := by
  obtain ⟨unended, hmem, hunended⟩ := hgoing
  cases hanswer : host.firstFailure? tasks with
  | none => rfl
  | some answer =>
      cases answer with
      | error error =>
          obtain ⟨failed, hfailed, houtcome⟩ := exists_of_firstFailure? hanswer
          exact absurd houtcome (hwell failed hfailed error)
      | ok values =>
          have hsettled := isSettled_of_allOutcomes? (allOutcomes?_of_firstFailure? hanswer) unended hmem
          simp [isSettled, hunended] at hsettled

/-- Whoever waits for the first failure of some tasks waits on while there is nothing to tell. -/
theorem react_firstFailure {host : Host} {tasks : List TaskId} (hnone : host.firstFailure? tasks = none) :
    host.react (.firstFailure tasks) = .wait ((host.untilFailure tasks).foldl collect host) (tasks.map .ended) := by
  show host.look (host.untilFailure tasks) tasks (host.firstFailure? tasks) = _
  rw [hnone]
  rfl

/-- Whoever waits for the first failure of some tasks takes nothing while none of them has ended. -/
theorem react_firstFailure_of_going {host : Host} {tasks : List TaskId} (hsome : tasks ≠ [])
    (hgoing : ∀ task ∈ tasks, host.outcome? task = none) :
    host.react (.firstFailure tasks) = .wait host (tasks.map .ended) := by
  obtain ⟨task, hmem⟩ := List.exists_mem_of_ne_nil tasks hsome
  have hnone := firstFailure?_of_going ⟨task, hmem, hgoing task hmem⟩ fun task hmem error => by simp [hgoing task hmem]
  rw [react_firstFailure hnone, untilFailure_of_going hgoing, collectAll_of_going hgoing]

/-- When all tasks have succeeded, their values are told. -/
theorem firstFailure?_of_values {host : Host} {tasks : List TaskId} {values : List Value}
    (hvalues : tasks.map host.outcome? = values.map fun value => some (.ok value)) :
    host.firstFailure? tasks = some (.ok values) := by
  induction tasks generalizing values with
  | nil =>
      cases values with
      | nil => rfl
      | cons => cases hvalues
  | cons task tasks ih =>
      cases values with
      | nil => cases hvalues
      | cons value values =>
          obtain ⟨hfirst, hrest⟩ := List.cons.inj hvalues
          unfold firstFailure?
          rw [hfirst, ih hrest]

end Host
end EffectMachine
