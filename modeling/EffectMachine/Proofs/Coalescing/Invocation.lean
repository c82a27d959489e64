import EffectMachine.Proofs.Coalescing.Enrolment

/-!
# One invocation for all calls

`all` is given some calls of a batched function with one key, on a host where nobody else can run and no batch of
their group is open.  It forks them, they enroll one after another in one scheduling turn, and the first of them
flushes their batch: the function is invoked once, with the argument lists of all calls in order.

* `Batch.Burst.invoking` is the system that invokes the function, and `Batch.Burst.Awaited` says of it that everybody
  else waits.
* `Batch.Burst.Served.invokes_once` says that it is reached, with one invocation on the way.
-/

namespace EffectMachine

/-- A process that is doing something has no outcome. -/
theorem Host.outcome?_of_going {host : Host} {task : TaskId} {activity : Activity}
    (hactivity : host.processes[task.index]?.map Process.activity = some activity) (hgoing : activity.report? = none) :
    host.outcome? task = none := by
  obtain ⟨process, hprocess, rfl⟩ := Option.map_eq_some_iff.1 hactivity
  have hreport : process.report? = none := hgoing
  simp [Host.outcome?, Host.report?, hprocess, hreport]

namespace System.Parked

/-- Where a process is that waits while nobody runs. -/
theorem activity_eq {host : Host} {task : TaskId} {activity : Activity} {occasions : List Occasion}
    (parked : System.Parked { host } task activity occasions) :
    host.processes[task.index]?.map Process.activity = some activity ∧ ⟨task, occasions⟩ ∈ host.schedule.waiting := by
  cases parked with
  | running hcurrent => cases hcurrent
  | stopped _ hactivity hwaits => exact ⟨hactivity, hwaits⟩

end System.Parked

namespace Batch.Burst

open Concurrent

variable {burst : Burst} {machine : Machine} {context : Context} {main : TaskId} {place slot : Nat} {driver : Driver}
variable {stack : Stack} {tag : Option HandlerTag} {tuples : List (List Value)} {host : Host} {behind : List TaskId}

/-- The system that invokes the function for some calls: the first of them flushes their batch. -/
def invoking (burst : Burst) (machine : Machine) (context : Context) (place slot : Nat) (tuples : List (List Value))
    (host : Host) : System :=
  .driving ⟨place⟩ .task
    { stack := (burst.opener context ⟨place⟩ ⟨slot⟩ (.suspended (burst.delivery (enrolledFrom slot tuples))) (.ok .null)
          ((enrolledFrom slot tuples).map Enrolled.slot)).push
        (.ofComputation (machine.invoke burst.function (tuples.map Value.list)) none)
      host }

/-- Everybody waits but the first call: `all` for the tasks of all calls, and each other call for its answer. -/
structure Awaited (burst : Burst) (context : Context) (main : TaskId) (driver : Driver) (stack : Stack)
    (tag : Option HandlerTag) (place slot calls : Nat) (system : System) : Prop where
  all : system.Parked main (atJoin driver stack tag (tasksFrom place calls)) ((tasksFrom place calls).map .ended)
  others : ∀ index, 0 < index → index < calls → system.Parked ⟨place + index⟩
    (burst.waiting context ⟨place + index⟩ ⟨slot + index⟩) [.settled ⟨slot + index⟩]
  pending : ∀ index, index < calls → system.host.batches.slots[slot + index]? = some .pending
  going : ∀ task ∈ tasksFrom place calls, system.host.outcome? task = none

namespace Awaited

variable {calls : Nat} {system later : System} {trace : Trace}

/-- Everybody waits on, and does nothing else, as long as no call is answered and no task ends. -/
theorem kept (awaited : burst.Awaited context main driver stack tag place slot calls system) (hsome : 0 < calls)
    (scheduled : Scheduled machine system trace later) (hsound : system.Sound)
    (hpending : ∀ index, index < calls → later.host.batches.slots[slot + index]? = some .pending)
    (hgoing : ∀ task ∈ tasksFrom place calls, later.host.outcome? task = none) :
    burst.Awaited context main driver stack tag place slot calls later ∧ OnlyWaits (deeds trace main) ∧
      ∀ index, 0 < index → index < calls → OnlyWaits (deeds trace ⟨place + index⟩) := by
  have hfirst : (⟨place⟩ : TaskId) ∈ tasksFrom place calls := mem_tasksFrom.2 ⟨Nat.le_refl _, by simpa using hsome⟩
  obtain ⟨hall, hmain⟩ := parked_atJoin scheduled hsound
    ⟨⟨⟨place⟩, hfirst, hgoing _ hfirst⟩, fun task hmem error => by simp [hgoing task hmem]⟩ awaited.all
  have hothers (index : Nat) (hpos : 0 < index) (hless : index < calls) :=
    parked_waiting scheduled hsound (awaited.pending index hless) (hpending index hless) (awaited.others index hpos hless)
  exact ⟨⟨hall, fun index hpos hless => (hothers index hpos hless).1, hpending, hgoing⟩, hmain,
    fun index hpos hless => (hothers index hpos hless).2⟩

end Awaited

namespace Enrolling

/-- When all calls have enrolled, none of them has ended. -/
theorem going (enrolling : burst.Enrolling context place slot behind tuples [] host) (hsome : tuples ≠ [])
    (hparked : ∀ index, 0 < index → index < tuples.length → System.Parked { host } ⟨place + index⟩
      (burst.waiting context ⟨place + index⟩ ⟨slot + index⟩) [.settled ⟨slot + index⟩]) :
    ∀ task ∈ tasksFrom place tuples.length, host.outcome? task = none := by
  intro task hmem
  obtain ⟨hfrom, hto⟩ := mem_tasksFrom.1 hmem
  obtain ⟨index, hindex⟩ := Nat.exists_eq_add_of_le hfrom
  obtain rfl : task = ⟨place + index⟩ := congrArg TaskId.mk hindex
  rcases Nat.eq_zero_or_pos index with rfl | hpos
  · exact Host.outcome?_of_going (enrolling.opener hsome) rfl
  · exact Host.outcome?_of_going (hparked index hpos (by simpa using hto)).activity_eq.1 rfl

/-- Whoever stands before the first call may have a turn to find that it has to wait on. -/
theorem turn_of_main (enrolling : burst.Enrolling context place slot [main, ⟨place⟩] tuples [] host)
    (hmain : main.index < place) (hsome : tuples ≠ [])
    (hgoing : ∀ task ∈ tasksFrom place tuples.length, host.outcome? task = none)
    (hparked : System.Parked { host } main (atJoin driver stack tag (tasksFrom place tuples.length))
      ((tasksFrom place tuples.length).map .ended)) :
    ∃ trace later, Scheduled machine { host } trace { host := later } ∧ callsIn trace = [] ∧
      burst.Enrolling context place slot [⟨place⟩] tuples [] later ∧
      ∀ task ∈ tasksFrom place tuples.length, later.outcome? task = none := by
  obtain ⟨hactivity, hwaits⟩ := hparked.activity_eq
  have hline : host.schedule.line = main :: [⟨place⟩] := enrolling.line
  obtain ⟨schedule, hturn, hrest, hwaiting, hwoken, -⟩ := System.exists_turn_of_line machine enrolling.nodup
    hline hactivity (driver.going _)
  have htasks : tasksFrom place tuples.length ≠ [] := by simpa [tasksFrom] using hsome
  have hreact : ({ host with schedule } : Host).react (.firstFailure (tasksFrom place tuples.length)) =
      .wait { host with schedule } ((tasksFrom place tuples.length).map .ended) :=
    Host.react_firstFailure_of_going htasks hgoing
  have hstops := waits_at_join machine main driver stack tag hreact
  have hagain : schedule.isWaiting main = true := by
    unfold Schedule.isWaiting
    rw [hwaiting]
    exact List.any_eq_true.2 ⟨_, hwaits, by simp⟩
  have hlater : (schedule.await main ((tasksFrom place tuples.length).map .ended)).line = _ :=
    (Schedule.line_await hwoken (.inl hagain)).1.trans hrest
  have turn : host.Turn main (atJoin driver stack tag (tasksFrom place tuples.length)) host.batches
      { ({ host with schedule } : Host).park main (atJoin driver stack tag (tasksFrom place tuples.length)) with
        schedule := schedule.await main ((tasksFrom place tuples.length).map .ended) } := ⟨rfl, rfl, rfl⟩
  have hother (index : Nat) : (⟨place + index⟩ : TaskId) ≠ main := fun hsame => by
    have hindex : place + index = main.index := congrArg TaskId.index hsame
    omega
  refine ⟨_, _, hturn.trans hstops, rfl, ⟨hlater, ?_, fun index args hnone => by simp at hnone, fun hsome => ?_, fun index hless => ?_,
    enrolling.slots, enrolling.pending, enrolling.calls⟩, fun task hmem => ?_⟩
  · rw [hlater]
    exact List.nodup_cons.2 ⟨List.not_mem_nil, List.nodup_nil⟩
  · exact (turn.activity_other (hother 0)).trans (enrolling.opener hsome)
  · exact (turn.isCanceled _).trans (enrolling.calm index hless)
  · exact Host.outcome?_park (fun hsame => absurd (hsame ▸ (mem_tasksFrom.1 hmem).1) (Nat.not_le.2 hmain)) (hgoing task hmem)

end Enrolling

/-- Nobody can run on a host but the process that is running, and no batch of a group is open. -/
structure Idle (burst : Burst) (host : Host) : Prop where
  scheduled : host.scheduled = true
  ready : host.schedule.ready = []
  yielded : host.schedule.yielded = []
  closed : host.batches.callsOf burst.group = []

/-- When `all` has forked its calls, they are about to enroll. -/
theorem enrolling_of_forked {later : Host} (idle : burst.Idle host) (hmain : main.index < host.processes.length)
    (hbehind : behind = [] ∨ behind = [main])
    (turn : (host.forkAll context (tuples.map burst.call)).Turn main
      (atJoin driver stack tag (tasksFrom host.processes.length tuples.length)) host.batches later)
    (hline : later.schedule.line = tasksFrom host.processes.length tuples.length ++ behind) :
    burst.Enrolling context host.processes.length host.batches.slots.length behind [] tuples later := by
  have hready : ∀ task ∈ host.schedule.ready, task.index < host.processes.length := by simp [idle.ready]
  have hprocess {index : Nat} {args : List Value} (hargs : tuples[index]? = some args) :
      (host.forkAll context (tuples.map burst.call)).processes[host.processes.length + index]? =
        some { activity := .forked context (burst.call args) } :=
    Host.getElem?_forkAll context hready (by rw [List.getElem?_map, hargs]; rfl)
  have hother (index : Nat) : (⟨host.processes.length + index⟩ : TaskId) ≠ main := fun hsame => by
    have hindex : host.processes.length + index = main.index := congrArg TaskId.index hsame
    omega
  refine ⟨hline, ?_, fun index args hargs => ?_, fun hsome => absurd rfl hsome, fun index hless => ?_, ?_,
    fun index hless => absurd hless (Nat.not_lt_zero _), ?_⟩
  · rw [hline]
    rcases hbehind with rfl | rfl
    · simpa using nodup_tasksFrom _ _
    · refine List.nodup_append.2 ⟨nodup_tasksFrom _ _, List.nodup_cons.2 ⟨List.not_mem_nil, List.nodup_nil⟩, fun task hmem other hlast hsame => ?_⟩
      rw [hsame, List.mem_singleton.1 hlast] at hmem
      have hfrom := (mem_tasksFrom.1 hmem).1
      omega
  · rw [List.length_nil, Nat.add_zero]
    exact (turn.activity_other (hother index)).trans (by rw [hprocess hargs]; rfl)
  · have hless : index < tuples.length := by simpa using hless
    rw [turn.isCanceled, Host.isCanceled, hprocess (List.getElem?_eq_getElem hless)]
    rfl
  · rw [turn.batches]
    rfl
  · rw [turn.batches, idle.closed]
    rfl

/-- `all` forks the calls and waits, they enroll and wait, and the first of them invokes the function for all: once, with
their argument lists in order. -/
theorem Served.invokes_once (served : burst.Served machine) (tag : Option HandlerTag)
    (hperforms : ∀ args ∈ tuples, burst.Performs machine args) (hsome : tuples ≠ []) (driver : Driver) (calm : Run.Calm { stack, host }) (idle : burst.Idle host)
    (hmain : main.index < host.processes.length) :
    ∃ trace later, Scheduled machine (.driving main driver
        { stack := forkingStack stack tag (.fresh (forkEach [] await (tuples.map burst.call))) (.ok .null), host })
        trace (burst.invoking machine stack.context host.processes.length host.batches.slots.length tuples later) ∧
      callsIn trace = [.call burst.function (tuples.map Value.list)] ∧
      burst.Awaited stack.context main driver stack tag host.processes.length host.batches.slots.length tuples.length
        (burst.invoking machine stack.context host.processes.length host.batches.slots.length tuples later) := by
  obtain ⟨forking, forked, hforking, hforks, -, turn, hyielded, ⟨behind, hbehind, hline⟩, hwaits⟩ :=
    served.turn_of_all tag hsome driver calm idle.scheduled idle.ready idle.yielded hmain
  have enrolling := enrolling_of_forked idle hmain hbehind turn hline
  have hnobodyReady : ∀ task ∈ host.schedule.ready, task.index < host.processes.length := by simp [idle.ready]
  have hforkall := Host.forkAll_eq stack.context (tuples.map burst.call) hnobodyReady
  have hsound (host : Host) : ({ host } : System).Sound := fun _ _ => nofun
  obtain ⟨args, left, rfl⟩ := List.exists_cons_of_ne_nil hsome
  -- the first call opens a batch, and the others enroll in it
  obtain ⟨opening, opened, hopening, hopens, -, first⟩ :=
    enrolling.first served (hperforms args List.mem_cons_self) hyielded
  obtain ⟨joining, joined, hjoining, hjoins, -, hall, hparked⟩ := first.run served
    (fun args hmem => hperforms args (List.mem_cons_of_mem _ hmem)) (by simp)
    (fun index hpos hless => absurd hless (Nat.not_lt.2 hpos))
  have hgoing := hall.going (by simp) hparked
  -- meanwhile `all` waits for them
  have hactivity : (host.forkAll stack.context ((args :: left).map burst.call)).processes[main.index]?.map Process.activity =
      some host.processes[main.index].activity := by
    rw [hforkall, List.getElem?_append_left hmain, List.getElem?_eq_getElem hmain]
    rfl
  have hfirst : (⟨host.processes.length⟩ : TaskId) ∈ tasksFrom host.processes.length (args :: left).length :=
    mem_tasksFrom.2 ⟨Nat.le_refl _, by simp⟩
  have hwaiting : System.Parked { host := forked } main (atJoin driver stack tag (tasksFrom host.processes.length
      (args :: left).length)) ((tasksFrom host.processes.length (args :: left).length).map .ended) :=
    .stopped (fun _ => nofun) (turn.activity_self hactivity) hwaits
      (.inr ⟨_, List.mem_map_of_mem hfirst, .ended (Host.outcome?_of_going (enrolling.forked 0 args rfl) rfl)⟩)
  have hmeanwhile := (parked_atJoin (hopening.trans hjoining) (hsound _)
    ⟨⟨_, hfirst, hgoing _ hfirst⟩, fun task hmem error => by simp [hgoing task hmem]⟩ hwaiting).1
  have awaited : burst.Awaited stack.context main driver stack tag host.processes.length host.batches.slots.length
      (args :: left).length { host := joined } := ⟨hmeanwhile, hparked, hall.pending, hgoing⟩
  -- nobody stands before the first call any more
  obtain ⟨looking, ready, hlooking, hlooks, hready, hstill⟩ : ∃ trace later, Scheduled machine { host := joined } trace
      { host := later } ∧ callsIn trace = [] ∧ burst.Enrolling stack.context host.processes.length
        host.batches.slots.length [⟨host.processes.length⟩] (args :: left) [] later ∧
      ∀ task ∈ tasksFrom host.processes.length (args :: left).length, later.outcome? task = none := by
    rcases hbehind with rfl | rfl
    · exact ⟨[], joined, .start, rfl, hall, hgoing⟩
    · exact hall.turn_of_main hmain (by simp) hgoing hmeanwhile
  obtain ⟨flushing, later, hflushing, hflushes, -, -, hprocesses, hbatches⟩ := served.turn_of_opener hready.nodup hready.line
    (hready.opener (by simp)) (hready.calm 0 (by simp)) hready.calls
  rw [map_args_enrolledFrom] at hflushing
  refine ⟨_, later, (((hforking.trans hopening).trans hjoining).trans hlooking).trans hflushing, ?_, ?_⟩
  · simp only [callsIn_append, hforks, hopens, hjoins, hlooks, hflushes, List.nil_append]
    rw [invocation, Batch.invocation, map_args_enrolledFrom]
  · refine (awaited.kept (by simp) (hlooking.trans hflushing) (hsound _) (fun index hless => ?_) fun task hmem => ?_).1
    · show later.batches.slots[_]? = _
      rw [hbatches]
      exact hready.pending index hless
    · rw [← hstill task hmem]
      show later.outcome? task = _
      unfold Host.outcome? Host.report?
      rw [hprocesses]

end Batch.Burst
end EffectMachine
