import EffectMachine.Proofs.Coalescing.Forks

/-!
# The enrolment of calls

The tasks of some calls stand in line, and each of them enrolls in its turn.  The first one opens the batch and queues up
again behind all others, so it is next when all have enrolled.

* `Batch.Burst.waiting` and `Concurrent.atJoin` are what a call and `all` do while they wait, and
  `Batch.Burst.parked_waiting` and `Concurrent.parked_atJoin` say that they stay there.
* `Batch.Burst.Enrolling` says how far the enrolment has come.
* `Batch.Burst.Enrolling.first` and `Batch.Burst.Enrolling.step` are the turns of the calls, and
  `Batch.Burst.Enrolling.run` puts them together.
-/

namespace EffectMachine
namespace Batch

/-- Calls that are enrolled one after another, from some slot on. -/
def enrolledFrom (slot : Nat) (tuples : List (List Value)) : List Enrolled :=
  (tuples.zipIdx slot).map fun entry => ⟨entry.1, ⟨entry.2⟩⟩

theorem enrolledFrom_concat (slot : Nat) (tuples : List (List Value)) (args : List Value) :
    enrolledFrom slot (tuples ++ [args]) = enrolledFrom slot tuples ++ [⟨args, ⟨slot + tuples.length⟩⟩] := by
  simp [enrolledFrom, List.zipIdx_append]

theorem map_args_enrolledFrom (slot : Nat) (tuples : List (List Value)) :
    (enrolledFrom slot tuples).map Enrolled.args = tuples := by
  simp [enrolledFrom, Function.comp_def]

theorem getElem?_enrolledFrom {slot place : Nat} {tuples : List (List Value)} {args : List Value}
    (hargs : tuples[place]? = some args) : (enrolledFrom slot tuples)[place]? = some ⟨args, ⟨slot + place⟩⟩ := by
  simp [enrolledFrom, hargs]

namespace Burst

variable {burst : Burst} {machine : Machine} {context : Context} {task : TaskId} {slot : Slot} {host : Host}

/-! ## Those who wait -/

/-- What a call is doing that waits for its answer. -/
def waiting (burst : Burst) (context : Context) (task : TaskId) (slot : Slot) : Activity :=
  .task (burst.caller context task (.running (awaitAnswer slot)))

/-- A call waits while its slot is pending. -/
theorem waitsOn_settled (burst : Burst) (machine : Machine) (context : Context) (task : TaskId)
    (hpending : host.batches.slots[slot.index]? = some .pending) :
    machine.WaitsOn task (burst.waiting context task slot) [.settled slot] host := by
  have hreact : host.react (.receive slot) = .wait host [.settled slot] := by
    rw [Host.react, Batches.stateOf, hpending]
    rfl
  obtain ⟨hstep, hacts⟩ : machine.step { stack := burst.caller context task (.running (awaitAnswer slot)), host } = _ ∧
      machine.stepActs { stack := burst.caller context task (.running (awaitAnswer slot)), host } = _ :=
    Machine.step_wait rfl hreact
  exact ⟨_, host, congrArg (Stepped.map Activity.task) hstep, hacts, _, List.mem_singleton_self _, .settled hpending⟩

/-- A call that waits for its answer does so, and nothing else, as long as its slot is pending. -/
theorem parked_waiting {system later : System} {trace : Trace} (scheduled : Scheduled machine system trace later)
    (hsound : system.Sound) (hborn : system.host.batches.slots[slot.index]? = some .pending)
    (hpending : later.host.batches.slots[slot.index]? = some .pending)
    (hparked : system.Parked task (burst.waiting context task slot) [.settled slot]) :
    later.Parked task (burst.waiting context task slot) [.settled slot] ∧ OnlyWaits (deeds trace task) := by
  refine scheduled.parked hsound rfl hparked (fun host => burst.waitsOn_settled machine context task) ?_
  intro before middle after hbefore hafter
  obtain ⟨state, hstate⟩ : ∃ state, middle.host.batches.slots[slot.index]? = some state := by
    rcases hbefore.slots hborn with hsame | ⟨-, hsettled⟩
    · exact ⟨_, hsame⟩
    · exact hsettled
  exact hafter.pending_of_pending hstate hpending

end Burst
end Batch

namespace Concurrent

variable {machine : Machine} {main : TaskId} {driver : Driver} {stack : Stack} {tag : Option HandlerTag}
variable {tasks : List TaskId}

/-- What a process is doing that waits for the tasks of `all`. -/
def atJoin (driver : Driver) (stack : Stack) (tag : Option HandlerTag) (tasks : List TaskId) : Activity :=
  driver.activity (forkingStack stack tag (.running (await tasks)) (.ok .null))

/-- There is nothing to tell of some tasks: one has not ended, and none has failed. -/
structure Unsettled (tasks : List TaskId) (host : Host) : Prop where
  going : ∃ task ∈ tasks, host.outcome? task = none
  well : ∀ task ∈ tasks, ∀ error, host.outcome? task ≠ some (.error error)

/-- Whoever waits for the tasks of `all` does so while there is nothing to tell of them. -/
theorem waitsOn_ended (machine : Machine) (main : TaskId) (driver : Driver) (stack : Stack) (tag : Option HandlerTag)
    {host : Host} (unsettled : Unsettled tasks host) :
    machine.WaitsOn main (atJoin driver stack tag tasks) (tasks.map .ended) host := by
  obtain ⟨⟨task, hmem, hgoing⟩, hwell⟩ := unsettled
  have hanswer := Host.firstFailure?_of_going ⟨task, hmem, hgoing⟩ hwell
  obtain ⟨hstep, hacts⟩ : machine.step { stack := forkingStack stack tag (.running (await tasks)) (.ok .null), host } = _ ∧
      machine.stepActs { stack := forkingStack stack tag (.running (await tasks)) (.ok .null), host } = _ :=
    Machine.step_wait rfl (Host.react_firstFailure hanswer)
  have habove : ({ stack := forkingStack stack tag (.running (await tasks)) (.ok .null), host } : Run).stack.below ≠ [] := by
    simp [forkingStack, Stack.push]
  obtain ⟨hadvance, hadvanceActs⟩ := driver.advance_eq machine main habove
  rw [hstep] at hadvance
  rw [hacts] at hadvanceActs
  refine ⟨_, _, hadvance, hadvanceActs, .ended task, List.mem_map_of_mem hmem, .ended ?_⟩
  unfold Host.outcome? at hgoing ⊢
  rw [Host.report?_eq_activities] at hgoing ⊢
  rw [Host.activities_collectAll]
  exact hgoing

/-- There was nothing to tell earlier if there is nothing to tell later. -/
theorem Unsettled.earlier {system later : System} {trace : Trace} (scheduled : Scheduled machine system trace later)
    (hsound : system.Sound) (unsettled : Unsettled tasks later.host) : Unsettled tasks system.host where
  going := by
    obtain ⟨task, hmem, hnone⟩ := unsettled.going
    refine ⟨task, hmem, ?_⟩
    cases houtcome : system.host.outcome? task with
    | none => rfl
    | some outcome => cases hnone.symm.trans (scheduled.outcome? hsound houtcome)
  well := fun task hmem error herror => unsettled.well task hmem error (scheduled.outcome? hsound herror)

/-- Whoever waits for the tasks of `all` does so, and nothing else, while there is nothing to tell of them. -/
theorem parked_atJoin {system later : System} {trace : Trace} (scheduled : Scheduled machine system trace later)
    (hsound : system.Sound) (unsettled : Unsettled tasks later.host)
    (hparked : system.Parked main (atJoin driver stack tag tasks) (tasks.map .ended)) :
    later.Parked main (atJoin driver stack tag tasks) (tasks.map .ended) ∧ OnlyWaits (deeds trace main) :=
  scheduled.parked hsound (driver.going _) hparked (fun _ => waitsOn_ended machine main driver stack tag)
    fun _ _ _ hbefore hafter => unsettled.earlier hafter (hbefore.sound hsound)

end Concurrent

/-! ## One call after another -/

namespace Batch

namespace Burst

/-- Some calls have enrolled, the first of which is to flush the batch, and the others are still to begin.  There may be
someone behind them. -/
structure Enrolling (burst : Burst) (context : Context) (place slot : Nat) (behind : List TaskId)
    (done left : List (List Value)) (host : Host) : Prop where
  line : host.schedule.line = tasksFrom (place + done.length) left.length ++ behind
  nodup : host.schedule.line.Nodup
  forked : ∀ index args, left[index]? = some args →
    host.processes[place + done.length + index]?.map Process.activity = some (.forked context (burst.call args))
  opener : done ≠ [] → host.processes[place]?.map Process.activity = some (.task (burst.opener context ⟨place⟩ ⟨slot⟩
    (.running (flushNow burst.group burst.function)) (.ok .null) []))
  calm : ∀ index, index < done.length + left.length → host.isCanceled ⟨place + index⟩ = false
  slots : host.batches.slots.length = slot + done.length
  pending : ∀ index, index < done.length → host.batches.slots[slot + index]? = some .pending
  calls : host.batches.callsOf burst.group = enrolledFrom slot done

namespace Enrolling

variable {burst : Burst} {machine : Machine} {context : Context} {place slot : Nat} {behind others : List TaskId}
variable {done left : List (List Value)} {args : List Value} {host later : Host} {activity : Activity}

/-- The others are where they were after the turn of a call that has enrolled. -/
theorem after_turn (enrolling : burst.Enrolling context place slot behind done (args :: left) host)
    (turn : host.Turn ⟨place + done.length⟩ activity (host.batches.enroll burst.group args).2 later)
    (hline : later.schedule.line = tasksFrom (place + done.length + 1) left.length ++ others)
    (hnodup : later.schedule.line.Nodup)
    (hopener : later.processes[place]?.map Process.activity = some (.task (burst.opener context ⟨place⟩ ⟨slot⟩
      (.running (flushNow burst.group burst.function)) (.ok .null) []))) :
    burst.Enrolling context place slot others (done ++ [args]) left later := by
  have hother {index : Nat} (hindex : index ≠ done.length) : (⟨place + index⟩ : TaskId) ≠ ⟨place + done.length⟩ :=
    fun hsame => hindex (Nat.add_left_cancel (congrArg TaskId.index hsame))
  have hlength : (done ++ [args]).length = done.length + 1 := List.length_append
  have hslots : later.batches.slots = host.batches.slots ++ [.pending] := by
    rw [turn.batches]
    rfl
  refine ⟨?_, hnodup, fun index more hmore => ?_, fun _ => hopener, fun index hindex => ?_, ?_, fun index hindex => ?_, ?_⟩
  · rw [hline, hlength, Nat.add_assoc]
  · have hgoing := enrolling.forked (index + 1) more hmore
    have hlater : (⟨place + done.length + (index + 1)⟩ : TaskId) ≠ ⟨place + done.length⟩ := by simp [Nat.add_assoc]
    rw [← turn.activity_other hlater] at hgoing
    rw [hlength]
    simpa [Nat.add_assoc, Nat.add_comm 1] using hgoing
  · rw [turn.isCanceled]
    exact enrolling.calm index (by simp at hindex ⊢; omega)
  · rw [hslots, List.length_append, enrolling.slots, hlength]
    rfl
  · rw [hslots]
    rcases Nat.lt_succ_iff_lt_or_eq.1 (hlength ▸ hindex) with hless | rfl
    · rw [List.getElem?_append_left (by rw [enrolling.slots]; omega)]
      exact enrolling.pending index hless
    · rw [← enrolling.slots]
      exact List.getElem?_concat_length
  · rw [turn.batches, Batches.callsOf_enroll, enrolling.calls, enrolledFrom_concat, ← enrolling.slots]
    rfl

/-- The first call opens the batch. -/
theorem first (enrolling : burst.Enrolling context place slot behind [] (args :: left) host)
    (served : burst.Served machine) (hperforms : burst.Performs machine args)
    (hyielded : host.schedule.yielded = []) :
    ∃ trace later, Scheduled machine { host } trace { host := later } ∧ callsIn trace = [] ∧
      deeds trace ⟨place⟩ = [.pushed (machine.invoke burst.batched args) none, .resumed (.ok .null),
        .performed (burst.operation args), .pushed (handle burst.group.batcher 0 (burst.operation args)) (some ⟨executing, 0⟩),
        .resumed (.ok .null), .acted (.enroll burst.group args) (host.batches.enroll burst.group args).1,
        .acted (.emit (.batchOpened burst.function.name burst.group.key)) (),
        .performed (.bare (flush burst.group burst.function 0)), .pushed (flush burst.group burst.function 0) none,
        .resumed (.ok .null), .acted .yieldTurn ()] ∧
      burst.Enrolling context place slot (behind ++ [⟨place⟩]) [args] left later := by
  have hfirst := enrolling.forked 0 args rfl
  obtain ⟨trace, later, scheduled, hcalls, -, hdeeds, turn, hline⟩ := served.turn_of_first hperforms enrolling.nodup enrolling.line
    hyielded hfirst (enrolling.calm 0 (by simp)) enrolling.calls
  rw [enrolling.slots] at turn
  replace hline : later.schedule.line = tasksFrom (place + 1) left.length ++ (behind ++ [⟨place⟩]) :=
    hline.trans (List.append_assoc _ _ _)
  refine ⟨trace, later, scheduled, hcalls, hdeeds, enrolling.after_turn turn hline ?_ (turn.activity_self hfirst)⟩
  rw [hline, ← List.append_assoc, (List.perm_append_singleton _ _).nodup_iff]
  have hnodup := enrolling.nodup
  rwa [enrolling.line] at hnodup

/-- The next call enrolls and waits. -/
theorem step (enrolling : burst.Enrolling context place slot behind done (args :: left) host)
    (served : burst.Served machine) (hperforms : burst.Performs machine args) (hsome : done ≠ []) :
    ∃ trace later, Scheduled machine { host } trace { host := later } ∧ callsIn trace = [] ∧ deeds trace ⟨place⟩ = [] ∧
      burst.Enrolling context place slot behind (done ++ [args]) left later ∧
      System.Parked { host := later } ⟨place + done.length⟩
        (burst.waiting context ⟨place + done.length⟩ ⟨slot + done.length⟩) [.settled ⟨slot + done.length⟩] := by
  have hsomeone : 0 < done.length := List.length_pos_iff.2 hsome
  obtain ⟨trace, later, scheduled, hcalls, hdeeds, turn, hline, hwaits⟩ := served.turn_of_next
    hperforms enrolling.nodup enrolling.line (enrolling.forked 0 args rfl)
    (enrolling.calm done.length (by simp)) (by
      rw [enrolling.calls]
      simpa [enrolledFrom] using hsome)
  rw [enrolling.slots] at turn hwaits
  have hfirst : (⟨place⟩ : TaskId) ≠ ⟨place + done.length⟩ := fun hsame => by
    have hindex := congrArg TaskId.index hsame
    simp at hindex
    exact hsome hindex
  have hnext := enrolling.after_turn turn hline
    (hline ▸ (List.nodup_cons.1 (enrolling.line ▸ enrolling.nodup)).2)
    ((turn.activity_other hfirst).trans (enrolling.opener hsome))
  refine ⟨trace, later, scheduled, hcalls, hdeeds _ hfirst, hnext, .stopped (fun _ => nofun)
    (turn.activity_self (enrolling.forked 0 args rfl)) hwaits (.inr ⟨_, List.mem_cons_self, .settled ?_⟩)⟩
  exact hnext.pending done.length (by simp)

/-- All calls enroll and wait.  The induction is on those that are left. -/
theorem run (enrolling : burst.Enrolling context place slot behind done left host) (served : burst.Served machine)
    (hperforms : ∀ args ∈ left, burst.Performs machine args) (hsome : done ≠ [])
    (hparked : ∀ index, 0 < index → index < done.length → System.Parked { host } ⟨place + index⟩
      (burst.waiting context ⟨place + index⟩ ⟨slot + index⟩) [.settled ⟨slot + index⟩]) :
    ∃ trace later, Scheduled machine { host } trace { host := later } ∧ callsIn trace = [] ∧ deeds trace ⟨place⟩ = [] ∧
      burst.Enrolling context place slot behind (done ++ left) [] later ∧
      ∀ index, 0 < index → index < (done ++ left).length → System.Parked { host := later } ⟨place + index⟩
        (burst.waiting context ⟨place + index⟩ ⟨slot + index⟩) [.settled ⟨slot + index⟩] := by
  induction left generalizing done host with
  | nil => exact ⟨[], host, .start, rfl, rfl, by simpa using enrolling, by simpa using hparked⟩
  | cons args left ih =>
      obtain ⟨trace, later, scheduled, hcalls, hdeeds, hnext, hlast⟩ :=
        enrolling.step served (hperforms args List.mem_cons_self) hsome
      have hlength : (done ++ [args]).length = done.length + 1 := List.length_append
      obtain ⟨more, final, hmore, hmorecalls, hmoredeeds, hfinal, hall⟩ := ih hnext
        (fun args hmem => hperforms args (List.mem_cons_of_mem _ hmem)) (by simp) (fun index hpos hless => by
          rcases Nat.lt_succ_iff_lt_or_eq.1 (hlength ▸ hless) with hearlier | rfl
          · exact (parked_waiting scheduled (fun _ _ => nofun) (enrolling.pending index hearlier)
              (hnext.pending index hless) (hparked index hpos hearlier)).1
          · exact hlast)
      rw [List.append_assoc] at hfinal hall
      refine ⟨trace ++ more, final, scheduled.trans hmore, ?_, ?_, hfinal, hall⟩
      · rw [callsIn_append, hcalls, hmorecalls]
        rfl
      · rw [deeds_append, hdeeds, hmoredeeds]
        rfl

end Enrolling
end Burst
end Batch
end EffectMachine
