import EffectMachine.Proofs.Batch.Owed
import EffectMachine.Proofs.Coalescing.Invocation

/-!
# What coalesced calls come to

When the function has returned one result for each call, the first call answers all calls and ends in the same turn.
Each of the others has a turn then, in which it ends with its own result, and `all` goes on with the list of them.

* `Scheduled.exists_joint` puts together what several processes come to, each in its own time.
* `Batch.Burst.returning` is the system in which the function has returned, and `Batch.Burst.turn_of_returned` what the
  first call does then.
* `Batch.Burst.ends_of_answered` says what becomes of another call, and `Concurrent.replies_of_ended` of `all`.
* `Batch.Burst.Awaited.completes` says that `all` goes on with the results.
-/

namespace EffectMachine

/-! ## Tasks that end -/

/-- From here on nobody keeps the thread for ever, and some tasks are not asked to cancel. -/
structure System.Undisturbed (machine : Machine) (tasks : List TaskId) (system : System) : Prop where
  shares : system.Shares machine
  calm : ∀ trace later, Scheduled machine system trace later → ∀ task ∈ tasks, later.host.isCanceled task = false

/-- A task has ended with a value, and has called no function on the way. -/
structure EndsWith (task : TaskId) (value : Value) (trace : Trace) (system : System) : Prop where
  outcome : system.host.outcome? task = some (.ok value)
  quiet : (deeds trace task).filterMap Act.call? = []

/-- Whoever only waits calls no function. -/
theorem OnlyWaits.quiet {acts : List Act} (honly : OnlyWaits acts) : acts.filterMap Act.call? = [] := by
  refine List.filterMap_eq_nil_iff.2 fun act hmem => ?_
  obtain ⟨action, rfl⟩ := honly act hmem
  rfl

theorem System.outcome?_conclude {host : Host} {task : TaskId} (outcome : Outcome)
    (hless : task.index < host.processes.length) :
    (conclude host task (.single outcome)).outcome? task = some outcome := by
  obtain ⟨process, hprocess⟩ : ∃ process, host.processes[task.index]? = some process :=
    ⟨_, List.getElem?_eq_getElem hless⟩
  have hactivity := Host.activity_park_self (.ended (.single outcome)) hprocess
  obtain ⟨ended, hended, hreport⟩ := Option.map_eq_some_iff.1 hactivity
  show (host.park task (.ended (.single outcome))).outcome? task = some outcome
  simp [Host.outcome?, Host.report?, hended, Process.report?, hreport, Report.outcome?]

namespace Scheduled

variable {machine : Machine} {system later : System} {trace : Trace}

/-- What each of several processes comes to and does not lose again is reached jointly. -/
theorem exists_joint (holds : Nat → Trace → System → Prop) (count : Nat)
    (hkept : ∀ {index trace later more final}, Scheduled machine system trace later → Scheduled machine later more final →
      holds index trace later → holds index (trace ++ more) final)
    (hreached : ∀ index, index < count → ∃ trace later, Scheduled machine system trace later ∧ holds index trace later) :
    ∃ trace later, Scheduled machine system trace later ∧ ∀ index, index < count → holds index trace later := by
  induction count with
  | zero => exact ⟨[], system, .start, fun index hless => absurd hless (Nat.not_lt_zero _)⟩
  | succ count ih =>
      obtain ⟨trace, later, scheduled, hall⟩ := ih fun index hless => hreached index (Nat.lt_succ_of_lt hless)
      obtain ⟨more, final, hmore, hlast⟩ := hreached count (Nat.lt_succ_self _)
      rcases scheduled.total hmore with ⟨rest, hrest, rfl⟩ | ⟨rest, hrest, rfl⟩
      · refine ⟨_, final, hmore, fun index hless => ?_⟩
        rcases Nat.lt_succ_iff_lt_or_eq.1 hless with hearlier | rfl
        · exact hkept scheduled hrest (hall index hearlier)
        · exact hlast
      · refine ⟨_, later, scheduled, fun index hless => ?_⟩
        rcases Nat.lt_succ_iff_lt_or_eq.1 hless with hearlier | rfl
        · exact hall index hearlier
        · exact hkept hmore hrest hlast

/-- A task that has ended has done so for good. -/
theorem endsWith {task : TaskId} {value : Value} {more : Trace} (scheduled : Scheduled machine system trace later)
    (hsound : system.Sound) (ends : EndsWith task value more system) : EndsWith task value (more ++ trace) later where
  outcome := scheduled.outcome? hsound ends.outcome
  quiet := by
    rw [deeds_append, scheduled.deeds_of_ended hsound ends.outcome, List.append_nil]
    exact ends.quiet

end Scheduled

namespace Batch.Burst

variable {burst : Burst} {machine : Machine} {context : Context} {task : TaskId} {slot : Slot} {host : Host} {value : Value}

/-- A call that is answered ends in its turn. -/
theorem turn_of_answered (burst : Burst) (machine : Machine) (context : Context) (hcalm : host.isCanceled task = false)
    (hanswered : host.batches.slots[slot.index]? = some (.answered (.ok value)))
    (hless : task.index < host.processes.length) :
    ∃ trace later, Scheduled machine { host, current := some (task, burst.waiting context task slot) } trace
        { host := later } ∧ EndsWith task value trace { host := later } := by
  obtain ⟨later, hgoes, still⟩ := Scheduled.of_goesTo (burst.goesTo_settled hcalm hanswered
    (GoesTo.start machine task (burst.caller context task (.running (awaitAnswer slot))) host)) .task
  refine ⟨_, _, hgoes.trans (System.driving_ends rfl), System.outcome?_conclude _ ?_, ?_⟩
  · show task.index < later.processes.length
    rwa [still.processes]
  · rw [List.append_nil, deeds_own]
    rfl

/-- A call that waits ends when it has been answered. -/
theorem ends_of_answered {system later : System} {trace : Trace} (scheduled : Scheduled machine system trace later)
    (hsound : system.Sound) (hparked : system.Parked task (burst.waiting context task slot) [.settled slot])
    (hborn : system.host.batches.slots[slot.index]? = some .pending)
    (hanswered : later.host.batches.slots[slot.index]? = some (.answered (.ok value))) (shares : later.Shares machine)
    (hcalm : ∀ before middle, Scheduled machine system before middle → middle.host.isCanceled task = false) :
    ∃ trace final, Scheduled machine system trace final ∧ EndsWith task value trace final := by
  obtain ⟨before, middle, hbefore, hcurrent, honly, hcase⟩ := scheduled.exists_turn hsound rfl hparked
    (fun host => burst.waitsOn_settled machine context task) shares (by
      intro occasion hmem houtstanding
      rw [List.mem_singleton.1 hmem] at houtstanding
      cases houtstanding with
      | settled hpending => cases hanswered.symm.trans hpending)
  -- it has been answered by then
  have hstate : middle.host.batches.slots[slot.index]? = some (.answered (.ok value)) := by
    rcases hcase with ⟨hsettled, after, hafter⟩ | ⟨more, -, hmore⟩
    · obtain ⟨state, hstate⟩ : ∃ state, middle.host.batches.slots[slot.index]? = some state := by
        rcases hbefore.slots hborn with hsame | ⟨-, hsettled⟩
        · exact ⟨_, hsame⟩
        · exact hsettled
      rcases hafter.slots hstate with hsame | ⟨rfl, -⟩
      · rw [hstate, ← hsame, hanswered]
      · exact absurd hstate hsettled
    · rcases hmore.slots hanswered with hsame | ⟨hpending, -⟩
      · exact hsame
      · cases hpending
  have hless : task.index < middle.host.processes.length := by
    obtain ⟨process, hprocess, -⟩ := hbefore.sound hsound _ _ hcurrent
    exact (List.getElem?_eq_some_iff.1 hprocess).1
  have hquiet := hcalm _ _ hbefore
  obtain ⟨host, current⟩ := middle
  obtain rfl : current = some (task, burst.waiting context task slot) := hcurrent
  obtain ⟨more, final, hmore, ends⟩ := turn_of_answered burst machine context hquiet hstate hless
  refine ⟨_, _, hbefore.trans hmore, ends.outcome, ?_⟩
  rw [deeds_append, List.filterMap_append, honly.quiet, ends.quiet]
  rfl

/-! ## The function has returned -/

/-- The system in which the function has returned results to the flush of the first call. -/
def returning (burst : Burst) (context : Context) (place slot : Nat) (tuples : List (List Value)) (results : List Value)
    (host : Host) : System :=
  .driving ⟨place⟩ .task
    { stack := burst.opener context ⟨place⟩ ⟨slot⟩ (.suspended (burst.delivery (enrolledFrom slot tuples)))
        (.ok (.list results)) ((enrolledFrom slot tuples).map Enrolled.slot)
      host }

variable {place first calls : Nat} {tuples : List (List Value)} {results : List Value}

theorem nodup_slots_enrolledFrom (slot : Nat) (tuples : List (List Value)) :
    ((enrolledFrom slot tuples).map Enrolled.slot).Nodup := by
  have hslots : (enrolledFrom slot tuples).map Enrolled.slot = (List.range' slot tuples.length).map Slot.mk := by
    simp [enrolledFrom, Function.comp_def, ← List.zipIdx_map_snd]
  rw [hslots]
  exact List.Pairwise.map Slot.mk (fun _ _ hother hsame => hother (congrArg Slot.index hsame)) List.nodup_range'

/-- When the function has returned, the first call answers all calls and ends with the first result. -/
theorem turn_of_returned (burst : Burst) (machine : Machine) (context : Context) (hcalm : host.isCanceled ⟨place⟩ = false)
    (hless : place < host.processes.length) (hlength : results.length = tuples.length) (hvalue : results[0]? = some value)
    (hpending : ∀ index, index < tuples.length → host.batches.slots[first + index]? = some .pending) :
    ∃ trace later, Scheduled machine (burst.returning context place first tuples results host) trace { host := later } ∧
      EndsWith ⟨place⟩ value trace { host := later } ∧
      ∀ (index : Nat) (value : Value), results[index]? = some value →
        later.batches.slots[first + index]? = some (.answered (.ok value)) := by
  have hcalls : (enrolledFrom first tuples).length = tuples.length := by simp [enrolledFrom]
  have hcall {index : Nat} (hless : index < tuples.length) :
      (enrolledFrom first tuples)[index]? = some ⟨tuples[index], ⟨first + index⟩⟩ :=
    getElem?_enrolledFrom (List.getElem?_eq_getElem hless)
  have hsome : 0 < tuples.length := hlength ▸ (List.getElem?_eq_some_iff.1 hvalue).1
  obtain ⟨acts, later, ahead, hquiet, hprocesses, hslots⟩ := burst.ahead_settled machine context hcalm
    (nodup_slots_enrolledFrom first tuples) (fun call hmem => by
      obtain ⟨index, hindex⟩ := List.getElem?_of_mem hmem
      have hless : index < tuples.length := hcalls ▸ (List.getElem?_eq_some_iff.1 hindex).1
      cases hindex.symm.trans (hcall hless)
      exact hpending index hless) (hlength.trans hcalls.symm) (hcall hsome) rfl hvalue
  refine ⟨_, _, (ahead.scheduled .task).trans (System.driving_ends rfl), ⟨System.outcome?_conclude _ ?_, ?_⟩, ?_⟩
  · show place < later.processes.length
    rwa [hprocesses]
  · rw [List.append_nil, deeds_own]
    exact hquiet
  · intro index value hresult
    exact hslots index _ value (hcall (hlength ▸ (List.getElem?_eq_some_iff.1 hresult).1)) hresult

end Batch.Burst

/-! ## `all` goes on -/

namespace Concurrent

variable {machine : Machine} {main : TaskId} {driver : Driver} {stack : Stack} {tag : Option HandlerTag} {host : Host}
variable {tasks : List TaskId} {values : List Value}

/-- The stack of whoever has performed an effect that has come to a value. -/
def told (stack : Stack) (value : Value) : Stack :=
  stack.withTop fun frame => { frame with result := .ok value }

/-- In its turn `all` goes on with the values of its tasks when they have all succeeded. -/
theorem turn_of_ended (machine : Machine) (main : TaskId) (driver : Driver) (tag : Option HandlerTag)
    (hgoing : stack.top.isFinished = false)
    (hvalues : tasks.map host.outcome? = values.map fun value => some (.ok value)) :
    ∃ trace last, Scheduled machine { host, current := some (main, atJoin driver stack tag tasks) } trace
        (.driving main driver { stack := told stack (.list values), host := last }) ∧
      (deeds trace main).filterMap Act.call? = [] := by
  have hanswer := Host.firstFailure?_of_values hvalues
  have hreact : host.react (.firstFailure tasks) = .reply ((host.untilFailure tasks).foldl Host.collect host) (.ok values) := by
    show host.look (host.untilFailure tasks) tasks (host.firstFailure? tasks) = _
    rw [hanswer]
    rfl
  have hreplies : machine.step { stack := forkingStack stack tag (.running (await tasks)) (.ok .null), host } = _ ∧
      machine.stepActs { stack := forkingStack stack tag (.running (await tasks)) (.ok .null), host } = _ :=
    Machine.step_reply rfl hreact
  have hstep : machine.step { stack := forkingStack stack tag (.running (await tasks)) (.ok .null), host } =
        Machine.moved { stack := forkingStack stack tag (.running (.done (.ok (.list values)))) (.ok .null)
                        host := (host.untilFailure tasks).foldl Host.collect host } ∧
      machine.stepActs { stack := forkingStack stack tag (.running (await tasks)) (.ok .null), host } =
        [.acted (.firstFailure tasks) (.ok values)] := hreplies
  have habove : (forkingStack stack tag (.running (await tasks)) (.ok .null)).below ≠ [] := by simp [forkingStack, Stack.push]
  have hlooks : Ahead machine main _ _ _ := .single habove hstep
  obtain ⟨last, hends, -⟩ := (GoesTo.start machine main (forkingStack stack tag (.running (.done (.ok (.list values))))
    (.ok .null)) (Run.proceed main { stack, host := (host.untilFailure tasks).foldl Host.collect host }).host).done
    rfl hgoing rfl (List.forall_mem_nil _) rfl
  refine ⟨_, last, (hlooks.trans hends).scheduled driver, ?_⟩
  rw [deeds_own]
  rfl

/-- Whoever waits for the tasks of `all` goes on with their values when they have all succeeded. -/
theorem replies_of_ended {system later : System} {trace : Trace} (scheduled : Scheduled machine system trace later)
    (hsound : system.Sound) (hparked : system.Parked main (atJoin driver stack tag tasks) (tasks.map .ended))
    (hgoing : stack.top.isFinished = false) (shares : later.Shares machine)
    (hvalues : tasks.map later.host.outcome? = values.map fun value => some (.ok value)) :
    ∃ trace last, Scheduled machine system trace
        (.driving main driver { stack := told stack (.list values), host := last }) ∧
      (deeds trace main).filterMap Act.call? = [] := by
  have hended : ∀ task ∈ tasks, ∃ value, later.host.outcome? task = some (.ok value) := by
    intro task hmem
    have hmapped : later.host.outcome? task ∈ tasks.map later.host.outcome? := List.mem_map_of_mem hmem
    rw [hvalues] at hmapped
    obtain ⟨value, -, hvalue⟩ := List.mem_map.1 hmapped
    exact ⟨value, hvalue.symm⟩
  obtain ⟨before, middle, hbefore, hcurrent, honly, hcase⟩ := scheduled.exists_turn hsound (driver.going _) hparked
    (fun _ => waitsOn_ended machine main driver stack tag) shares (by
      intro occasion hmem houtstanding
      obtain ⟨task, htask, rfl⟩ := List.mem_map.1 hmem
      obtain ⟨value, hvalue⟩ := hended task htask
      cases houtstanding with
      | ended hunended => cases hvalue.symm.trans hunended)
  -- all tasks have ended by then
  have houtcomes : tasks.map middle.host.outcome? = values.map fun value => some (.ok value) := by
    rw [← hvalues]
    refine List.map_congr_left fun task hmem => ?_
    obtain ⟨value, hvalue⟩ := hended task hmem
    rw [hvalue]
    rcases hcase with ⟨hsettled, after, hafter⟩ | ⟨more, -, hmore⟩
    · cases houtcome : middle.host.outcome? task with
      | some outcome => exact (hafter.outcome? (hbefore.sound hsound) houtcome).symm.trans hvalue
      | none =>
          refine absurd ⟨⟨task, hmem, houtcome⟩, fun other hother error herror => ?_⟩ hsettled
          obtain ⟨another, hanother⟩ := hended other hother
          cases hanother.symm.trans (hafter.outcome? (hbefore.sound hsound) herror)
    · exact hmore.outcome? (scheduled.sound hsound) hvalue
  obtain ⟨host, current⟩ := middle
  obtain rfl : current = some (main, atJoin driver stack tag tasks) := hcurrent
  obtain ⟨more, last, hmore, hquiet⟩ := turn_of_ended machine main driver tag hgoing houtcomes
  refine ⟨_, last, hbefore.trans hmore, ?_⟩
  rw [deeds_append, List.filterMap_append, honly.quiet, hquiet]
  rfl

end Concurrent

/-! ## All calls together -/

namespace Batch.Burst

open Concurrent

variable {burst : Burst} {machine : Machine} {context : Context} {main : TaskId} {place first : Nat} {driver : Driver}
variable {stack : Stack} {tag : Option HandlerTag} {tuples : List (List Value)} {results : List Value} {host : Host}

/-- Everybody waits until the function returns, if no call is answered before. -/
theorem Awaited.until_return {system : System} {trace : Trace} (hsome : 0 < tuples.length)
    (awaited : burst.Awaited context main driver stack tag place first tuples.length system)
    (scheduled : Scheduled machine system trace (burst.returning context place first tuples results host))
    (hsound : system.Sound)
    (hpending : ∀ index, index < tuples.length → host.batches.slots[first + index]? = some .pending) :
    burst.Awaited context main driver stack tag place first tuples.length
        (burst.returning context place first tuples results host) ∧
      OnlyWaits (deeds trace main) ∧
      ∀ index, 0 < index → index < tuples.length → OnlyWaits (deeds trace ⟨place + index⟩) := by
  refine awaited.kept hsome scheduled hsound hpending fun task hmem => ?_
  obtain ⟨hfrom, hto⟩ := mem_tasksFrom.1 hmem
  obtain ⟨index, hindex⟩ := Nat.exists_eq_add_of_le hfrom
  obtain rfl : task = ⟨place + index⟩ := congrArg TaskId.mk hindex
  rcases Nat.eq_zero_or_pos index with rfl | hpos
  · obtain ⟨process, hprocess, hgoing⟩ := scheduled.sound hsound _ _ rfl
    simp [Host.outcome?, Host.report?, hprocess, hgoing]
  · have hless : index < tuples.length := by simpa using hto
    have hparked := (parked_waiting scheduled hsound (awaited.pending index hless) (hpending index hless)
      (awaited.others index hpos hless)).1
    cases hparked with
    | running hcurrent =>
        have hsame : (⟨place⟩ : TaskId) = ⟨place + index⟩ := congrArg Prod.fst (Option.some.inj hcurrent)
        have hplace : place = place + index := congrArg TaskId.index hsame
        omega
    | stopped _ hactivity _ _ => exact Host.outcome?_of_going hactivity rfl

/-- Every call comes to its own result. -/
theorem Awaited.ends (awaited : burst.Awaited context main driver stack tag place first tuples.length
      (burst.returning context place first tuples results host))
    (hsound : (burst.returning context place first tuples results host).Sound) (hlength : results.length = tuples.length)
    (undisturbed : (burst.returning context place first tuples results host).Undisturbed machine
      (tasksFrom place tuples.length)) :
    ∃ trace later, Scheduled machine (burst.returning context place first tuples results host) trace later ∧
      ∀ index, index < tuples.length → ∀ value, results[index]? = some value →
        EndsWith ⟨place + index⟩ value trace later := by
  refine Scheduled.exists_joint (fun index trace later => ∀ value, results[index]? = some value →
    EndsWith ⟨place + index⟩ value trace later) tuples.length ?_ ?_
  · intro index trace later more final scheduled hmore ends value hvalue
    exact hmore.endsWith (scheduled.sound hsound) (ends value hvalue)
  · intro index hless
    have hresult : results[0]? = some results[0] := List.getElem?_eq_getElem (by omega)
    have hmem (index : Nat) (hless : index < tuples.length) : (⟨place + index⟩ : TaskId) ∈ tasksFrom place tuples.length :=
      mem_tasksFrom.2 ⟨Nat.le_add_right _ _, Nat.add_lt_add_left hless _⟩
    have hplace : place < host.processes.length := by
      obtain ⟨process, hprocess, -⟩ := hsound _ _ rfl
      exact (List.getElem?_eq_some_iff.1 hprocess).1
    obtain ⟨trace, answered, scheduled, ends, hanswered⟩ := turn_of_returned burst machine context
      (undisturbed.calm _ _ .start _ (hmem 0 (by omega))) hplace hlength hresult awaited.pending
    rcases Nat.eq_zero_or_pos index with rfl | hpos
    · refine ⟨trace, _, scheduled, fun value hvalue => ?_⟩
      cases hresult.symm.trans hvalue
      exact ends
    · have hvalue : results[index]? = some results[index] := List.getElem?_eq_getElem (by omega)
      obtain ⟨more, final, hmore, hends⟩ := ends_of_answered scheduled hsound (awaited.others index hpos hless)
        (awaited.pending index hless) (hanswered index _ hvalue) (undisturbed.shares.later scheduled)
        fun before middle hbefore => undisturbed.calm _ _ hbefore _ (hmem index hless)
      refine ⟨more, final, hmore, fun value hother => ?_⟩
      cases hvalue.symm.trans hother
      exact hends

/-- When the function has returned one result for each call, `all` goes on with the results.  Nobody calls a function on
the way. -/
theorem Awaited.completes (awaited : burst.Awaited context main driver stack tag place first tuples.length
      (burst.returning context place first tuples results host))
    (hsound : (burst.returning context place first tuples results host).Sound) (hlength : results.length = tuples.length)
    (hgoing : stack.top.isFinished = false)
    (undisturbed : (burst.returning context place first tuples results host).Undisturbed machine
      (tasksFrom place tuples.length)) :
    ∃ trace last, Scheduled machine (burst.returning context place first tuples results host) trace
        (.driving main driver { stack := told stack (.list results), host := last }) ∧
      ∀ task ∈ main :: tasksFrom place tuples.length, (deeds trace task).filterMap Act.call? = [] := by
  obtain ⟨trace, later, scheduled, ends⟩ := awaited.ends hsound hlength undisturbed
  have hvalues : (tasksFrom place tuples.length).map later.host.outcome? =
      results.map fun value => some (.ok value) := by
    refine List.ext_getElem (by simp [tasksFrom, hlength]) fun index hless hother => ?_
    have hindex : index < tuples.length := by simpa [tasksFrom] using hless
    have hends := ends index hindex _ (List.getElem?_eq_getElem (hlength ▸ hindex))
    simpa [tasksFrom] using hends.outcome
  obtain ⟨more, last, hmore, hquiet⟩ := replies_of_ended scheduled hsound awaited.all hgoing
    (undisturbed.shares.later scheduled) hvalues
  refine ⟨more, last, hmore, List.forall_mem_cons.2 ⟨hquiet, fun task hmem => ?_⟩⟩
  obtain ⟨hfrom, hto⟩ := mem_tasksFrom.1 hmem
  obtain ⟨index, hindex⟩ := Nat.exists_eq_add_of_le hfrom
  obtain rfl : task = ⟨place + index⟩ := congrArg TaskId.mk hindex
  have hless : index < tuples.length := by simpa using hto
  have hends := ends index hless _ (List.getElem?_eq_getElem (hlength ▸ hless))
  rcases scheduled.total hmore with ⟨rest, hrest, rfl⟩ | ⟨rest, hrest, rfl⟩
  · exact (hrest.endsWith (scheduled.sound hsound) hends).quiet
  · have hall := hends.quiet
    rw [deeds_append, List.filterMap_append] at hall
    exact (List.append_eq_nil_iff.1 hall).1

end Batch.Burst
end EffectMachine
