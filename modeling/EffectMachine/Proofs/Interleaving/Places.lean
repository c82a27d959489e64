import EffectMachine.Proofs.Interleaving.Moves

/-!
# Places in the schedule

Whoever can run stands in the queue or aside, and whoever waits stands among those that wait.  What the running process
does takes none of these places away.

* `Schedule.Widens` says that everybody keeps a place; all that a running process does is of that kind
  (`Machine.Advances.widens`).
* `Schedule.Spares` says so of everybody but one process, for what becomes of that one when it stops running, and for
  its being the next one to run.
* `Schedule.mem_ready_announce` says that announcing an occasion gives all those a turn that wait for it.
-/

namespace EffectMachine

variable {machine : Machine}

/-! ## Turns -/

namespace Schedule

/-- Nobody loses a turn, or a place among those that stand aside or wait, and nobody is overtaken. -/
structure Widens (schedule later : Schedule) : Prop where
  queue : schedule.ready <+: later.ready
  yielded : later.yielded = schedule.yielded
  waiting : later.waiting = schedule.waiting

namespace Widens

variable {schedule middle later : Schedule}

theorem ready (hwidens : schedule.Widens later) : ∀ process ∈ schedule.ready, process ∈ later.ready :=
  fun _ hmem => hwidens.queue.subset hmem

theorem refl (schedule : Schedule) : schedule.Widens schedule :=
  ⟨List.prefix_rfl, rfl, rfl⟩

theorem trans (hfirst : schedule.Widens middle) (hsecond : middle.Widens later) : schedule.Widens later where
  queue := hfirst.queue.trans hsecond.queue
  yielded := hsecond.yielded.trans hfirst.yielded
  waiting := hsecond.waiting.trans hfirst.waiting

theorem enqueue (schedule : Schedule) (process : TaskId) : schedule.Widens (schedule.enqueue process) := by
  unfold Schedule.enqueue
  split
  · exact .refl _
  · exact ⟨List.prefix_append _ _, rfl, rfl⟩

theorem enqueueAll (processes : List TaskId) (schedule : Schedule) :
    schedule.Widens (processes.foldl Schedule.enqueue schedule) := by
  induction processes generalizing schedule with
  | nil => exact .refl _
  | cons process rest ih => exact (enqueue schedule process).trans (ih _)

theorem announce (schedule : Schedule) (occasion : Occasion) : schedule.Widens (schedule.announce occasion) :=
  enqueueAll _ schedule

/-- Whether the running process was woken is no matter. -/
theorem release (schedule : Schedule) (process : TaskId) : schedule.Widens (schedule.release process) := by
  unfold Schedule.release
  split
  · exact (Widens.mk List.prefix_rfl rfl rfl : schedule.Widens { schedule with woken := false }).trans (enqueue _ process)
  · exact .refl _

end Widens

/-- All that were put into the queue are there. -/
theorem mem_ready_enqueueAll {processes : List TaskId} {process : TaskId} (hmem : process ∈ processes)
    (schedule : Schedule) : process ∈ (processes.foldl enqueue schedule).ready := by
  induction processes generalizing schedule with
  | nil => cases hmem
  | cons first rest ih =>
      rcases List.mem_cons.1 hmem with rfl | hrest
      · exact (Widens.enqueueAll rest _).ready _ (mem_ready_enqueue schedule process)
      · exact ih hrest _

/-- Whoever waits for an occasion has a turn when it is announced. -/
theorem mem_ready_announce {schedule : Schedule} {waiter : Waiter} {occasion : Occasion}
    (hwaiting : waiter ∈ schedule.waiting) (hoccasion : occasion ∈ waiter.occasions) :
    waiter.process ∈ (schedule.announce occasion).ready := by
  refine mem_ready_enqueueAll (List.mem_map_of_mem (f := Waiter.process) (List.mem_filter.2 ⟨hwaiting, ?_⟩)) schedule
  exact List.contains_iff_mem.2 hoccasion

/-- Those that stand aside have a turn once they are let in. -/
theorem mem_ready_letIn {schedule : Schedule} {process : TaskId}
    (hplace : process ∈ schedule.ready ∨ process ∈ schedule.yielded) : process ∈ schedule.letIn.ready := by
  rcases hplace with hready | hyielded
  · exact (Widens.enqueueAll _ _).ready process hready
  · exact mem_ready_enqueueAll hyielded _

end Schedule

/-! ## Stopping and being picked -/

namespace Schedule

variable {schedule : Schedule} {process : TaskId}

/-- Nobody but one process loses a turn or a place. -/
structure Spares (schedule : Schedule) (process : TaskId) (later : Schedule) : Prop where
  turns : ∀ other, other ≠ process → other ∈ schedule.ready ∨ other ∈ schedule.yielded →
    other ∈ later.ready ∨ other ∈ later.yielded
  waiting : ∀ waiter ∈ schedule.waiting, waiter.process ≠ process → waiter ∈ later.waiting

theorem Spares.proceed (schedule : Schedule) (process : TaskId) : schedule.Spares process (schedule.proceed process) where
  turns := fun _ _ => id
  waiting := fun _ hmem hother => List.mem_filter.2 ⟨hmem, by simpa using hother⟩

theorem mem_yielded_giveWay (schedule : Schedule) (process : TaskId) : process ∈ (schedule.giveWay process).yielded := by
  unfold giveWay
  rw [(Widens.release _ process).yielded]
  split
  · exact List.mem_of_mem_head? (by assumption)
  · exact List.mem_cons_self

theorem Spares.giveWay (schedule : Schedule) (process : TaskId) :
    schedule.Spares process ((schedule.proceed process).giveWay process) where
  turns := by
    intro other _ hother
    unfold Schedule.giveWay
    rw [(Widens.release _ process).yielded]
    refine hother.imp ((Widens.release _ process).ready other) fun hyielded => ?_
    show other ∈ if _ then _ else _
    split
    · exact hyielded
    · exact List.mem_cons_of_mem _ hyielded
  waiting := by
    intro waiter hmem hother
    unfold Schedule.giveWay
    rw [(Widens.release _ process).waiting]
    exact (Spares.proceed schedule process).waiting waiter hmem hother

theorem Spares.await (schedule : Schedule) (process : TaskId) (occasions : List Occasion) :
    schedule.Spares process (schedule.await process occasions) where
  turns := by
    intro other _ hother
    unfold Schedule.await
    split
    · rw [(Widens.release _ process).yielded]
      exact hother.imp_left ((Widens.release _ process).ready other)
    · rw [(Widens.release _ process).yielded]
      exact hother.imp_left ((Widens.release _ process).ready other)
  waiting := by
    intro waiter hmem hother
    unfold Schedule.await
    split
    · rw [(Widens.release _ process).waiting]
      exact List.mem_map.2 ⟨waiter, hmem, by simp [hother]⟩
    · rw [(Widens.release _ process).waiting]
      exact List.mem_append_left _ hmem

theorem mem_turns_beforeTurn {schedule : Schedule} {process : TaskId}
    (hplace : process ∈ schedule.ready ∨ process ∈ schedule.yielded) :
    process ∈ schedule.beforeTurn.ready ∨ process ∈ schedule.beforeTurn.yielded := by
  unfold beforeTurn
  split
  · exact .inl (mem_ready_letIn hplace)
  · exact hplace

theorem waiting_beforeTurn (schedule : Schedule) : schedule.beforeTurn.waiting = schedule.waiting := by
  unfold beforeTurn
  split
  · exact (Widens.enqueueAll _ _).waiting
  · rfl

theorem Spares.next {schedule later : Schedule} {process : TaskId} (hnext : schedule.next? = some (process, later)) :
    schedule.Spares process later := by
  unfold next? at hnext
  simp only at hnext
  split at hnext
  · rename_i hready
    cases hnext
    refine ⟨fun other hother hplace => ?_, fun waiter hmem _ => (waiting_beforeTurn schedule).symm ▸ hmem⟩
    refine (mem_turns_beforeTurn hplace).imp_left fun hmem => ?_
    rw [hready] at hmem
    exact (List.mem_cons.1 hmem).resolve_left hother
  · cases hnext

/-- Whoever begins to wait, or waits on, waits for what it is to wait for. -/
theorem exists_waiter_await (schedule : Schedule) (process : TaskId) (occasions : List Occasion) :
    ∃ waiter ∈ (schedule.await process occasions).waiting, waiter.process = process ∧ waiter.occasions = occasions := by
  unfold await
  split
  · rename_i hwaiting
    obtain ⟨waiter, hmem, hprocess⟩ := List.any_eq_true.1 hwaiting
    rw [(Widens.release _ process).waiting]
    refine ⟨{ waiter with occasions }, List.mem_map.2 ⟨waiter, hmem, ?_⟩, by simpa using hprocess, rfl⟩
    simp [show waiter.process = process by simpa using hprocess]
  · rw [(Widens.release _ process).waiting]
    exact ⟨⟨process, occasions⟩, by simp, rfl, rfl⟩

/-- When nobody can run, nobody has a turn coming. -/
theorem no_turns {schedule : Schedule} (hnext : schedule.next? = none) (process : TaskId) :
    process ∉ schedule.ready ∧ process ∉ schedule.yielded := by
  unfold next? at hnext
  simp only at hnext
  split at hnext
  · cases hnext
  · rename_i hready
    unfold beforeTurn at hready
    split at hready
    · refine ⟨fun hmem => ?_, fun hmem => ?_⟩
      · simpa [hready] using mem_ready_letIn (.inl hmem)
      · simpa [hready] using mem_ready_letIn (.inr hmem)
    · rename_i hgoing
      simp [hready] at hgoing

end Schedule

/-! ## What a running process does to the schedule -/

namespace Host

theorem widens_of_quiet {host later : Host} (hquiet : later.quiet = host.quiet) :
    host.schedule.Widens later.schedule := by
  rw [show later.schedule = host.schedule from (congrArg Host.schedule hquiet :)]
  exact .refl _

theorem widens_settle (host : Host) (slot : Slot) (state : SlotState) :
    host.schedule.Widens (host.settle slot state).schedule := by
  unfold Host.settle
  split
  · exact .announce host.schedule (.settled slot)
  · exact .refl _

theorem widens_close (host : Host) (slots : List Slot) : host.schedule.Widens (host.close slots).schedule := by
  unfold Host.close
  induction slots generalizing host with
  | nil => exact .refl _
  | cons slot slots ih => exact (widens_settle host slot .closed).trans (ih _)

theorem widens_collect (host : Host) (task : TaskId) : host.schedule.Widens (host.collect task).schedule := by
  unfold Host.collect
  split
  · exact ⟨List.prefix_rfl, rfl, rfl⟩
  · exact .refl _

theorem widens_collectAll (tasks : List TaskId) (host : Host) :
    host.schedule.Widens (tasks.foldl Host.collect host).schedule := by
  induction tasks generalizing host with
  | nil => exact .refl _
  | cons task tasks ih => exact (widens_collect host task).trans (ih _)

theorem widens_look {α : Type} (host : Host) (looked tasks : List TaskId) (answer : Option α) :
    host.schedule.Widens (reacted (host.look looked tasks answer)).schedule := by
  cases answer with
  | none => exact widens_collectAll looked host
  | some answer => exact widens_collectAll looked host

/-- No reaction takes a place away. -/
theorem widens_react (host : Host) (action : Action) : host.schedule.Widens (reacted (host.react action)).schedule := by
  cases action with
  | join tasks => exact host.widens_look tasks tasks _
  | firstFailure tasks => exact host.widens_look _ tasks _
  | arm delay | expired timers | receive slot =>
      rw [react]
      split <;> exact .refl _
  | abandon group => exact widens_close { host with batches := host.batches.remove group } _
  | answer slot outcome => exact host.widens_settle slot _
  | _ => exact .refl _

theorem widens_sendOut (host : Host) (errands : List Errand) :
    host.schedule.Widens (Machine.sendOut host errands).2.schedule := by
  induction errands generalizing host with
  | nil => exact .refl _
  | cons errand rest ih => exact (Schedule.Widens.enqueue host.schedule _).trans (ih (host.spawn (.client errand)).2)

end Host

/-- No act takes a place away. -/
theorem Run.Does.widens {run next : Run} {act : Act} (hdoes : run.Does act next) :
    run.host.schedule.Widens next.host.schedule := by
  cases hdoes with
  | drop parent rest hbelow => exact run.host.widens_close _
  | fail error =>
      unfold Run.failTop
      split <;> exact .refl _
  | answer value =>
      unfold Run.answerTop
      split <;> exact .refl _
  | fork effect hscheduled =>
      unfold Run.answerTop
      split <;> exact .enqueue _ _
  | act action resume host reply hrunning hreact =>
      have hwidens := run.host.widens_react action
      rcases hreact with hreact | hreact <;> rwa [hreact] at hwidens
  | wait action resume host occasions hrunning hreact =>
      have hwidens := run.host.widens_react action
      rwa [hreact] at hwidens
  | complete outcome hrunning => exact run.host.widens_close _
  | giveUp hfinished hdue => exact run.host.widens_close _
  | vacate hroot => exact run.host.widens_close _
  | _ => exact .refl _

theorem Run.Chain.widens {run final : Run} {acts : List Act} (chain : run.Chain acts final) :
    run.host.schedule.Widens final.host.schedule := by
  induction chain with
  | done run => exact .refl _
  | quiet host hquiet _ ih => exact (Host.widens_of_quiet hquiet).trans ih
  | act hdoes _ ih => exact hdoes.widens.trans ih

/-- No step of a process takes a place away, before it is noted how the process goes on. -/
theorem Machine.Advances.widens {task : TaskId} {host after : Host} {activity next : Activity} {acts : List Act}
    (hadvances : machine.Advances task host activity acts next after) : host.schedule.Widens after.schedule := by
  have hstep (stack : Stack) : host.schedule.Widens (machine.step { stack, host }).host.schedule := by
    have hwidens := (machine.step_chain { stack, host }).widens
    rwa [Stepped.run_eq] at hwidens
  cases hadvances with
  | begin context effect => exact (machine.handle_chain effect { stack := { context, signal := some task }, host }).widens
  | step stack habove => exact hstep stack
  | submit context effect resume =>
      exact (machine.handle_chain (machine.submission effect) { stack := { context, signal := none }, host }).widens
  | runStep stack resume habove => exact hstep stack
  | act context action resume reply later hreact =>
      have hwidens := host.widens_react action
      rcases hreact with hreact | hreact <;> rwa [hreact] at hwidens
  | wait context action resume later occasions hreact =>
      have hwidens := host.widens_react action
      rwa [hreact] at hwidens
  | sendOut errands => exact host.widens_sendOut errands
  | _ => exact .refl _

end EffectMachine
