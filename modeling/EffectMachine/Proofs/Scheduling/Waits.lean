import EffectMachine.Proofs.Scheduling.Turns

/-!
# Waiting for an occasion

Whoever waits is left as it is until its turn, and has a turn once all that it waits for has come.

* `Host.Rouses` is what a step of the running process does to those that wait for calls to be answered.
* `System.Parked` says that a process is at some point of its work, where it waits for some occasions, or has a turn
  there.
* `System.Parked.step` says that it stays there when others move, and `System.Parked.again` that it also does so when it
  finds that it has to wait on.
* `Scheduled.slots` says that an answered call stays answered.
* `Scheduled.parked` says that a process which has to wait throughout only waits, and `Scheduled.exists_turn` that it has
  a turn when it need not wait any more.
-/

namespace EffectMachine

theorem Batches.isPending_iff {batches : Batches} {slot : Slot} :
    batches.isPending slot = true ↔ batches.slots[slot.index]? = some .pending := by
  unfold Batches.isPending Batches.stateOf
  cases hstate : batches.slots[slot.index]? with
  | none => simp
  | some state => cases state <;> simp

namespace Host

/-- What the acts of one process do to calls and those that wait for them: a call that is answered or dropped has been
pending, and wakes whoever waits for it. -/
structure Rouses (host later : Host) : Prop where
  widens : host.schedule.Widens later.schedule
  slots : ∀ (index : Nat) (state : SlotState), host.batches.slots[index]? = some state → later.batches.slots[index]? = some state ∨
    state = .pending ∧ (∃ settled, later.batches.slots[index]? = some settled) ∧
      ∀ waiter ∈ host.schedule.waiting, .settled ⟨index⟩ ∈ waiter.occasions → waiter.process ∈ later.schedule.ready

namespace Rouses

variable {host middle later : Host}

theorem of_slots (hwidens : host.schedule.Widens later.schedule)
    (hslots : ∀ (index : Nat) (state : SlotState), host.batches.slots[index]? = some state →
      later.batches.slots[index]? = some state) : host.Rouses later :=
  ⟨hwidens, fun index state hstate => .inl (hslots index state hstate)⟩

theorem of_batches (hwidens : host.schedule.Widens later.schedule) (hbatches : later.batches = host.batches) :
    host.Rouses later :=
  .of_slots hwidens fun _ _ hstate => hbatches ▸ hstate

theorem refl (host : Host) : host.Rouses host :=
  .of_batches (.refl _) rfl

theorem trans (hfirst : host.Rouses middle) (hsecond : middle.Rouses later) : host.Rouses later where
  widens := hfirst.widens.trans hsecond.widens
  slots := by
    intro index state hstate
    rcases hfirst.slots index state hstate with hsame | ⟨rfl, ⟨settled, hsettled⟩, hwoken⟩
    · rcases hsecond.slots index state hsame with hstill | ⟨hpending, hsettled, hwoken⟩
      · exact .inl hstill
      · exact .inr ⟨hpending, hsettled, hfirst.widens.waiting ▸ hwoken⟩
    · refine .inr ⟨rfl, ?_, fun waiter hmem hfor => hsecond.widens.ready _ (hwoken waiter hmem hfor)⟩
      rcases hsecond.slots index settled hsettled with hstill | ⟨-, hagain, -⟩
      · exact ⟨settled, hstill⟩
      · exact hagain

theorem settle (host : Host) (slot : Slot) (state : SlotState) : host.Rouses (host.settle slot state) := by
  refine ⟨host.widens_settle slot state, fun index earlier hearlier => ?_⟩
  unfold Host.settle
  split
  · rename_i hpending
    by_cases hindex : slot.index = index
    · subst hindex
      have hstate := Batches.isPending_iff.1 hpending
      obtain rfl : earlier = .pending := Option.some.inj (hearlier.symm.trans hstate)
      refine .inr ⟨rfl, ⟨state, ?_⟩, fun waiter hmem hfor => Schedule.mem_ready_announce hmem hfor⟩
      have hless := (List.getElem?_eq_some_iff.1 hstate).1
      show (host.batches.settle slot state).slots[slot.index]? = some state
      simp [Batches.settle, hpending, hless]
    · refine .inl ?_
      show (host.batches.settle slot state).slots[index]? = some earlier
      simp [Batches.settle, hpending, hindex, hearlier]
  · exact .inl hearlier

theorem close (host : Host) (slots : List Slot) : host.Rouses (host.close slots) := by
  unfold Host.close
  induction slots generalizing host with
  | nil => exact .refl _
  | cons slot slots ih => exact (settle host slot .closed).trans (ih _)

theorem look {α : Type} (host : Host) (looked tasks : List TaskId) (answer : Option α) :
    host.Rouses (reacted (host.look looked tasks answer)) := by
  refine .of_batches (host.widens_look looked tasks answer) ?_
  cases answer <;> exact host.batches_collectAll looked

theorem react (host : Host) (action : Action) : host.Rouses (reacted (host.react action)) := by
  cases action with
  | join tasks => exact .look host tasks tasks _
  | firstFailure tasks => exact .look host _ tasks _
  | arm delay | expired timers | receive slot =>
      rw [Host.react]
      split <;> exact .of_batches (.refl _) rfl
  | enroll group args =>
      refine .of_slots (.refl _) fun index state hstate => ?_
      exact (List.getElem?_append_left (List.getElem?_eq_some_iff.1 hstate).1).trans hstate
  | collect group => exact .of_slots (.refl _) fun _ _ => id
  | abandon group =>
      exact (Rouses.of_slots (.refl _) fun _ _ => id :
        host.Rouses { host with batches := host.batches.remove group }).trans (.close _ _)
  | answer slot outcome => exact .settle host slot _
  | _ => exact .of_batches (.refl _) rfl

theorem sendOut (host : Host) (errands : List Errand) : host.Rouses (Machine.sendOut host errands).2 := by
  refine .of_batches (host.widens_sendOut errands) ?_
  induction errands generalizing host with
  | nil => rfl
  | cons errand rest ih => exact ih (host.spawn (.client errand)).2

end Rouses
end Host

theorem Run.Does.rouses {run next : Run} {act : Act} (hdoes : run.Does act next) : run.host.Rouses next.host := by
  cases hdoes with
  | drop parent rest hbelow => exact .close _ _
  | fail error =>
      unfold Run.failTop
      split <;> exact .of_batches (.refl _) rfl
  | answer value =>
      unfold Run.answerTop
      split <;> exact .refl _
  | fork effect hscheduled =>
      unfold Run.answerTop
      split <;> exact .of_batches (.enqueue _ _) rfl
  | act action resume host reply hrunning hreact =>
      have hrouses := Host.Rouses.react run.host action
      rcases hreact with hreact | hreact <;> rwa [hreact] at hrouses
  | wait action resume host occasions hrunning hreact =>
      have hrouses := Host.Rouses.react run.host action
      rwa [hreact] at hrouses
  | complete outcome hrunning => exact .close _ _
  | giveUp hfinished hdue => exact .close _ _
  | vacate hroot => exact .close _ _
  | _ => exact .refl _

theorem Run.Chain.rouses {run final : Run} {acts : List Act} (chain : run.Chain acts final) :
    run.host.Rouses final.host := by
  induction chain with
  | done run => exact .refl _
  | quiet host hquiet _ ih =>
      exact (Host.Rouses.of_batches (Host.widens_of_quiet hquiet) (congrArg Host.batches hquiet :)).trans ih
  | act hdoes _ ih => exact hdoes.rouses.trans ih

/-- What a step of a process does to those that wait for calls. -/
theorem Machine.Advances.rouses {machine : Machine} {task : TaskId} {host after : Host} {activity next : Activity}
    {acts : List Act} (hadvances : machine.Advances task host activity acts next after) : host.Rouses after := by
  have hstep (stack : Stack) : host.Rouses (machine.step { stack, host }).host := by
    have hrouses := (machine.step_chain { stack, host }).rouses
    rwa [Stepped.run_eq] at hrouses
  cases hadvances with
  | begin context effect => exact (machine.handle_chain effect { stack := { context, signal := some task }, host }).rouses
  | step stack habove => exact hstep stack
  | submit context effect resume =>
      exact (machine.handle_chain (machine.submission effect) { stack := { context, signal := none }, host }).rouses
  | runStep stack resume habove => exact hstep stack
  | act context action resume reply later hreact =>
      have hrouses := Host.Rouses.react host action
      rcases hreact with hreact | hreact <;> rwa [hreact] at hrouses
  | wait context action resume later occasions hreact =>
      have hrouses := Host.Rouses.react host action
      rwa [hreact] at hrouses
  | sendOut errands => exact .sendOut host errands
  | _ => exact .refl _

/-! ## Processes that wait -/

/-- What a process waits for is still to come.  Timers are left out. -/
inductive Host.Outstanding (host : Host) : Occasion → Prop
  | ended {task : TaskId} (hgoing : host.outcome? task = none) : Outstanding host (.ended task)
  | settled {slot : Slot} (hpending : host.batches.slots[slot.index]? = some .pending) : Outstanding host (.settled slot)

/-- A process is at some point of its work, where it waits for some occasions.  It has a turn there, or is to have one, or
one of the occasions is still to come. -/
inductive System.Parked (system : System) (task : TaskId) (activity : Activity) (occasions : List Occasion) : Prop
  | running (hcurrent : system.current = some (task, activity))
  | stopped (hidle : ∀ doing, system.current ≠ some (task, doing))
      (hactivity : system.host.processes[task.index]?.map Process.activity = some activity)
      (hwaits : ⟨task, occasions⟩ ∈ system.host.schedule.waiting)
      (hplace : task ∈ system.host.schedule.ready ∨ ∃ occasion ∈ occasions, system.host.Outstanding occasion)

/-- A process that has a turn finds that it has to wait on, for something that is still to come. -/
def Machine.WaitsOn (machine : Machine) (task : TaskId) (activity : Activity) (occasions : List Occasion) (host : Host) :
    Prop :=
  ∃ action after, machine.advance task activity host = .waits activity after occasions ∧
    machine.advanceActs task activity host = [.waited action] ∧ ∃ occasion ∈ occasions, after.Outstanding occasion

/-- Nothing is done but to wait. -/
def OnlyWaits (acts : List Act) : Prop :=
  ∀ act ∈ acts, ∃ action, act = .waited action

namespace System

variable {machine : Machine} {system next : System} {task : TaskId} {activity : Activity} {occasions : List Occasion}

theorem batches_settleIn (task : TaskId) (stepped : Stepped Activity) :
    (settleIn task stepped).host.batches = stepped.host.batches := by
  cases stepped <;> rfl

/-- A process goes on without an outcome. -/
theorem outcome?_settleIn {host : Host} (machine : Machine) {other : TaskId} (hother : host.outcome? other = none) :
    (settleIn task (machine.advance task activity host)).host.outcome? other = none := by
  have hnone : (machine.advance task activity host).host.outcome? other = none := by
    unfold Host.outcome? at hother ⊢
    rw [(machine.advances task activity host).report?_eq]
    exact hother
  cases hadvance : machine.advance task activity host with
  | moved next after =>
      rw [hadvance] at hnone
      exact hnone
  | gaveWay next after =>
      rw [hadvance] at hnone
      exact Host.outcome?_park (fun _ => Machine.advance_eq_gaveWay hadvance) hnone
  | waits next after occasions =>
      rw [hadvance] at hnone
      exact Host.outcome?_park (fun _ => (Machine.advance_eq_waits hadvance).1) hnone

/-- What is still to come stays so by a step, or else whoever waits for it is woken. -/
theorem outstanding_of_step {waiter : Waiter} {occasion : Occasion} (hstep : system.step machine = some next)
    (hidle : ∀ doing, system.current ≠ some (waiter.process, doing)) (hmem : waiter ∈ system.host.schedule.waiting)
    (hfor : occasion ∈ waiter.occasions) (houtstanding : system.host.Outstanding occasion) :
    next.host.Outstanding occasion ∨ waiter.process ∈ next.host.schedule.ready := by
  obtain ⟨host, current⟩ := system
  cases current with
  | none =>
      have hpicked : idle host = some next := hstep
      have hlike := host_idle hpicked
      refine .inl ?_
      cases houtstanding with
      | ended hgoing =>
          refine .ended ?_
          unfold Host.outcome? Host.report? at hgoing ⊢
          rwa [hlike.processes]
      | settled hpending => exact .settled (by rwa [hlike.batches])
  | some entry =>
      obtain ⟨running, activity⟩ := entry
      unfold step at hstep
      cases hactivity : activity.report? with
      | some report =>
          obtain rfl : activity = .ended report := by
            cases activity <;> cases hactivity
            rfl
          cases hstep
          cases houtstanding with
          | @ended task hgoing =>
              by_cases hended : running = task
              · subst hended
                refine .inr (Schedule.mem_ready_announce (List.mem_filter.2 ⟨hmem, ?_⟩) hfor)
                have hother : waiter.process ≠ running := fun hsame => hidle _ (by rw [hsame])
                simpa using hother
              · exact .inl (.ended (Host.outcome?_park (fun hsame => absurd hsame hended) hgoing))
          | settled hpending => exact .inl (.settled hpending)
      | none =>
          have hnext : next = settleIn running (machine.advance running activity host) := by
            cases activity <;> cases hactivity <;> cases hstep <;> rfl
          subst hnext
          have hrouses := (machine.advances running activity host).rouses
          cases houtstanding with
          | ended hgoing => exact .inl (.ended (outcome?_settleIn machine hgoing))
          | @settled slot hpending =>
              have hqueue := (Host.LeavesOthers.settleIn running (machine.advance running activity host)).queue
              rcases hrouses.slots _ _ hpending with hstill | ⟨-, -, hwoken⟩
              · exact .inl (.settled (by rwa [batches_settleIn]))
              · exact .inr (hqueue.subset (hwoken waiter hmem hfor))

/-- When nothing runs, someone is picked or time passes.  Nobody else loses a place in the queue. -/
theorem idle_cases {host : Host} (hidle : idle host = some next) :
    (∃ picked schedule, next = System.resume { host with schedule } picked ∧
      schedule.waiting = host.schedule.waiting ∧
      ∀ other ∈ host.schedule.ready, other ≠ picked → other ∈ schedule.ready) ∨
    (next.current = none ∧ next.host.schedule.waiting = host.schedule.waiting ∧
      ∀ other ∈ host.schedule.ready, other ∈ next.host.schedule.ready) := by
  unfold idle at hidle
  split at hidle
  · rename_i picked schedule hnext
    cases hidle
    refine .inl ⟨picked, schedule, rfl, ?_, fun other hmem hother => ?_⟩
    · unfold Schedule.next? at hnext
      simp only at hnext
      split at hnext <;> cases hnext
      exact host.schedule.waiting_beforeTurn
    · have hready : other ∈ host.schedule.beforeTurn.ready := by
        unfold Schedule.beforeTurn
        split
        · exact Schedule.mem_ready_letIn (.inl hmem)
        · exact hmem
      unfold Schedule.next? at hnext
      simp only at hnext
      split at hnext <;> cases hnext
      rename_i hqueue
      rw [hqueue] at hready
      exact (List.mem_cons.1 hready).resolve_left hother
  · obtain ⟨⟨due, timers⟩, _, hnext⟩ := Option.map_eq_some_iff.1 hidle
    cases hnext
    have hwidens (occasions : List Occasion) (host : Host) :
        host.schedule.Widens (occasions.foldl Host.announce host).schedule := by
      induction occasions generalizing host with
      | nil => exact .refl _
      | cons occasion occasions ih =>
          exact (Schedule.Widens.announce host.schedule occasion).trans (ih (host.announce occasion))
    have hletIn := hwidens (due.map .expired) { host with timers, schedule := host.schedule.letIn }
    rw [List.foldl_map] at hletIn
    refine .inr ⟨rfl, hletIn.waiting.trans (Schedule.Widens.enqueueAll _ _).waiting, fun other hmem => ?_⟩
    exact hletIn.ready other (Schedule.mem_ready_letIn (.inl hmem))

namespace Parked

/-- A process stays where it is when another one moves. -/
theorem step (parked : system.Parked task activity occasions) (hgoing : activity.report? = none)
    (hidle : ∀ doing, system.current ≠ some (task, doing)) (hstep : system.step machine = some next) :
    next.Parked task activity occasions := by
  cases parked with
  | running hcurrent => exact absurd hcurrent (hidle _)
  | stopped _ hactivity hwaits hplace =>
      have hwoken : task ∈ system.host.schedule.ready ∨ (∃ occasion ∈ occasions, next.host.Outstanding occasion) ∨
          task ∈ next.host.schedule.ready := by
        rcases hplace with hready | ⟨occasion, hfor, houtstanding⟩
        · exact .inl hready
        · refine .inr ((outstanding_of_step hstep hidle hwaits hfor houtstanding).imp_left fun hstill => ?_)
          exact ⟨occasion, hfor, hstill⟩
      obtain ⟨host, current⟩ := system
      cases current with
      | some entry =>
          obtain ⟨running, doing⟩ := entry
          have hother : task ≠ running := fun hsame => hidle doing (by rw [hsame])
          obtain ⟨hleaves, hnext⟩ := leavesOthers_of_step rfl hstep
          refine .stopped (fun other hcurrent => ?_) (hleaves.activities task activity hother hactivity)
            (hleaves.waiting _ hwaits hother) ?_
          · rcases hnext with hnone | ⟨doing, hsame⟩
            · cases hnone.symm.trans hcurrent
            · rw [hsame] at hcurrent
              cases hcurrent
              exact hother rfl
          · rcases hwoken with hready | houtstanding | hready
            · exact .inl (hleaves.queue.subset hready)
            · exact .inr houtstanding
            · exact .inl hready
      | none =>
          rcases idle_cases hstep with ⟨picked, schedule, rfl, hwaiting, hqueue⟩ | ⟨hnone, hwaiting, hqueue⟩
          · have hhost := host_resume { host with schedule } picked
            by_cases hpicked : picked = task
            · subst hpicked
              exact .running (current_resume_of_going hactivity hgoing)
            · refine .stopped (fun other hcurrent => ?_) (by rw [hhost]; exact hactivity) (by rw [hhost]; exact hwaiting ▸ hwaits) ?_
              · rcases current_resume { host with schedule } picked with hnone | ⟨doing, hsame⟩
                · cases hnone.symm.trans hcurrent
                · rw [hsame] at hcurrent
                  cases hcurrent
                  exact hpicked rfl
              · rcases hwoken with hready | houtstanding | hready
                · exact .inl (by rw [hhost]; exact hqueue task hready (Ne.symm hpicked))
                · exact .inr houtstanding
                · exact .inl hready
          · refine .stopped (fun other hcurrent => by cases hnone.symm.trans hcurrent) ?_ (hwaiting ▸ hwaits) ?_
            · rw [(host_idle hstep).processes]
              exact hactivity
            · rcases hwoken with hready | houtstanding | hready
              · exact .inl (hqueue task hready)
              · exact .inr houtstanding
              · exact .inl hready

/-- A process that finds that it has to wait stays where it is. -/
theorem again {after : Host} (sound : system.Sound) (hcurrent : system.current = some (task, activity))
    (hadvance : machine.advance task activity system.host = .waits activity after occasions)
    (houtstanding : ∃ occasion ∈ occasions, after.Outstanding occasion) (hstep : system.step machine = some next) :
    next.Parked task activity occasions := by
  have hsettled : next = settleIn task (.waits activity after occasions) := by
    unfold System.step at hstep
    split at hstep
    · cases hcurrent.symm.trans (by assumption)
      cases hadvance
    · cases hcurrent.symm.trans (by assumption)
      rw [hadvance] at hstep
      exact (Option.some.inj hstep).symm
    · rename_i hnone
      cases hcurrent.symm.trans hnone
  subst hsettled
  obtain ⟨process, hprocess, -⟩ := sound task activity hcurrent
  obtain ⟨waiter, hmem, rfl, rfl⟩ := Schedule.exists_waiter_await (after.park task activity).schedule task occasions
  refine .stopped (fun _ => nofun) ?_ hmem (.inr ?_)
  · have hgrows := (machine.advances waiter.process activity system.host).grows
    rw [hadvance] at hgrows
    obtain ⟨kept, hkept, -⟩ := hgrows.kept hprocess
    exact Host.activity_park_self activity hkept
  · obtain ⟨occasion, hfor, houtstanding⟩ := houtstanding
    refine ⟨occasion, hfor, ?_⟩
    cases houtstanding with
    | ended hgoing => exact .ended (Host.outcome?_park (fun _ => (Machine.advance_eq_waits hadvance).1) hgoing)
    | settled hpending => exact .settled hpending

end Parked

/-! ## What does not change again -/

/-- Only a pending slot of a call changes by a step. -/
theorem slots_of_step (hstep : system.step machine = some next) {index : Nat} {state : SlotState}
    (hstate : system.host.batches.slots[index]? = some state) :
    next.host.batches.slots[index]? = some state ∨
      state = .pending ∧ ∃ settled, next.host.batches.slots[index]? = some settled := by
  unfold System.step at hstep
  split at hstep
  · cases hstep
    exact .inl hstate
  · rename_i running doing _ _
    cases hstep
    rw [batches_settleIn]
    exact ((machine.advances running doing system.host).rouses.slots index state hstate).imp_right fun h => ⟨h.1, h.2.1⟩
  · rw [(host_idle hstep).batches]
    exact .inl hstate

end System

namespace Scheduled

variable {machine : Machine} {system later : System} {trace : Trace}

/-- Only pending slots of calls change. -/
theorem slots (scheduled : Scheduled machine system trace later) {index : Nat} {state : SlotState}
    (hstate : system.host.batches.slots[index]? = some state) :
    later.host.batches.slots[index]? = some state ∨
      state = .pending ∧ ∃ settled, later.host.batches.slots[index]? = some settled := by
  induction scheduled with
  | start => exact .inl hstate
  | step _ hstep ih =>
      rcases ih with hsame | ⟨rfl, settled, hsettled⟩
      · exact System.slots_of_step hstep hsame
      · refine .inr ⟨rfl, ?_⟩
        rcases System.slots_of_step hstep hsettled with hstill | ⟨-, hagain⟩
        · exact ⟨settled, hstill⟩
        · exact hagain

/-- A slot that is pending later has been pending since it is there. -/
theorem pending_of_pending (scheduled : Scheduled machine system trace later) {index : Nat} {state : SlotState}
    (hstate : system.host.batches.slots[index]? = some state)
    (hpending : later.host.batches.slots[index]? = some .pending) :
    system.host.batches.slots[index]? = some .pending := by
  rcases scheduled.slots hstate with hsame | ⟨rfl, -⟩
  · rw [hstate, ← hsame, hpending]
  · exact hstate

theorem sound (scheduled : Scheduled machine system trace later) (hsound : system.Sound) : later.Sound := by
  induction scheduled with
  | start => exact hsound
  | step _ hstep ih => exact (Moves.step hstep).sound ih

/-- A process that has ended has done so for good. -/
theorem outcome? (scheduled : Scheduled machine system trace later) (hsound : system.Sound) {task : TaskId}
    {outcome : Outcome} (houtcome : system.host.outcome? task = some outcome) : later.host.outcome? task = some outcome := by
  induction scheduled with
  | start => exact houtcome
  | step scheduled hstep ih => exact ((Moves.step hstep).later (scheduled.sound hsound)).outcome? ih

/-- A process that has ended does nothing any more. -/
theorem deeds_of_ended (scheduled : Scheduled machine system trace later) (hsound : system.Sound) {task : TaskId}
    {outcome : Outcome} (houtcome : system.host.outcome? task = some outcome) : deeds trace task = [] := by
  induction scheduled with
  | start => rfl
  | @step trace middle next scheduled hstep ih =>
      have hended := scheduled.outcome? hsound houtcome
      have hidle : ∀ doing, middle.current ≠ some (task, doing) := by
        intro doing hcurrent
        obtain ⟨process, hprocess, hgoing⟩ := scheduled.sound hsound task doing hcurrent
        have hnone : middle.host.report? task = none := by
          unfold Host.report?
          rw [hprocess]
          exact hgoing
        rw [Host.outcome?, hnone] at hended
        cases hended
      rw [deeds_append, ih, System.deeds_acts_other machine hidle]
      rfl

variable {task : TaskId} {activity : Activity} {occasions : List Occasion}

/-- A process stays where it is, and only waits, as long as it finds at each of its turns that it has to wait on.  At the
first turn at which it does not find that any more, it goes on from there. -/
theorem parked_or_turn {holds : Host → Prop} (scheduled : Scheduled machine system trace later) (hsound : system.Sound)
    (hgoing : activity.report? = none) (hparked : system.Parked task activity occasions)
    (hwaits : ∀ host, holds host → machine.WaitsOn task activity occasions host) :
    (later.Parked task activity occasions ∧ OnlyWaits (deeds trace task)) ∨
      ∃ before middle after, trace = before ++ after ∧ Scheduled machine system before middle ∧
        Scheduled machine middle after later ∧ middle.current = some (task, activity) ∧ ¬ holds middle.host ∧
        OnlyWaits (deeds before task) := by
  induction scheduled with
  | start => exact .inl ⟨hparked, List.forall_mem_nil _⟩
  | @step trace middle next scheduled hstep ih =>
      rcases ih with ⟨hmiddle, honly⟩ | ⟨before, turn, after, rfl, hbefore, hafter, hrest⟩
      · by_cases hcurrent : middle.current = some (task, activity)
        · by_cases hholds : holds middle.host
          · obtain ⟨action, host, hadvance, hacts, houtstanding⟩ := hwaits middle.host hholds
            refine .inl ⟨.again (scheduled.sound hsound) hcurrent hadvance houtstanding hstep, ?_⟩
            have hown : deeds (middle.acts machine) task = [.waited action] := by
              unfold System.acts
              rw [hcurrent]
              simp only [hacts]
              exact deeds_own task [.waited action]
            rw [deeds_append, hown]
            exact List.forall_mem_append.2 ⟨honly, List.forall_mem_singleton.2 ⟨action, rfl⟩⟩
          · exact .inr ⟨trace, middle, _, rfl, scheduled, .single hstep, hcurrent, hholds, honly⟩
        · have hidle : ∀ doing, middle.current ≠ some (task, doing) := by
            intro doing hdoing
            cases hmiddle with
            | running hcurrent => exact absurd hcurrent ‹_›
            | stopped hidle => exact hidle doing hdoing
          refine .inl ⟨hmiddle.step hgoing hidle hstep, ?_⟩
          rw [deeds_append, System.deeds_acts_other machine hidle, List.append_nil]
          exact honly
      · exact .inr ⟨before, turn, _, by rw [List.append_assoc], hbefore, hafter.step hstep, hrest⟩

/-- A process stays where it is, and only waits, if what makes it wait holds to the end. -/
theorem parked {holds : Host → Prop} (scheduled : Scheduled machine system trace later) (hsound : system.Sound)
    (hgoing : activity.report? = none) (hparked : system.Parked task activity occasions)
    (hwaits : ∀ host, holds host → machine.WaitsOn task activity occasions host)
    (hholds : ∀ before middle after, Scheduled machine system before middle → Scheduled machine middle after later →
      holds middle.host) :
    later.Parked task activity occasions ∧ OnlyWaits (deeds trace task) := by
  rcases scheduled.parked_or_turn hsound hgoing hparked hwaits with hstays | ⟨before, middle, after, -, hbefore, hafter, -, hno, -⟩
  · exact hstays
  · exact absurd (hholds before middle after hbefore hafter) hno

/-- A process that has waited has a turn when nothing that it waits for is still to come.  It has only waited until then. -/
theorem exists_turn {holds : Host → Prop} (scheduled : Scheduled machine system trace later) (hsound : system.Sound)
    (hgoing : activity.report? = none) (hparked : system.Parked task activity occasions)
    (hwaits : ∀ host, holds host → machine.WaitsOn task activity occasions host) (shares : later.Shares machine)
    (hover : ∀ occasion ∈ occasions, ¬ later.host.Outstanding occasion) :
    ∃ before middle, Scheduled machine system before middle ∧ middle.current = some (task, activity) ∧
      OnlyWaits (deeds before task) ∧
      ((¬ holds middle.host ∧ ∃ after, Scheduled machine middle after later) ∨
        ∃ more, before = trace ++ more ∧ Scheduled machine later more middle) := by
  rcases scheduled.parked_or_turn hsound hgoing hparked hwaits with
    ⟨hstays, honly⟩ | ⟨before, middle, after, -, hbefore, hafter, hcurrent, hno, honly⟩
  · cases hstays with
    | running hcurrent => exact ⟨trace, later, scheduled, hcurrent, honly, .inr ⟨[], by simp, .start⟩⟩
    | stopped hidle hactivity hwaiting hplace =>
        have hready : task ∈ later.host.schedule.ready := hplace.resolve_right fun ⟨occasion, hmem, hcoming⟩ =>
          hover occasion hmem hcoming
        obtain ⟨more, middle, hmore, hcurrent, hdeeds⟩ := shares.exists_turn hactivity hgoing hready hidle
        refine ⟨trace ++ more, middle, scheduled.trans hmore, hcurrent, ?_, .inr ⟨more, rfl, hmore⟩⟩
        rw [deeds_append, hdeeds, List.append_nil]
        exact honly
  · exact ⟨before, middle, hbefore, hcurrent, honly, .inl ⟨hno, after, hafter⟩⟩

end Scheduled
end EffectMachine
