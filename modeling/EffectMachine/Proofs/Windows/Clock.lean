import EffectMachine.Proofs.Scheduling.Waits

/-!
# The clock

Time stands still while anybody can run, and then it jumps to the earliest timer.  A timer that a process has set stands
until it is due, and runs out at that very time, unless somebody stops it before.

* `Timers.Orderly` says that only timers which were set stand or have run out.
* `Timers.Ticks` is what the acts of a process do to the timers: no time passes, new timers may be set, and others may be
  stopped or noticed.
* `Timers.Due` says when a timer is due, and `Timers.Holds` that nobody has noticed or stopped it;
  `Timers.Holds.now_le_due` says that the clock does not jump past it.
* `System.timers_of_step` says that a step of a system is one of these two.
-/

namespace EffectMachine
namespace Timers

variable {timers middle later : Timers} {timer : TimerId} {due : Nat}

/-- Only timers that were set stand or have run out. -/
structure Orderly (timers : Timers) : Prop where
  armed : ∀ entry ∈ timers.armed, entry.1.index < timers.started
  expired : ∀ timer ∈ timers.expired, timer.index < timers.started

/-- No time passes, and only timers that are set meanwhile are new. -/
structure Ticks (timers later : Timers) : Prop where
  now : later.now = timers.now
  started : timers.started ≤ later.started
  armed : ∀ entry ∈ later.armed, entry ∈ timers.armed ∨
    timers.started ≤ entry.1.index ∧ entry.1.index < later.started
  expired : ∀ timer ∈ later.expired, timer ∈ timers.expired

namespace Ticks

theorem refl (timers : Timers) : timers.Ticks timers :=
  ⟨rfl, Nat.le_refl _, fun _ => .inl, fun _ => id⟩

theorem of_eq (hsame : later = timers) : timers.Ticks later :=
  hsame ▸ .refl timers

theorem trans (hfirst : timers.Ticks middle) (hsecond : middle.Ticks later) : timers.Ticks later where
  now := hsecond.now.trans hfirst.now
  started := Nat.le_trans hfirst.started hsecond.started
  armed := by
    intro entry hmem
    rcases hsecond.armed entry hmem with hearlier | ⟨hfrom, hto⟩
    · exact (hfirst.armed entry hearlier).imp_right fun hnew => ⟨hnew.1, Nat.lt_of_lt_of_le hnew.2 hsecond.started⟩
    · exact .inr ⟨Nat.le_trans hfirst.started hfrom, hto⟩
  expired := fun timer hmem => hfirst.expired timer (hsecond.expired timer hmem)

theorem arm (timers : Timers) (delay : Nat) : timers.Ticks (timers.arm delay).2 where
  now := rfl
  started := Nat.le_succ _
  armed := by
    intro entry hmem
    rcases List.mem_append.1 hmem with hold | hnew
    · exact .inl hold
    · rw [List.mem_singleton.1 hnew]
      exact .inr ⟨Nat.le_refl _, Nat.lt_succ_self _⟩
  expired := fun _ => id

theorem disarm (timers : Timers) (ids : List TimerId) : timers.Ticks (timers.disarm ids) where
  now := rfl
  started := Nat.le_refl _
  armed := fun _ hmem => .inl (List.mem_filter.1 hmem).1
  expired := fun _ hmem => (List.mem_filter.1 hmem).1

end Ticks

theorem Orderly.ticks (orderly : timers.Orderly) (ticks : timers.Ticks later) : later.Orderly where
  armed := by
    intro entry hmem
    rcases ticks.armed entry hmem with hold | hnew
    · exact Nat.lt_of_lt_of_le (orderly.armed entry hold) ticks.started
    · exact hnew.2
  expired := fun timer hmem => Nat.lt_of_lt_of_le (orderly.expired timer (ticks.expired timer hmem)) ticks.started

theorem Orderly.advance? (orderly : timers.Orderly) {ids : List TimerId} (hadvance : timers.advance? = some (ids, later)) :
    later.Orderly := by
  obtain ⟨time, -, hnext⟩ := Option.map_eq_some_iff.1 hadvance
  cases hnext
  refine ⟨fun entry hmem => orderly.armed entry (List.mem_filter.1 hmem).1, fun timer hmem => ?_⟩
  rcases List.mem_append.1 hmem with hold | hdue
  · exact orderly.expired timer hold
  · obtain ⟨entry, hentry, rfl⟩ := List.mem_map.1 hdue
    exact orderly.armed entry (List.mem_filter.1 hentry).1

/-- A timer has run out after a jump of the clock if it had before, or is one of those that run out then. -/
theorem mem_expired_advance? {ids : List TimerId} (hadvance : timers.advance? = some (ids, later))
    (hexpired : timer ∈ later.expired) : timer ∈ timers.expired ∨ timer ∈ ids := by
  obtain ⟨time, -, hnext⟩ := Option.map_eq_some_iff.1 hadvance
  cases hnext
  exact List.mem_append.1 hexpired

/-- A timer that was set is due at some time: it stands only before that time, and has run out only since. -/
structure Due (timers : Timers) (timer : TimerId) (due : Nat) : Prop where
  known : timer.index < timers.started
  armed : ∀ date, (timer, date) ∈ timers.armed → date = due ∧ timers.now < due
  expired : timer ∈ timers.expired → due ≤ timers.now

namespace Due

/-- A timer that is set is due when its delay has passed. -/
theorem arm (orderly : timers.Orderly) {delay : Nat} (hpos : 0 < delay) :
    (timers.arm delay).2.Due (timers.arm delay).1 (timers.now + delay) where
  known := Nat.lt_succ_self _
  armed := by
    intro date hmem
    rcases List.mem_append.1 hmem with hold | hnew
    · exact absurd (orderly.armed _ hold) (Nat.lt_irrefl _)
    · exact ⟨congrArg Prod.snd (List.mem_singleton.1 hnew), Nat.lt_add_of_pos_right hpos⟩
  expired := fun hmem => absurd (orderly.expired _ hmem) (Nat.lt_irrefl _)

theorem ticks (hdue : timers.Due timer due) (ticks : timers.Ticks later) : later.Due timer due where
  known := Nat.lt_of_lt_of_le hdue.known ticks.started
  armed := by
    intro date hmem
    rcases ticks.armed _ hmem with hold | hnew
    · exact ticks.now ▸ hdue.armed date hold
    · exact absurd hnew.1 (Nat.not_le_of_lt hdue.known)
  expired := fun hmem => ticks.now ▸ hdue.expired (ticks.expired timer hmem)

theorem advance? (hdue : timers.Due timer due) {ids : List TimerId} (hadvance : timers.advance? = some (ids, later)) :
    later.Due timer due := by
  obtain ⟨time, -, hnext⟩ := Option.map_eq_some_iff.1 hadvance
  cases hnext
  refine ⟨hdue.known, fun date hmem => ?_, fun hmem => ?_⟩
  · obtain ⟨hold, hlate⟩ := List.mem_filter.1 hmem
    obtain ⟨rfl, hnow⟩ := hdue.armed date hold
    exact ⟨rfl, Nat.max_lt.2 ⟨hnow, of_decide_eq_true hlate⟩⟩
  · rcases List.mem_append.1 hmem with hold | hnew
    · exact Nat.le_trans (hdue.expired hold) (Nat.le_max_left _ _)
    · obtain ⟨⟨other, date⟩, hentry, rfl⟩ := List.mem_map.1 hnew
      obtain ⟨hold, hout⟩ := List.mem_filter.1 hentry
      rw [← (hdue.armed date hold).1]
      exact Nat.le_trans (of_decide_eq_true hout) (Nat.le_max_right _ _)

end Due

/-- A timer was set, and nobody has noticed or stopped it. -/
def Holds (timers : Timers) (timer : TimerId) : Prop :=
  (∃ due, (timer, due) ∈ timers.armed) ∨ timer ∈ timers.expired

namespace Holds

theorem arm_self (timers : Timers) (delay : Nat) : (timers.arm delay).2.Holds (timers.arm delay).1 :=
  .inl ⟨_, List.mem_append_right _ (List.mem_singleton.2 rfl)⟩

theorem arm (holds : timers.Holds timer) (delay : Nat) : (timers.arm delay).2.Holds timer :=
  holds.imp_left fun ⟨due, hmem⟩ => ⟨due, List.mem_append_left _ hmem⟩

theorem disarm (holds : timers.Holds timer) {ids : List TimerId} (hother : timer ∉ ids) :
    (timers.disarm ids).Holds timer := by
  have hkept : (!ids.contains timer) = true := by simpa using hother
  refine holds.imp (fun ⟨due, hmem⟩ => ⟨due, List.mem_filter.2 ⟨hmem, hkept⟩⟩) fun hmem => List.mem_filter.2 ⟨hmem, hkept⟩

theorem advance? (holds : timers.Holds timer) {ids : List TimerId} (hadvance : timers.advance? = some (ids, later)) :
    later.Holds timer := by
  obtain ⟨time, -, hnext⟩ := Option.map_eq_some_iff.1 hadvance
  cases hnext
  rcases holds with ⟨due, hmem⟩ | hmem
  · by_cases hlate : time < due
    · exact .inl ⟨due, List.mem_filter.2 ⟨hmem, by simpa using hlate⟩⟩
    · exact .inr (List.mem_append_right _ (List.mem_map.2 ⟨_, List.mem_filter.2 ⟨hmem, by simpa using hlate⟩, rfl⟩))
  · exact .inr (List.mem_append_left _ hmem)

/-- As long as a timer stands, the clock can jump. -/
theorem exists_advance? (holds : timers.Holds timer) (hsilent : timer ∉ timers.expired) :
    ∃ ids later, timers.advance? = some (ids, later) := by
  obtain ⟨due, hmem⟩ := holds.resolve_right hsilent
  unfold Timers.advance? earliest?
  cases hleast : (timers.armed.map Prod.snd).min? with
  | none =>
      have hnone := List.map_eq_nil_iff.1 (List.min?_eq_none_iff.1 hleast)
      rw [hnone] at hmem
      cases hmem
  | some time => exact ⟨_, _, rfl⟩

/-- The clock does not jump past the time at which a timer is due that stands. -/
theorem now_le_due (holds : timers.Holds timer) (hsilent : timer ∉ timers.expired) (hdue : timers.Due timer due)
    {ids : List TimerId} (hadvance : timers.advance? = some (ids, later)) : later.now ≤ due := by
  obtain ⟨date, hmem⟩ := holds.resolve_right hsilent
  obtain ⟨rfl, hnow⟩ := hdue.armed date hmem
  obtain ⟨time, hearliest, hnext⟩ := Option.map_eq_some_iff.1 hadvance
  cases hnext
  have hleast : time ≤ date :=
    (List.min?_eq_some_iff.1 hearliest).2 date (List.mem_map_of_mem (f := Prod.snd) hmem)
  exact Nat.max_le.2 ⟨Nat.le_of_lt hnow, hleast⟩

end Holds

end Timers

/-! ## The acts of a process -/

namespace Host

theorem timers_settle (host : Host) (slot : Slot) (state : SlotState) : (host.settle slot state).timers = host.timers := by
  unfold settle
  split <;> rfl

theorem timers_close (host : Host) (slots : List Slot) : (host.close slots).timers = host.timers := by
  unfold close
  induction slots generalizing host with
  | nil => rfl
  | cons slot slots ih => exact (ih _).trans (host.timers_settle slot .closed)

theorem timers_collectAll (host : Host) (tasks : List TaskId) : (tasks.foldl collect host).timers = host.timers := by
  induction tasks generalizing host with
  | nil => rfl
  | cons task tasks ih =>
      refine (ih _).trans ?_
      unfold collect
      split <;> rfl

theorem timers_look {α : Type} (host : Host) (looked tasks : List TaskId) (answer : Option α) :
    (reacted (host.look looked tasks answer)).timers = host.timers := by
  cases answer <;> exact host.timers_collectAll looked

theorem ticks_react (host : Host) (action : Action) : host.timers.Ticks (reacted (host.react action)).timers := by
  cases action with
  | join tasks => exact .of_eq (host.timers_look tasks tasks _)
  | firstFailure tasks => exact .of_eq (host.timers_look _ tasks _)
  | receive slot =>
      rw [react]
      split <;> exact .refl _
  | arm delay =>
      rw [react]
      split
      · exact .arm _ _
      · exact .refl _
  | expired timers =>
      rw [react]
      split
      · exact .disarm _ _
      · exact .refl _
  | disarm timers => exact .disarm _ _
  | abandon group => exact .of_eq (Host.timers_close _ _)
  | answer slot outcome => exact .of_eq (host.timers_settle slot _)
  | _ => exact .refl _

theorem timers_sendOut (host : Host) (errands : List Errand) : (Machine.sendOut host errands).2.timers = host.timers := by
  induction errands generalizing host with
  | nil => rfl
  | cons errand rest ih => exact ih (host.spawn (.client errand)).2

end Host

theorem Run.Does.ticks {run next : Run} {act : Act} (hdoes : run.Does act next) : run.host.timers.Ticks next.host.timers := by
  cases hdoes with
  | drop parent rest hbelow => exact .of_eq (Host.timers_close _ _)
  | fail error =>
      unfold Run.failTop
      split <;> exact .refl _
  | answer value =>
      unfold Run.answerTop
      split <;> exact .refl _
  | fork effect hscheduled =>
      unfold Run.answerTop
      split <;> exact .refl _
  | act action resume host reply hrunning hreact =>
      have hticks := run.host.ticks_react action
      rcases hreact with hreact | hreact <;> rwa [hreact] at hticks
  | wait action resume host occasions hrunning hreact =>
      have hticks := run.host.ticks_react action
      rwa [hreact] at hticks
  | complete outcome hrunning => exact .of_eq (Host.timers_close _ _)
  | giveUp hfinished hdue => exact .of_eq (Host.timers_close _ _)
  | vacate hroot => exact .of_eq (Host.timers_close _ _)
  | _ => exact .refl _

theorem Run.Chain.ticks {run final : Run} {acts : List Act} (chain : run.Chain acts final) :
    run.host.timers.Ticks final.host.timers := by
  induction chain with
  | done run => exact .refl _
  | quiet host hquiet _ ih => exact (Timers.Ticks.of_eq (congrArg Host.timers hquiet :)).trans ih
  | act hdoes _ ih => exact hdoes.ticks.trans ih

/-- While a process runs, no time passes. -/
theorem Machine.Advances.ticks {machine : Machine} {task : TaskId} {host after : Host} {activity next : Activity}
    {acts : List Act} (hadvances : machine.Advances task host activity acts next after) :
    host.timers.Ticks after.timers := by
  have hstep (stack : Stack) : host.timers.Ticks (machine.step { stack, host }).host.timers := by
    have hticks := (machine.step_chain { stack, host }).ticks
    rwa [Stepped.run_eq] at hticks
  cases hadvances with
  | begin context effect => exact (machine.handle_chain effect { stack := { context, signal := some task }, host }).ticks
  | step stack habove => exact hstep stack
  | submit context effect resume =>
      exact (machine.handle_chain (machine.submission effect) { stack := { context, signal := none }, host }).ticks
  | runStep stack resume habove => exact hstep stack
  | act context action resume reply later hreact =>
      have hticks := host.ticks_react action
      rcases hreact with hreact | hreact <;> rwa [hreact] at hticks
  | wait context action resume later occasions hreact =>
      have hticks := host.ticks_react action
      rwa [hreact] at hticks
  | sendOut errands => exact .of_eq (host.timers_sendOut errands)
  | _ => exact .refl _

/-! ## The steps of a system -/

/-- The clock jumps: nobody can run, and whoever waits for a timer that runs out is woken. -/
structure System.Jumps (system : System) (ids : List TimerId) (next : System) : Prop where
  idle : system.current = none
  nobody : system.host.schedule.next? = none
  advance : system.host.timers.advance? = some (ids, next.host.timers)
  stopped : next.current = none
  waiting : next.host.schedule.waiting = system.host.schedule.waiting
  woken : ∀ waiter ∈ system.host.schedule.waiting, ∀ timer ∈ ids, .expired timer ∈ waiter.occasions →
    waiter.process ∈ next.host.schedule.ready

namespace System

variable {machine : Machine} {system next : System}

theorem timers_settleIn (task : TaskId) (stepped : Stepped Activity) :
    (settleIn task stepped).host.timers = stepped.host.timers := by
  cases stepped <;> rfl

/-- Announcing timers that have run out wakes those that wait for them, and does nothing else. -/
theorem announceAll_expired (ids : List TimerId) (host : Host) :
    (ids.foldl (fun host timer => host.announce (.expired timer)) host).timers = host.timers ∧
      host.schedule.Widens (ids.foldl (fun host timer => host.announce (.expired timer)) host).schedule ∧
      ∀ waiter ∈ host.schedule.waiting, ∀ timer ∈ ids, .expired timer ∈ waiter.occasions →
        waiter.process ∈ (ids.foldl (fun host timer => host.announce (.expired timer)) host).schedule.ready := by
  induction ids generalizing host with
  | nil => exact ⟨rfl, .refl _, fun _ _ _ hmem => absurd hmem List.not_mem_nil⟩
  | cons id ids ih =>
      have hfirst := Schedule.Widens.announce host.schedule (.expired id)
      obtain ⟨htimers, hwidens, hwoken⟩ := ih (host.announce (.expired id))
      refine ⟨htimers, hfirst.trans hwidens, fun waiter hwaits timer hmem hfor => ?_⟩
      rcases List.mem_cons.1 hmem with rfl | hmem
      · exact hwidens.ready _ (Schedule.mem_ready_announce hwaits hfor)
      · exact hwoken waiter (hfirst.waiting ▸ hwaits) timer hmem hfor

/-- When nothing runs, whoever has the next turn is picked, or else the clock jumps. -/
theorem picks_or_jumps_of_idle {host : Host} (hidle : idle host = some next) :
    (∃ picked schedule, host.schedule.next? = some (picked, schedule) ∧ next = resume { host with schedule } picked) ∨
      ∃ ids, ({ host } : System).Jumps ids next := by
  unfold idle at hidle
  split at hidle
  · rename_i picked schedule hnext
    cases hidle
    exact .inl ⟨picked, schedule, hnext, rfl⟩
  · rename_i hnobody
    obtain ⟨⟨ids, timers⟩, hadvance, hnext⟩ := Option.map_eq_some_iff.1 hidle
    cases hnext
    obtain ⟨htimers, hwidens, hwoken⟩ := announceAll_expired ids { host with timers, schedule := host.schedule.letIn }
    have hkept : host.schedule.letIn.waiting = host.schedule.waiting := (Schedule.Widens.enqueueAll _ _).waiting
    refine .inr ⟨ids, rfl, hnobody, hadvance.trans (by rw [htimers]), rfl, hwidens.waiting.trans hkept,
      fun waiter hwaits => hwoken waiter (hkept ▸ hwaits)⟩

/-- A step of a system with a running process ends it, or is one of the process. -/
theorem step_of_current {task : TaskId} {activity : Activity} (hcurrent : system.current = some (task, activity))
    (hstep : system.step machine = some next) :
    (∃ report, activity = .ended report ∧ next = { host := conclude system.host task report }) ∨
      activity.report? = none ∧ next = settleIn task (machine.advance task activity system.host) := by
  unfold step at hstep
  rw [hcurrent] at hstep
  cases activity with
  | ended report =>
      cases hstep
      exact .inl ⟨report, rfl, rfl⟩
  | _ =>
      cases hstep
      exact .inr ⟨rfl, rfl⟩

/-- A step of a system is one of the running process, in which no time passes, or else a turn is given, or the clock
jumps. -/
theorem timers_of_step (hstep : system.step machine = some next) :
    system.host.timers.Ticks next.host.timers ∨ ∃ ids, system.Jumps ids next := by
  obtain ⟨host, current⟩ := system
  cases current with
  | none =>
      refine (picks_or_jumps_of_idle hstep).imp_left ?_
      rintro ⟨picked, schedule, -, rfl⟩
      exact .of_eq (by rw [host_resume])
  | some entry =>
      obtain ⟨task, activity⟩ := entry
      refine .inl ?_
      rcases step_of_current rfl hstep with ⟨report, -, rfl⟩ | ⟨-, rfl⟩
      · exact .refl _
      · rw [timers_settleIn]
        exact (machine.advances task activity host).ticks

end System
end EffectMachine
