import EffectMachine.Proofs.Interleaving.Occurrences
import EffectMachine.Proofs.Windows.Records

/-!
# Timers run out on time

The account of all timers that computations set.  A timer stands until its delay has passed, and it is there until the
computation that has set it notices it or stops it; so it is noticed when its delay has passed, and no earlier.

* `System.StepCases` lists what a step of a system can be as far as timers go.
* `Timed` is the account of the timers of a record, and `Clocked.timed` says that it is always kept.
* `Clocked.rings` says that every timer with a delay is set when there is a scheduler.
-/

namespace EffectMachine

/-! ## What actions do to timers -/

namespace Host

variable {host later : Host} {delay : Nat} {timer : TimerId}

theorem of_react_arm {reply : Option TimerId}
    (hreact : host.react (.arm delay) = .reply later reply ∨ host.react (.arm delay) = .giveWay later reply) :
    reply = none ∧ (delay = 0 ∨ host.scheduled = false) ∨
      0 < delay ∧ reply = some (host.timers.arm delay).1 ∧ later.timers = (host.timers.arm delay).2 := by
  simp only [react] at hreact
  split at hreact
  · rename_i hset
    simp only [Bool.and_eq_true, decide_eq_true_eq] at hset
    rcases hreact with hreact | hreact <;> cases hreact
    exact .inr ⟨hset.2, rfl, rfl⟩
  · rename_i hset
    rcases hreact with hreact | hreact <;> cases hreact
    refine .inl ⟨rfl, ?_⟩
    by_cases hscheduled : host.scheduled = true
    · exact .inl (by simpa [hscheduled] using hset)
    · exact .inr (by simpa using hscheduled)

/-- A timer is noticed only when it has run out. -/
theorem of_react_expired {timers : List TimerId} {index : Fin timers.length}
    (hreact : host.react (.expired timers) = .reply later index ∨ host.react (.expired timers) = .giveWay later index) :
    timers.get index ∈ host.timers.expired := by
  rw [react] at hreact
  split at hreact
  · rename_i found hfound
    rcases hreact with hreact | hreact <;> cases hreact
    exact List.contains_iff_mem.1 (List.findFinIdx?_eq_some_iff.1 hfound).1
  · rcases hreact with hreact | hreact <;> cases hreact

/-- A computation that has to wait leaves the timers alone. -/
theorem timers_of_wait {action : Action} {occasions : List Occasion} (hreact : host.react action = .wait later occasions) :
    later.timers = host.timers := by
  cases action with
  | join tasks =>
      have hsame : (reacted (host.react (.join tasks))).timers = host.timers := host.timers_look tasks tasks _
      rwa [hreact] at hsame
  | firstFailure tasks =>
      have hsame : (reacted (host.react (.firstFailure tasks))).timers = host.timers := host.timers_look _ tasks _
      rwa [hreact] at hsame
  | arm delay | expired timers | receive slot =>
      rw [react] at hreact
      split at hreact <;> cases hreact
      all_goals rfl
  | _ => cases hreact

/-- A timer is there until it is noticed or stopped. -/
theorem holds_react (holds : host.timers.Holds timer) {action : Action} (hkept : timer ∉ action.stops) :
    (reacted (host.react action)).timers.Holds timer := by
  cases action with
  | join tasks => exact (host.timers_look tasks tasks (host.allOutcomes? tasks)).symm ▸ holds
  | firstFailure tasks => exact (host.timers_look (host.untilFailure tasks) tasks (host.firstFailure? tasks)).symm ▸ holds
  | receive slot =>
      rw [react]
      split <;> exact holds
  | arm delay =>
      rw [react]
      split
      · exact holds.arm delay
      · exact holds
  | expired timers =>
      rw [react]
      split
      · exact holds.disarm fun hmem => hkept (List.mem_singleton.1 hmem ▸ List.getElem_mem _)
      · exact holds
  | disarm timers => exact holds.disarm hkept
  | abandon group => exact (Host.timers_close _ _).symm ▸ holds
  | answer slot outcome => exact (host.timers_settle slot _).symm ▸ holds
  | _ => exact holds

end Host

theorem Run.Does.holds {run next : Run} {act : Act} {timer : TimerId} (hdoes : run.Does act next)
    (holds : run.host.timers.Holds timer) (hkept : timer ∉ act.stops) : next.host.timers.Holds timer := by
  cases hdoes with
  | drop parent rest hbelow => exact (Host.timers_close _ _).symm ▸ holds
  | fail error =>
      unfold Run.failTop
      split <;> exact holds
  | answer value | fork effect hscheduled =>
      unfold Run.answerTop
      split <;> exact holds
  | act action resume host reply hrunning hreact =>
      have hlater := Host.holds_react holds hkept
      rcases hreact with hreact | hreact <;> rwa [hreact] at hlater
  | wait action resume host occasions hrunning hreact => exact (Host.timers_of_wait hreact).symm ▸ holds
  | complete outcome hrunning => exact (Host.timers_close _ _).symm ▸ holds
  | giveUp hfinished hdue => exact (Host.timers_close _ _).symm ▸ holds
  | vacate hroot => exact (Host.timers_close _ _).symm ▸ holds
  | _ => exact holds

theorem Run.Chain.holds {run final : Run} {acts : List Act} {timer : TimerId} (chain : run.Chain acts final)
    (holds : run.host.timers.Holds timer) (hkept : ∀ act ∈ acts, timer ∉ act.stops) : final.host.timers.Holds timer := by
  induction chain with
  | done run => exact holds
  | quiet host hquiet _ ih =>
      have hsame : host.quiet.timers = _ := congrArg Host.timers hquiet
      exact ih (hsame ▸ holds :) hkept
  | act hdoes _ ih =>
      exact ih (hdoes.holds holds (hkept _ List.mem_cons_self)) fun act hmem => hkept act (List.mem_cons_of_mem _ hmem)

/-! ## What steps do to timers -/

namespace Machine.Advances

variable {machine : Machine} {task : TaskId} {host later : Host} {activity after : Activity} {own : List Act}

/-- A timer that is there is so after a step of a process, unless the process was about to notice or to stop it.  If it is
a computation that was, then it has done so. -/
theorem holds (hadvances : machine.Advances task host activity own after later) {timer : TimerId}
    (holds : host.timers.Holds timer) :
    later.timers.Holds timer ∨ timer ∈ activity.stops ∧ (activity.stack? = none ∨ ∃ act ∈ own, timer ∈ act.stops) := by
  by_cases hstops : ∃ act ∈ own, timer ∈ act.stops
  · obtain ⟨act, hmem, htimer⟩ := hstops
    cases act with
    | acted action reply =>
        obtain ⟨-, ⟨stack, resume, hstack, hrunning⟩, -⟩ := hadvances.acted hmem
        refine .inr ⟨?_, .inr ⟨_, hmem, htimer⟩⟩
        cases activity with
        | task other | run other =>
            cases hstack
            simp only [Activity.stops, hrunning]
            exact htimer
        | _ => cases hstack
    | _ => cases htimer
  · have hkept : ∀ act ∈ own, timer ∉ act.stops := fun act hmem htimer => hstops ⟨act, hmem, htimer⟩
    have hstep (stack : Stack) (hkept : ∀ act ∈ machine.stepActs { stack, host }, timer ∉ act.stops) :
        (machine.step { stack, host }).host.timers.Holds timer := by
      have hlater := (machine.step_chain { stack, host }).holds holds hkept
      rwa [Stepped.run_eq] at hlater
    cases hadvances with
    | begin context effect =>
        exact .inl ((machine.handle_chain effect { stack := { context, signal := some task }, host }).holds holds hkept)
    | step stack habove => exact .inl (hstep stack hkept)
    | submit context effect resume =>
        exact .inl ((machine.handle_chain (machine.submission effect)
          { stack := { context, signal := none }, host }).holds holds hkept)
    | runStep stack resume habove => exact .inl (hstep stack hkept)
    | act context action resume reply later hreact =>
        by_cases hmem : timer ∈ action.stops
        · exact .inr ⟨hmem, .inl rfl⟩
        · have hlater := Host.holds_react holds hmem
          rcases hreact with hreact | hreact <;> rw [hreact] at hlater <;> exact .inl hlater
    | wait context action resume later occasions hreact => exact .inl ((Host.timers_of_wait hreact).symm ▸ holds)
    | sendOut errands => exact .inl ((host.timers_sendOut errands).symm ▸ holds)
    | _ => exact .inl holds

end Machine.Advances

/-- What a step of a system can be as far as timers go: nothing is done and no time passes, or the clock jumps, or a
process makes a step. -/
inductive System.StepCases (machine : Machine) (system next : System) : Prop
  | still (hstamped : system.stamped machine = []) (htimers : next.host.timers = system.host.timers)
  | jumps (ids : List TimerId) (hjumps : system.Jumps ids next)
  | advances {task : TaskId} {activity after : Activity} {own : List Act} {later : Host}
      (hcurrent : system.current = some (task, activity))
      (hadvances : machine.Advances task system.host activity own after later) (htimers : next.host.timers = later.timers)
      (hstamped : system.stamped machine = own.map fun act => (system.host.timers.now, task, act))

theorem System.stepCases {machine : Machine} {system next : System} (hstep : system.step machine = some next) :
    System.StepCases machine system next := by
  obtain ⟨host, current⟩ := system
  cases current with
  | none =>
      rcases picks_or_jumps_of_idle hstep with ⟨picked, schedule, -, rfl⟩ | ⟨ids, hjumps⟩
      · exact .still (stamped_of_idle rfl) (by rw [host_resume])
      · exact .jumps ids hjumps
  | some entry =>
      obtain ⟨task, activity⟩ := entry
      rcases step_of_current rfl hstep with ⟨report, rfl, rfl⟩ | ⟨-, rfl⟩
      · exact .still rfl rfl
      · exact .advances rfl (machine.advances task activity host) (timers_settleIn _ _)
          (by simp [stamped, acts, Function.comp_def])

/-! ## The account of timers -/

/-- The account of the timers that computations have set, in a record of what was done until some time. -/
structure Timed (record : Record) (timers : Timers) : Prop where
  orderly : timers.Orderly
  /-- Timers are due when their delays have passed. -/
  due : ∀ time task delay timer, (time, task, .acted (.arm delay) (some timer)) ∈ record → timers.Due timer (time + delay)
  /-- No timer is set twice. -/
  fresh : ∀ before time task delay timer after,
    record = before ++ (time, task, .acted (.arm delay) (some timer)) :: after →
      ∀ stamp setter again, (stamp, setter, .acted (.arm again) (some timer)) ∉ before
  /-- A timer is there until the computation that has set it notices or stops it. -/
  held : ∀ before time task delay timer after,
    record = before ++ (time, task, .acted (.arm delay) (some timer)) :: after → timers.Holds timer ∨
      ∃ act ∈ life (deeds (traceOf record) task)
        ((Roll.after (deeds (traceOf before) task)).actor (.acted (.arm delay) (some timer))), timer ∈ act.stops
  /-- A timer is noticed when it is due, and no earlier. -/
  noticed : ∀ before time task (ids : List TimerId) (index : Fin ids.length) after,
    record = before ++ (time, task, .acted (.expired ids) index) :: after →
      ∀ stamp setter delay, (stamp, setter, .acted (.arm delay) (some (ids.get index))) ∈ before → stamp + delay ≤ time

namespace Timed

variable {record : Record} {timers later : Timers}

/-- The account of a timer is kept when time passes. -/
theorem advance? (timed : Timed record timers) {ids : List TimerId} (hadvance : timers.advance? = some (ids, later)) :
    Timed record later where
  orderly := timed.orderly.advance? hadvance
  due := fun time task delay timer hmem => (timed.due time task delay timer hmem).advance? hadvance
  fresh := timed.fresh
  held := fun before time task delay timer after hrecord =>
    (timed.held before time task delay timer after hrecord).imp_left fun holds => holds.advance? hadvance
  noticed := timed.noticed

/-- Timers are set once. -/
theorem set_once (timed : Timed record timers) {before after earlier rest : Record} {time stamp delay again : Nat}
    {task setter : TaskId} {timer : TimerId}
    (hfirst : record = before ++ (time, task, .acted (.arm delay) (some timer)) :: after)
    (hsecond : record = earlier ++ (stamp, setter, .acted (.arm again) (some timer)) :: rest) :
    before = earlier ∧ task = setter ∧ delay = again := by
  rcases order_of_splits (hfirst.symm.trans hsecond) with ⟨rfl, hsame, -⟩ | ⟨mid, rfl, -⟩ | ⟨mid, rfl, -⟩
  · cases hsame
    exact ⟨rfl, rfl, rfl⟩
  · exact absurd (by simp) (timed.fresh _ _ _ _ _ _ hsecond time task delay)
  · exact absurd (by simp) (timed.fresh _ _ _ _ _ _ hfirst stamp setter again)

end Timed

/-- An act of a record that is continued by the acts of one process stands in the record, or is one of these. -/
theorem split_of_stamped {record before after : Record} {own : List Act} {now time : Nat} {task other : TaskId} {act : Act}
    (hsplit : record ++ own.map (fun act => (now, task, act)) = before ++ (time, other, act) :: after) :
    (∃ rest, record = before ++ (time, other, act) :: rest) ∨
      ∃ earlier rest, own = earlier ++ act :: rest ∧ before = record ++ earlier.map (fun act => (now, task, act)) ∧
        time = now ∧ other = task := by
  rcases split_of_append hsplit with ⟨rest, hrecord, -⟩ | ⟨rest, rfl, hown⟩
  · exact .inl ⟨rest, hrecord⟩
  · obtain ⟨earlier, more, rfl, rfl, hmore⟩ := List.map_eq_append_iff.1 hown
    obtain ⟨other, later, rfl, hentry, -⟩ := List.map_eq_cons_iff.1 hmore
    cases hentry
    exact .inr ⟨earlier, later, rfl, rfl, rfl, rfl⟩

theorem traceOf_stamps (now : Nat) (task : TaskId) (own : List Act) :
    traceOf (own.map fun act => (now, task, act)) = own.map fun act => (task, act) := by
  simp [traceOf, Function.comp_def]

namespace Timed

variable {machine : Machine} {record : Record} {system next : System} {task : TaskId} {activity after : Activity}
variable {own : List Act} {last : Host}

/-- The account of all timers goes on with every step of a process. -/
theorem advances (timed : Timed record system.host.timers) (hown : system.KeepsOff (traceOf record))
    (hcurrent : system.current = some (task, activity))
    (hadvances : machine.Advances task system.host activity own after last) :
    Timed (record ++ own.map fun act => (system.host.timers.now, task, act)) last.timers := by
  -- a step that sets or notices a timer does nothing else
  have hsets {earlier rest : List Act} {delay : Nat} {timer : TimerId}
      (hacts : own = earlier ++ .acted (.arm delay) (some timer) :: rest) :
      earlier = [] ∧ 0 < delay ∧ timer = (system.host.timers.arm delay).1 ∧
        last.timers = (system.host.timers.arm delay).2 := by
    obtain ⟨hfirst, hreact⟩ := hadvances.acted_of_split hacts
    rcases Host.of_react_arm hreact with ⟨hnone, -⟩ | ⟨hpos, hset, htimers⟩
    · cases hnone
    · exact ⟨hfirst, hpos, Option.some.inj hset, htimers⟩
  refine ⟨timed.orderly.ticks hadvances.ticks, ?_, ?_, ?_, ?_⟩
  · intro time setter delay timer hmem
    rcases List.mem_append.1 hmem with hold | hnew
    · exact (timed.due time setter delay timer hold).ticks hadvances.ticks
    · obtain ⟨act, hact, hentry⟩ := List.mem_map.1 hnew
      cases hentry
      obtain ⟨earlier, rest, hacts⟩ := List.append_of_mem hact
      obtain ⟨-, hpos, rfl, htimers⟩ := hsets hacts
      exact htimers ▸ .arm timed.orderly hpos
  · intro before time setter delay timer rest hrecord stamp other again hmem
    rcases split_of_stamped hrecord with ⟨later, hold⟩ | ⟨earlier, later, hacts, rfl, rfl, rfl⟩
    · exact timed.fresh before time setter delay timer later hold stamp other again hmem
    · obtain ⟨rfl, -, rfl, -⟩ := hsets hacts
      simp only [List.map_nil, List.append_nil] at hmem
      exact Nat.lt_irrefl _ (timed.due stamp other again _ hmem).known
  · intro before time setter delay timer rest hrecord
    rcases split_of_stamped hrecord with ⟨later, hold⟩ | ⟨earlier, later, hacts, rfl, rfl, rfl⟩
    · have hearlier {number : Nat} {act : Act} (hmem : act ∈ life (deeds (traceOf record) setter) number) :
          act ∈ life (deeds (traceOf (record ++ own.map fun act => (system.host.timers.now, task, act))) setter) number := by
        rw [traceOf_append, deeds_append]
        exact mem_life_append _ hmem
      rcases timed.held before time setter delay timer later hold with holds | ⟨act, hmem, hstops⟩
      · rcases hadvances.holds holds with holds | ⟨hstops, hrecorded⟩
        · exact .inl holds
        · -- the computation that stops the timer is the one that has set it
          have hmem : (setter, Act.acted (.arm delay) (some timer)) ∈ traceOf record := mem_traceOf.2 ⟨time, by simp [hold]⟩
          obtain ⟨hstack, hset⟩ := hown task activity hcurrent timer hstops setter delay hmem
          obtain ⟨act, hact, hstops⟩ := hrecorded.resolve_left fun hnone => by simp [hnone] at hstack
          obtain ⟨earlier, others, hsplit, hactor⟩ := exists_of_life hset
          obtain ⟨first, stamp, second, hrecord, rfl, -⟩ := exists_stamp hsplit
          obtain ⟨rfl, rfl, -⟩ := timed.set_once hold hrecord
          refine .inr ⟨act, ?_, hstops⟩
          obtain ⟨action, reply, rfl⟩ : ∃ (action : Action) (reply : action.Reply), act = .acted action reply := by
            cases act with
            | acted action reply => exact ⟨action, reply, rfl⟩
            | _ => cases hstops
          obtain ⟨rfl, -⟩ := hadvances.acted hact
          rw [traceOf_append, traceOf_stamps, deeds_append, deeds_own, life_concat, hactor]
          exact List.mem_append_right _ (by simp [Roll.actor])
      · exact .inr ⟨act, hearlier hmem, hstops⟩
    · obtain ⟨-, -, rfl, htimers⟩ := hsets hacts
      exact .inl (htimers ▸ .arm_self _ _)
  · intro before time setter ids index rest hrecord stamp other delay hmem
    rcases split_of_stamped hrecord with ⟨later, hold⟩ | ⟨earlier, later, hacts, rfl, rfl, rfl⟩
    · exact timed.noticed before time setter ids index later hold stamp other delay hmem
    · obtain ⟨rfl, hreact⟩ := hadvances.acted_of_split hacts
      simp only [List.map_nil, List.append_nil] at hmem
      exact (timed.due stamp other delay _ hmem).expired (Host.of_react_expired hreact)

/-- The account of all timers goes on with every step of a system. -/
theorem step (timed : Timed record system.host.timers) (hown : system.KeepsOff (traceOf record))
    (hstep : system.step machine = some next) : Timed (record ++ system.stamped machine) next.host.timers := by
  cases System.stepCases hstep with
  | still hstamped htimers => rwa [hstamped, List.append_nil, htimers]
  | jumps ids hjumps =>
      rw [System.stamped_of_idle hjumps.idle, List.append_nil]
      exact timed.advance? hjumps.advance
  | advances hcurrent hadvances htimers hstamped =>
      rw [hstamped, htimers]
      exact timed.advances hown hcurrent hadvances

end Timed

namespace Clocked

variable {machine : Machine} {first : Host} {record : Record} {system : System}

/-- All timers are accounted for, at any time. -/
theorem timed (clocked : Clocked machine first record system) (orderly : first.timers.Orderly) :
    Timed record system.host.timers := by
  induction clocked with
  | start =>
      have hnone {before after : Record} {entry : Nat × TaskId × Act} : [] ≠ before ++ entry :: after := by simp
      exact ⟨orderly, fun _ _ _ _ hmem => absurd hmem List.not_mem_nil, fun _ _ _ _ _ _ hrecord => absurd hrecord hnone,
        fun _ _ _ _ _ _ hrecord => absurd hrecord hnone, fun _ _ _ _ _ _ hrecord => absurd hrecord hnone⟩
  | step _ hown hstep ih => exact ih.step hown hstep

/-- When there is a scheduler, every timer with a delay is set. -/
theorem rings (clocked : Clocked machine first record system)
    (hnew : ∀ process ∈ first.processes, process.activity.stack? = none) (hscheduled : first.scheduled = true)
    {time delay : Nat} {task : TaskId} (hmem : (time, task, .acted (.arm delay) none) ∈ record) : delay = 0 := by
  induction clocked with
  | start => cases hmem
  | @step record system next clocked hown hstep ih =>
      rcases List.mem_append.1 hmem with hold | hlate
      · exact ih hold
      · cases System.stepCases hstep with
        | still hstamped htimers =>
            rw [hstamped] at hlate
            cases hlate
        | jumps ids hjumps =>
            rw [System.stamped_of_idle hjumps.idle] at hlate
            cases hlate
        | advances hcurrent hadvances htimers hstamped =>
            rw [hstamped] at hlate
            obtain ⟨act, hact, hentry⟩ := List.mem_map.1 hlate
            cases hentry
            obtain ⟨-, -, hreact⟩ := hadvances.acted hact
            have hkept : system.host.scheduled = true := (clocked.runs hnew).later.scheduled.trans hscheduled
            rcases Host.of_react_arm hreact with ⟨-, hzero | hnone⟩ | ⟨-, hsome, -⟩
            · exact hzero
            · cases hkept.symm.trans hnone
            · cases hsome

end Clocked
end EffectMachine
