import EffectMachine.Proofs.Interleaving.Ledgers
import EffectMachine.Proofs.Windows.Punctuality

/-!
# Records of what is done when

A record lists the acts of all processes in order, each with the time at which it is done.  Time passes only while nobody
can run: if it is later than some act, then since then nobody could run once, still at the time of that act.

* `Record` is a record of acts with their times, and `traceOf` the acts alone.
* `Clocked` is what a host comes to by the steps of its schedule, with the record of them.  Every computation stops only
  timers that it has set itself.
* `Clocked.pairwise` says that times only grow, and `Clocked.exists_rest` that time passes only while nobody can run.
-/

namespace EffectMachine

/-- The acts of all processes, in order, each with the time at which it is done. -/
abbrev Record :=
  List (Nat × TaskId × Act)

/-- The acts of a record without their times. -/
def traceOf (record : Record) : Trace :=
  record.map Prod.snd

section TraceOf

variable {record : Record}

@[simp] theorem traceOf_nil : traceOf [] = [] :=
  rfl

@[simp] theorem traceOf_append (record more : Record) : traceOf (record ++ more) = traceOf record ++ traceOf more :=
  List.map_append

@[simp] theorem traceOf_cons (time : Nat) (entry : TaskId × Act) (record : Record) :
    traceOf ((time, entry) :: record) = entry :: traceOf record :=
  rfl

theorem mem_traceOf {entry : TaskId × Act} : entry ∈ traceOf record ↔ ∃ time, (time, entry) ∈ record := by
  simp [traceOf]

/-- What was done was done at some time. -/
theorem exists_stamp {before after : Trace} {entry : TaskId × Act} (htrace : traceOf record = before ++ entry :: after) :
    ∃ earlier time later, record = earlier ++ (time, entry) :: later ∧ traceOf earlier = before ∧ traceOf later = after := by
  obtain ⟨earlier, rest, rfl, hearlier, hrest⟩ := List.map_eq_append_iff.1 htrace
  obtain ⟨⟨time, other⟩, later, rfl, rfl, hlater⟩ := List.map_eq_cons_iff.1 hrest
  exact ⟨earlier, time, later, rfl, hearlier, hlater⟩

end TraceOf

/-! ## Whose timers are stopped -/

/-- The timers that an action notices or stops. -/
def Action.stops : Action → List TimerId
  | .expired timers | .disarm timers => timers
  | _ => []

/-- The timers that an act notices or stops. -/
def Act.stops : Act → List TimerId
  | .acted action _ => action.stops
  | _ => []

/-- The timers that a body is about to notice or to stop. -/
def Body.stops : Body → List TimerId
  | .act action _ => action.stops
  | _ => []

/-- The timers that a process is about to notice or to stop. -/
def Activity.stops : Activity → List TimerId
  | .task stack | .run stack _ =>
    match stack.top.progress with
    | .running body => body.stops
    | _ => []
  | .client (.evaluate _ body) => body.stops
  | _ => []

/-- If the running process is about to notice or to stop a timer that a computation has set, then it is this computation,
on top of the stack of the process, that does so. -/
def System.KeepsOff (system : System) (trace : Trace) : Prop :=
  ∀ task activity, system.current = some (task, activity) → ∀ timer ∈ activity.stops, ∀ setter delay,
    (setter, .acted (.arm delay) (some timer)) ∈ trace → activity.stack?.isSome = true ∧
      .acted (.arm delay) (some timer) ∈ life (deeds trace task) ((Roll.after (deeds trace task)).live.headD 0)

/-! ## The steps of a schedule with their times -/

/-- The acts of the next step of a system, with the time. -/
def System.stamped (machine : Machine) (system : System) : Record :=
  (system.acts machine).map fun entry => (system.host.timers.now, entry)

/-- What becomes of a host by the steps of its schedule, with the record of them, if every computation stops only timers
that it has set itself. -/
inductive Clocked (machine : Machine) (first : Host) : Record → System → Prop
  | start : Clocked machine first [] { host := first }
  | step {record : Record} {system next : System} (clocked : Clocked machine first record system)
      (hown : system.KeepsOff (traceOf record)) (hstep : system.step machine = some next) :
      Clocked machine first (record ++ system.stamped machine) next

@[simp] theorem System.traceOf_stamped (machine : Machine) (system : System) :
    traceOf (system.stamped machine) = system.acts machine := by
  simp [traceOf, stamped, Function.comp_def]

theorem System.time_of_mem_stamped {machine : Machine} {system : System} {time : Nat} {entry : TaskId × Act}
    (hmem : (time, entry) ∈ system.stamped machine) : time = system.host.timers.now := by
  obtain ⟨_, _, hentry⟩ := List.mem_map.1 hmem
  exact (congrArg Prod.fst hentry).symm

/-- While nothing runs nothing is done. -/
theorem System.stamped_of_idle {machine : Machine} {system : System} (hidle : system.current = none) :
    system.stamped machine = [] := by
  simp [stamped, acts, hidle]

theorem System.Jumps.resting {system next : System} {ids : List TimerId} (hjumps : system.Jumps ids next) : system.Resting :=
  ⟨hjumps.idle, hjumps.nobody⟩

namespace Clocked

variable {machine : Machine} {first : Host} {record before after : Record} {system : System} {time : Nat}
variable {entry : TaskId × Act}

theorem scheduled (clocked : Clocked machine first record system) :
    Scheduled machine { host := first } (traceOf record) system := by
  induction clocked with
  | start => exact .start
  | step _ _ hstep ih =>
      rw [traceOf_append, System.traceOf_stamped]
      exact ih.step hstep

theorem runs (clocked : Clocked machine first record system)
    (hnew : ∀ process ∈ first.processes, process.activity.stack? = none) :
    Runs machine first (traceOf record) system :=
  clocked.scheduled.runs (.start hnew)

theorem attended (clocked : Clocked machine first record system)
    (hnew : ∀ process ∈ first.processes, process.activity.stack? = none) : system.Attended :=
  clocked.scheduled.cooperates.attended (.of_new hnew)

theorem punctual (clocked : Clocked machine first record system)
    (hclients : ∀ process ∈ first.processes, ∃ errand, process.activity = .client errand) : system.Punctual :=
  clocked.scheduled.punctual (.of_clients hclients)

/-- It is no earlier than when anything was done. -/
theorem le_now (clocked : Clocked machine first record system) (hmem : (time, entry) ∈ record) :
    time ≤ system.host.timers.now := by
  induction clocked with
  | start => cases hmem
  | @step record system next clocked hown hstep ih =>
      have hnow : system.host.timers.now ≤ next.host.timers.now := by
        rcases System.timers_of_step hstep with hticks | ⟨ids, hjumps⟩
        · exact Nat.le_of_eq hticks.now.symm
        · exact Timers.now_le_of_advance? hjumps.advance
      rcases List.mem_append.1 hmem with hold | hnew
      · exact Nat.le_trans (ih hold) hnow
      · exact System.time_of_mem_stamped hnew ▸ hnow

/-- Times only grow. -/
theorem pairwise (clocked : Clocked machine first record system) :
    record.Pairwise fun earlier later => earlier.1 ≤ later.1 := by
  induction clocked with
  | start => exact .nil
  | @step record system next clocked hown hstep ih =>
      refine List.pairwise_append.2 ⟨ih, ?_, fun earlier hearlier later hlater => ?_⟩
      · refine List.pairwise_of_forall_mem_list fun earlier hearlier later hlater => ?_
        exact Nat.le_of_eq ((System.time_of_mem_stamped hearlier).trans (System.time_of_mem_stamped hlater).symm)
      · rw [System.time_of_mem_stamped hlater]
        exact clocked.le_now hearlier

/-- What is done later is done at no earlier time. -/
theorem le_of_mem_after (clocked : Clocked machine first record system) (hrecord : record = before ++ (time, entry) :: after)
    {later : Nat} {other : TaskId × Act} (hmem : (later, other) ∈ after) : time ≤ later := by
  have hpairs := clocked.pairwise
  rw [hrecord] at hpairs
  exact List.rel_of_pairwise_cons (List.pairwise_append.1 hpairs).2.1 hmem

/-- Time passes only while nobody can run. -/
theorem exists_rest (clocked : Clocked machine first record system) (hmem : (time, entry) ∈ record)
    (hpassed : time < system.host.timers.now) :
    ∃ earlier later resting, record = earlier ++ later ∧ Clocked machine first earlier resting ∧ resting.Resting ∧
      resting.host.timers.now = time ∧ ∀ other ∈ later, time < other.1 := by
  induction clocked with
  | start => cases hmem
  | @step record system next clocked hown hstep ih =>
      rcases List.mem_append.1 hmem with hold | hnew
      · rcases Nat.lt_or_eq_of_le (clocked.le_now hold) with hless | rfl
        · obtain ⟨earlier, later, resting, rfl, hclocked, hresting, hnow, hlater⟩ := ih hold hless
          refine ⟨earlier, _, resting, List.append_assoc .., hclocked, hresting, hnow, fun other hother => ?_⟩
          rcases List.mem_append.1 hother with hother | hother
          · exact hlater other hother
          · exact System.time_of_mem_stamped hother ▸ hless
        · rcases System.timers_of_step hstep with hticks | ⟨ids, hjumps⟩
          · exact absurd hticks.now (Nat.ne_of_gt hpassed)
          · refine ⟨record, [], system, by rw [System.stamped_of_idle hjumps.idle], clocked, hjumps.resting, rfl, ?_⟩
            exact fun other hother => absurd hother List.not_mem_nil
      · rcases System.timers_of_step hstep with hticks | ⟨ids, hjumps⟩
        · exact absurd (hticks.now.trans (System.time_of_mem_stamped hnew).symm) (Nat.ne_of_gt hpassed)
        · rw [System.stamped_of_idle hjumps.idle] at hnew
          cases hnew

end Clocked

/-- The timer that an act sets, with its delay. -/
def Act.setting? : Act → Option (Nat × TimerId)
  | .acted (.arm delay) (some timer) => some (delay, (timer : TimerId))
  | _ => none

/-- Whether the running process keeps off the timers of other computations. -/
def System.keepsOff (system : System) (trace : Trace) : Bool :=
  match system.current with
  | none => true
  | some (task, activity) => trace.all fun entry =>
    match entry.2.setting? with
    | none => true
    | some (delay, timer) => !activity.stops.contains timer || (activity.stack?.isSome &&
        (life (deeds trace task) ((Roll.after (deeds trace task)).live.headD 0)).any fun act =>
          act.setting? == some (delay, timer))

theorem Act.eq_of_setting? {act : Act} {delay : Nat} {timer : TimerId} (hsetting : act.setting? = some (delay, timer)) :
    act = .acted (.arm delay) (some timer) := by
  unfold Act.setting? at hsetting
  split at hsetting
  · cases hsetting
    rfl
  · cases hsetting

theorem System.KeepsOff.of_keepsOff {system : System} {trace : Trace} (hkeeps : system.keepsOff trace = true) :
    system.KeepsOff trace := by
  intro task activity hcurrent timer hstops setter delay hset
  simp only [System.keepsOff, hcurrent] at hkeeps
  have hentry := List.all_eq_true.1 hkeeps _ hset
  simp only [Act.setting?, Bool.or_eq_true, Bool.not_eq_true', Bool.and_eq_true, List.any_eq_true, beq_iff_eq] at hentry
  rcases hentry with hnone | ⟨hstack, act, hact, hsetting⟩
  · rw [List.contains_iff_mem.2 hstops] at hnone
    cases hnone
  · exact ⟨hstack, Act.eq_of_setting? hsetting ▸ hact⟩

/-- Some steps of a system with their record, as long as everybody keeps off the timers of others. -/
def System.clock (machine : Machine) : Nat → Record → System → Record × System
  | 0, record, system => (record, system)
  | steps + 1, record, system =>
    if system.keepsOff (traceOf record) then
      match system.step machine with
      | some next => next.clock machine steps (record ++ system.stamped machine)
      | none => (record, system)
    else (record, system)

/-- A record goes on with the steps of its system. -/
theorem Clocked.clock {machine : Machine} {first : Host} {record : Record} {system : System}
    (clocked : Clocked machine first record system) (steps : Nat) :
    Clocked machine first (system.clock machine steps record).1 (system.clock machine steps record).2 := by
  induction steps generalizing record system with
  | zero => exact clocked
  | succ steps ih =>
      unfold System.clock
      split
      · rename_i hkeeps
        split
        · rename_i next hstep
          exact ih (clocked.step (System.KeepsOff.of_keepsOff hkeeps) hstep)
        · exact clocked
      · exact clocked

end EffectMachine
