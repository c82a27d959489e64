import EffectMachine.Proofs.Acts.Strides
import EffectMachine.Proofs.Interleaving.Moves

/-!
# Invariants of all processes

What every act of one process keeps, and what other processes cannot take away, holds of every process at
any time, however their moves are interleaved.

* `Invariant` is such a property of the deeds of a process and of the run it drives; `StepInvariant` is one
  that may fail in the middle of a step.
* `Runs.holds` says that it holds throughout.
* `Watched.invariant` is the case of a watch on frames, and `Runs.life_eq` and `Runs.completes` are what
  follows for the lives of frames.
-/

namespace EffectMachine

/-- The stack that a process drives, or one that it may drive next: a new one if it drives none. -/
def Drives : Option Stack → Stack → Prop
  | some driven, stack => stack = driven
  | none, stack => ∃ context signal, stack = { context, signal }

/-- There is always a stack to look at. -/
theorem exists_drives (driven : Option Stack) : ∃ stack, Drives driven stack :=
  match driven with
  | some stack => ⟨stack, rfl⟩
  | none => ⟨{ context := default, signal := none }, _, _, rfl⟩

/-- The stack that a process drives, if it drives one. -/
def System.driven? (system : System) (task : TaskId) : Option Stack :=
  (system.activity? task).bind Activity.stack?

/-- A property of the deeds of a process and of the run it drives that every act keeps, and that lasts while
other processes move and when the process begins a new run. -/
structure Invariant (P : List Act → Run → Prop) : Prop where
  fresh : ∀ (context : Context) (signal : Option TaskId) (host : Host),
    P [] { stack := { context, signal }, host }
  again : ∀ {acts : List Act} {stack : Stack} {host : Host} (context : Context) (signal : Option TaskId),
    stack.below = [] → P acts { stack, host } → P acts { stack := { context, signal }, host }
  later : ∀ {acts : List Act} {stack : Stack} {host later : Host}, host.Later later →
    P acts { stack, host } → P acts { stack, host := later }
  act : ∀ {acts : List Act} {run next : Run} {act : Act}, run.Does act next → P acts run →
    P (acts ++ [act]) next

/-- A property of the deeds of a process and of the run it drives that whole steps of the process keep, and
that lasts while other processes move and when the process begins a new run. -/
structure StepInvariant (machine : Machine) (P : List Act → Run → Prop) : Prop where
  fresh : ∀ (context : Context) (signal : Option TaskId) (host : Host),
    P [] { stack := { context, signal }, host }
  again : ∀ {acts : List Act} {stack : Stack} {host : Host} (context : Context) (signal : Option TaskId),
    stack.below = [] → P acts { stack, host } → P acts { stack := { context, signal }, host }
  later : ∀ {acts : List Act} {stack : Stack} {host later : Host}, host.Later later →
    P acts { stack, host } → P acts { stack, host := later }
  opened : ∀ {acts : List Act} {context : Context} {signal : Option TaskId} {host : Host} (effect : Effect),
    P acts { stack := { context, signal }, host } →
    P (acts ++ machine.handleActs effect { stack := { context, signal }, host })
      (machine.begin context signal effect host)
  stepped : ∀ {acts : List Act} {run : Run}, run.stack.below ≠ [] → P acts run →
    P (acts ++ machine.stepActs run) (machine.step run).run

namespace Invariant

variable {P : List Act → Run → Prop} {acts : List Act}

/-- A sequence of acts keeps an invariant. -/
theorem chain (invariant : Invariant P) {run final : Run} {more : List Act}
    (hchain : run.Chain more final) (start : P acts run) : P (acts ++ more) final := by
  induction hchain generalizing acts with
  | done run =>
      rw [List.append_nil]
      exact start
  | quiet host hquiet _ ih => exact ih (invariant.later (Host.Grows.of_quiet hquiet).later start)
  | act hdoes _ ih =>
      rw [List.append_cons]
      exact ih (invariant.act hdoes start)

/-- What every act keeps is kept by whole steps. -/
theorem steps (invariant : Invariant P) (machine : Machine) : StepInvariant machine P where
  fresh := invariant.fresh
  again := invariant.again
  later := invariant.later
  opened := fun effect start => invariant.chain (machine.handle_chain effect _) start
  stepped := fun _ start => invariant.chain (machine.step_chain _) start

end Invariant

/-- A step of a process keeps an invariant. -/
theorem StepInvariant.advances {P : List Act → Run → Prop} {acts : List Act} {machine : Machine}
    (invariant : StepInvariant machine P) {task : TaskId} {host later : Host} {activity next : Activity}
    {own : List Act} (hadvances : machine.Advances task host activity own next later)
    (start : ∀ stack, Drives activity.stack? stack → P acts { stack, host }) {stack : Stack}
    (hdrives : Drives next.stack? stack) : P (acts ++ own) { stack, host := later } := by
  have hlater := hadvances.grows.later
  have hstep (driven : Stack) (habove : driven.below ≠ []) (hstart : P acts { stack := driven, host }) :
      P (acts ++ machine.stepActs { stack := driven, host })
        { stack := (machine.step { stack := driven, host }).next
          host := (machine.step { stack := driven, host }).host } := by
    rw [← Stepped.run_eq]
    exact invariant.stepped habove hstart
  cases hadvances with
  | begin context effect =>
      cases hdrives
      exact invariant.opened effect (start _ ⟨_, _, rfl⟩)
  | step driven habove =>
      cases hdrives
      exact hstep driven habove (start _ rfl)
  | settle driven hbelow =>
      obtain ⟨context, signal, rfl⟩ := hdrives
      rw [List.append_nil]
      exact invariant.again context signal hbelow (start _ rfl)
  | submit context effect resume =>
      cases hdrives
      exact invariant.opened (machine.submission effect) (start _ ⟨_, _, rfl⟩)
  | runStep driven resume habove =>
      cases hdrives
      exact hstep driven habove (start _ rfl)
  | runEnd driven resume hbelow =>
      obtain ⟨context, signal, rfl⟩ := hdrives
      rw [List.append_nil]
      exact invariant.again context signal hbelow (start _ rfl)
  | _ =>
      rw [List.append_nil]
      exact invariant.later hlater (start _ hdrives)

/-- What a process drives is no matter of how the host is noted. -/
theorem System.driven?_eq {system : System} {host : Host} (hlike : system.parked.Like host)
    (task : TaskId) :
    system.driven? task = (host.processes[task.index]?.map Process.activity).bind Activity.stack? := by
  rw [System.driven?, System.activity?, hlike.processes]

namespace Host

/-- While a host grows, no process begins to drive a stack. -/
theorem Grows.driven?_eq {host later : Host} (grows : host.Grows later) (index : Nat) :
    (later.processes[index]?.map Process.activity).bind Activity.stack? =
      (host.processes[index]?.map Process.activity).bind Activity.stack? := by
  cases hprocess : host.processes[index]? with
  | some process =>
      obtain ⟨after, hafter, hactivity, _⟩ := grows.kept hprocess
      rw [hafter]
      show after.activity.stack? = process.activity.stack?
      rw [hactivity]
  | none =>
      cases hlater : later.processes[index]? with
      | none => rfl
      | some process => exact grows.new hlater (List.getElem?_eq_none_iff.1 hprocess)

/-- The activity that was noted of a process. -/
theorem activity_park_self {host : Host} {task : TaskId} {process : Process} (activity : Activity)
    (hprocess : host.processes[task.index]? = some process) :
    (host.park task activity).processes[task.index]?.map Process.activity = some activity := by
  show (host.processes.modify task.index _)[task.index]?.map _ = _
  rw [List.getElem?_modify, hprocess]
  simp

/-- Noting what a process is doing is no matter of the others. -/
theorem park_other {host : Host} {task : TaskId} {index : Nat} (activity : Activity)
    (hother : task.index ≠ index) :
    (host.park task activity).processes[index]? = host.processes[index]? := by
  show (host.processes.modify task.index _)[index]? = _
  rw [List.getElem?_modify]
  simp [hother]

end Host

/-- The activity of the running process. -/
theorem System.activity?_current {system : System} {task : TaskId} {activity : Activity} (sound : system.Sound)
    (hcurrent : system.current = some (task, activity)) : system.activity? task = some activity := by
  obtain ⟨process, hprocess, _⟩ := sound task activity hcurrent
  rw [System.activity?, System.parked, hcurrent]
  exact Host.activity_park_self activity hprocess

/-- The activity of a process other than the running one. -/
theorem System.activity?_other {system : System} {running task : TaskId} {activity : Activity}
    (hcurrent : system.current = some (running, activity)) (hother : running ≠ task) :
    system.activity? task = system.host.processes[task.index]?.map Process.activity := by
  rw [System.activity?, System.parked, hcurrent]
  exact congrArg (Option.map Process.activity)
    (Host.park_other activity fun hindex => hother (congrArg TaskId.mk hindex))

namespace Runs

variable {machine : Machine} {first : Host} {trace : Trace} {system : System}
variable {P : List Act → Run → Prop}

/-- What whole steps keep holds of every process at any time. -/
theorem holds_steps (runs : Runs machine first trace system) (invariant : StepInvariant machine P) (task : TaskId)
    {stack : Stack} (hdrives : Drives (system.driven? task) stack) :
    P (deeds trace task) { stack, host := system.host } := by
  induction runs generalizing task stack with
  | start hnew =>
      have hnone : System.driven? { host := first } task = none := by
        show (first.processes[task.index]?.map _).bind _ = none
        cases hprocess : first.processes[task.index]? with
        | none => rfl
        | some process => exact hnew process (List.mem_of_getElem? hprocess)
      rw [hnone] at hdrives
      obtain ⟨context, signal, rfl⟩ := hdrives
      exact invariant.fresh context signal first
  | @move trace acts system next runs hmoves ih =>
      have hlater := hmoves.later runs.sound
      rw [deeds_append]
      rcases hmoves.cases runs.sound with ⟨rfl, hlike⟩ |
        ⟨running, activity, hcurrent, own, after, later, hadvances, rfl, hsettled, hlike⟩
      · rw [System.driven?_eq hlike] at hdrives
        rw [deeds_nil, List.append_nil]
        exact invariant.later hlater (ih task hdrives)
      · rw [System.driven?_eq hlike] at hdrives
        by_cases hown : running = task
        · subst hown
          obtain ⟨process, hprocess, _⟩ := runs.sound running activity hcurrent
          obtain ⟨_, hafter, _⟩ := hadvances.grows.kept hprocess
          rw [Host.activity_park_self after hafter] at hdrives
          rw [deeds_own]
          have hstart : ∀ stack, Drives activity.stack? stack →
              P (deeds trace running) { stack, host := system.host } := by
            intro stack hstack
            refine ih running ?_
            rw [System.driven?, System.activity?_current runs.sound hcurrent]
            exact hstack
          exact invariant.later hsettled (invariant.advances hadvances hstart hdrives)
        · rw [Host.park_other after fun hindex => hown (congrArg TaskId.mk hindex),
            hadvances.grows.driven?_eq] at hdrives
          rw [deeds_other hown, List.append_nil]
          refine invariant.later hlater (ih task ?_)
          rw [System.driven?, System.activity?_other hcurrent hown]
          exact hdrives

/-- An invariant of processes holds of every process at any time. -/
theorem holds (runs : Runs machine first trace system) (invariant : Invariant P) (task : TaskId)
    {stack : Stack} (hdrives : Drives (system.driven? task) stack) :
    P (deeds trace task) { stack, host := system.host } :=
  runs.holds_steps (invariant.steps machine) task hdrives

/-- What does not mention the run holds of the deeds of every process. -/
theorem holds_of_deeds {Q : List Act → Host → Prop} (runs : Runs machine first trace system)
    (invariant : Invariant fun acts run => Q acts run.host) (task : TaskId) :
    Q (deeds trace task) system.host := by
  obtain ⟨stack, hdrives⟩ := exists_drives (system.driven? task)
  exact runs.holds invariant task hdrives

end Runs

namespace Watched

variable {watch : Watch} {acts : List Act}

/-- A watch goes on when the process begins a new run. -/
theorem again {stack : Stack} {host : Host} (context : Context) (signal : Option TaskId)
    (hbelow : stack.below = []) (watched : Watched watch acts { stack, host }) :
    Watched watch acts { stack := { context, signal }, host } where
  tracks := ⟨watched.tracks.sound, by rw [watched.tracks.length, hbelow], watched.tracks.unborn⟩
  kept := by
    have hlength := watched.tracks.length
    have hsentinel := watched.tracks.sound.sentinel
    rw [hbelow] at hlength
    obtain ⟨number, hlive⟩ := List.length_eq_one_iff.1 hlength
    rw [hlive] at hsentinel ⊢
    cases hsentinel
    exact .cons (fun hpos => absurd hpos (Nat.lt_irrefl 0)) .nil
  gone := watched.gone

/-- A watch is an invariant of processes. -/
theorem invariant (watch : Watch) : Invariant (Watched watch) where
  fresh := fun _ _ _ => .initial watch rfl
  again := fun context signal hbelow watched => watched.again context signal hbelow
  later := fun _ watched => ⟨watched.tracks.host _, watched.kept, watched.gone⟩
  act := fun hdoes watched => watched.does hdoes

end Watched

/-- The computation of a frame played all its acts, whatever the order of moves. -/
theorem Runs.life_eq {machine : Machine} {first : Host} {trace : Trace} {system : System}
    (runs : Runs machine first trace system) {task : TaskId} {number : Nat} {computation : Computation}
    {tag : Option HandlerTag} (hpushed : .pushed computation tag ∈ life (deeds trace task) number) :
    ∃ later progress, life (deeds trace task) number = .pushed computation tag :: later ∧
      Plays (.fresh computation.body) later progress := by
  obtain ⟨stack, hdrives⟩ := exists_drives (system.driven? task)
  exact (runs.holds (Watched.invariant lives) task hdrives).life_eq hpushed

/-- A computation that completed came to its end. -/
theorem Runs.completes {machine : Machine} {first : Host} {trace : Trace} {system : System}
    (runs : Runs machine first trace system) {task : TaskId} {number : Nat} {computation : Computation}
    {tag : Option HandlerTag} {outcome : Outcome}
    (hpushed : .pushed computation tag ∈ life (deeds trace task) number)
    (hcompleted : .completed outcome ∈ life (deeds trace task) number) :
    ∃ begun rest, strides (life (deeds trace task) number) = .resumed begun :: rest ∧
      Completes computation.body rest outcome := by
  obtain ⟨later, progress, hlife, hplays⟩ := runs.life_eq hpushed
  have hstrides : strides (life (deeds trace task) number) = strides later := by
    rw [hlife]
    rfl
  rw [hstrides]
  have hlater : .completed outcome ∈ strides later := by
    rw [← hstrides]
    exact mem_strides.2 ⟨hcompleted, rfl⟩
  exact hplays.follows.completes hlater

end EffectMachine
