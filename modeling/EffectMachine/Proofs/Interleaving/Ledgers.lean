import EffectMachine.Proofs.Interleaving.Activities
import EffectMachine.Proofs.Interleaving.Lifting

/-!
# Ledgers of a system

Some properties are not of one process but of all of them together: what all processes are doing, and what
stands in the books of the host.

* `exists_of_deeds` finds an act of a process among the acts of the system.
* `Runs.ledger` is the induction over the moves of a system for a property of its acts and of its host, and
  `Runs.books` the one over single acts for a property of its acts and of the open batches.
-/

namespace EffectMachine

section Deeds

variable {trace : Trace} {task running : TaskId} {act : Act}

theorem deeds_concat (trace : Trace) (running task : TaskId) (act : Act) :
    deeds (trace ++ [(running, act)]) task = deeds trace task ++ if running = task then [act] else [] := by
  rw [deeds_append]
  by_cases hsame : running = task <;> simp [deeds, hsame]

/-- What a process did it did at some point of the system. -/
theorem exists_of_deeds {before after : List Act} (hdeeds : deeds trace task = before ++ act :: after) :
    ∃ earlier later, trace = earlier ++ (task, act) :: later ∧ deeds earlier task = before ∧
      deeds later task = after := by
  induction trace generalizing before with
  | nil => simp at hdeeds
  | cons entry trace ih =>
      by_cases hown : entry.1 = task
      · have hhead : deeds (entry :: trace) task = entry.2 :: deeds trace task := by simp [deeds, hown]
        rw [hhead] at hdeeds
        cases before with
        | nil =>
            obtain ⟨rfl, rfl⟩ := List.cons.inj hdeeds
            exact ⟨[], trace, by simp [← hown], rfl, rfl⟩
        | cons first before =>
            obtain ⟨rfl, hrest⟩ := List.cons.inj hdeeds
            obtain ⟨earlier, later, rfl, hbefore, hafter⟩ := ih hrest
            exact ⟨entry :: earlier, later, rfl, by simp [deeds, hown, ← hbefore], hafter⟩
      · have hskip (rest : Trace) : deeds (entry :: rest) task = deeds rest task := by simp [deeds, hown]
        rw [hskip] at hdeeds
        obtain ⟨earlier, later, rfl, hbefore, hafter⟩ := ih hdeeds
        exact ⟨entry :: earlier, later, rfl, by rw [hskip, hbefore], hafter⟩

theorem mem_deeds_iff : act ∈ deeds trace task ↔ (task, act) ∈ trace := by
  constructor
  · intro hmem
    obtain ⟨⟨owner, other⟩, hentry, hown⟩ := List.mem_filterMap.1 hmem
    split at hown
    · rename_i hsame
      obtain rfl : owner = task := hsame
      cases hown
      exact hentry
    · cases hown
  · exact fun hmem => List.mem_filterMap.2 ⟨(task, act), hmem, by simp⟩

/-- What stands in the life of a frame stands in the acts of all processes. -/
theorem exists_of_life {number : Nat} (hmem : act ∈ life (deeds trace task) number) :
    ∃ before after, trace = before ++ (task, act) :: after ∧ (Roll.after (deeds before task)).actor act = number := by
  obtain ⟨before, after, hdeeds, hactor⟩ := exists_of_mem_life hmem
  obtain ⟨earlier, later, htrace, hbefore, -⟩ := exists_of_deeds hdeeds
  exact ⟨earlier, later, htrace, hbefore ▸ hactor⟩

/-- What a frame does among the acts of all processes stands in its life. -/
theorem mem_life_of_split {before after : Trace} {number : Nat} (htrace : trace = before ++ (task, act) :: after)
    (hactor : (Roll.after (deeds before task)).actor act = number) : act ∈ life (deeds trace task) number := by
  have hdeeds : deeds trace task = deeds before task ++ act :: deeds after task := by
    rw [htrace, List.append_cons, deeds_append, deeds_concat, if_pos rfl, List.append_assoc]
    rfl
  obtain ⟨later, hlater⟩ := exists_life_of_split hdeeds hactor
  simp [hlater]

end Deeds

namespace Run

variable {run next final : Run} {act : Act} {acts : List Act}

/-- A stack keeps its context. -/
theorem Does.context_eq (hdoes : run.Does act next) : next.stack.context = run.stack.context := by
  cases hdoes with
  | answer value =>
      unfold answerTop
      split <;> rfl
  | fail error =>
      unfold failTop
      split <;> rfl
  | fork effect hscheduled =>
      unfold answerTop
      split <;> rfl
  | _ => rfl

theorem Chain.context_eq (hchain : Chain run acts final) : final.stack.context = run.stack.context := by
  induction hchain with
  | done run => rfl
  | quiet host hquiet _ ih => exact ih
  | act hdoes _ ih => exact ih.trans hdoes.context_eq

/-- A sequence of acts adds the tasks that it forks. -/
theorem Chain.activities (hchain : Chain run acts final) :
    final.host.activities = run.host.activities ++ acts.flatMap (Act.spawned run.stack.context) := by
  induction hchain with
  | done run => simp
  | quiet host hquiet _ ih => exact ih.trans (by rw [Host.activities_of_quiet hquiet])
  | act hdoes _ ih =>
      rw [ih, hdoes.activities, hdoes.context_eq, List.flatMap_cons, List.append_assoc]

end Run

/-- Activities that a step of a process adds: the tasks that it forks, or the clients that it sends out. -/
inductive Machine.Adds (activity : Activity) (own : List Act) : Activity → Prop
  | forked (context : Context) {effect : Effect} (hforked : .forked effect ∈ own) : Adds activity own (.forked context effect)
  | sentOut {errands : List Errand} (hjoin : activity = .client (.join errands)) {errand : Errand}
      (hmem : errand ∈ errands) : Adds activity own (.client errand)

/-- A step of a process adds nothing but the tasks that it forks and the clients that it sends out. -/
theorem Machine.Advances.activities {machine : Machine} {task : TaskId} {host later : Host}
    {activity after : Activity} {own : List Act} (hadvances : machine.Advances task host activity own after later) :
    ∃ added, later.activities = host.activities ++ added ∧ ∀ other ∈ added, Adds activity own other := by
  have hchain {run final : Run} {acts : List Act} (hchain : run.Chain acts final) :
      ∃ added, final.host.activities = run.host.activities ++ added ∧ ∀ other ∈ added, Adds activity acts other := by
    refine ⟨_, hchain.activities, fun other hmem => ?_⟩
    obtain ⟨act, hact, hspawned⟩ := List.mem_flatMap.1 hmem
    cases act with
    | forked effect =>
        rw [List.mem_singleton.1 hspawned]
        exact .forked _ hact
    | _ => cases hspawned
  have hstep (stack : Stack) : ∃ added, (machine.step { stack, host }).host.activities = host.activities ++ added ∧
      ∀ other ∈ added, Adds activity (machine.stepActs { stack, host }) other := by
    have hadded := hchain (machine.step_chain { stack, host })
    rwa [Stepped.run_eq] at hadded
  have hnone {later : Host} (hlater : later.activities = host.activities) (own : List Act) :
      ∃ added, later.activities = host.activities ++ added ∧ ∀ other ∈ added, Adds activity own other :=
    ⟨[], by rw [hlater, List.append_nil], List.forall_mem_nil _⟩
  cases hadvances with
  | begin context effect => exact hchain (machine.handle_chain effect { stack := { context, signal := some task }, host })
  | step stack habove => exact hstep stack
  | submit context effect resume =>
      exact hchain (machine.handle_chain (machine.submission effect) { stack := { context, signal := none }, host })
  | runStep stack resume habove => exact hstep stack
  | act context action resume reply later hreact =>
      have hactivities := host.activities_react action
      rcases hreact with hreact | hreact
      · rw [hreact] at hactivities
        exact hnone hactivities _
      · rw [hreact] at hactivities
        exact hnone hactivities _
  | wait context action resume later occasions hreact =>
      have hactivities := host.activities_react action
      rw [hreact] at hactivities
      exact hnone hactivities _
  | sendOut errands =>
      refine ⟨_, host.activities_sendOut errands, fun other hmem => ?_⟩
      obtain ⟨errand, herrand, rfl⟩ := List.mem_map.1 hmem
      exact .sentOut rfl herrand
  | _ => exact hnone rfl _

/-- What a process is doing stands at its place. -/
theorem System.activity?_eq_getElem? (system : System) (task : TaskId) :
    system.activity? task = system.parked.activities[task.index]? := by
  rw [System.activity?, Host.activities, List.getElem?_map]

@[simp] theorem Host.batches_park (host : Host) (task : TaskId) (activity : Activity) :
    (host.park task activity).batches = host.batches :=
  rfl

/-- Stopping the running process leaves the open batches alone. -/
@[simp] theorem System.batches_parked (system : System) : system.parked.batches = system.host.batches := by
  unfold System.parked
  split <;> rfl

namespace Runs

variable {machine : Machine} {first : Host} {trace : Trace} {system : System}

/-- What holds of a host on which no process has begun, and is kept by every step of a process, holds at any
time. -/
theorem ledger {Q : Trace → Host → Prop} (runs : Runs machine first trace system)
    (start : (∀ process ∈ first.processes, process.activity.stack? = none) → Q [] first)
    (like : ∀ {trace : Trace} {host other : Host}, host.Like other → Q trace other → Q trace host)
    (advance : ∀ {trace : Trace} {system : System} {task : TaskId} {activity after : Activity} {own : List Act}
      {later : Host}, Runs machine first trace system → system.current = some (task, activity) →
      machine.Advances task system.host activity own after later → Q trace (system.host.park task activity) →
      Q (trace ++ own.map fun act => (task, act)) (later.park task after)) :
    Q trace system.parked := by
  induction runs with
  | start hnew => exact start hnew
  | @move trace acts system next runs hmoves ih =>
      rcases hmoves.cases runs.sound with ⟨rfl, hlike⟩ |
        ⟨task, activity, hcurrent, own, after, later, hadvances, rfl, -, hlike⟩
      · rw [List.append_nil]
        exact like hlike ih
      · refine like hlike (advance runs hcurrent hadvances ?_)
        rwa [System.parked, hcurrent] at ih

end Runs

/-- Taking the outcomes of tasks leaves the open batches alone. -/
theorem Host.batches_collectAll (host : Host) (tasks : List TaskId) :
    (tasks.foldl Host.collect host).batches = host.batches := by
  induction tasks generalizing host with
  | nil => rfl
  | cons task tasks ih =>
      refine (ih _).trans ?_
      unfold Host.collect
      split <;> rfl

/-- A computation that has to wait leaves the open batches alone. -/
theorem Host.batches_of_wait {host later : Host} {action : Action} {occasions : List Occasion}
    (hreact : host.react action = .wait later occasions) : later.batches = host.batches := by
  cases action with
  | join tasks | firstFailure tasks =>
      simp only [Host.react, Host.look] at hreact
      split at hreact
      · cases hreact
      · cases hreact
        exact host.batches_collectAll _
  | arm delay | expired timers | receive slot =>
      simp only [Host.react] at hreact
      split at hreact <;> cases hreact <;> rfl
  | _ => cases hreact

namespace Runs

variable {machine : Machine} {first : Host} {trace : Trace} {system : System}
variable {P : List Act → Run → Prop} {Q : Trace → Batches → Prop}

/-- What single acts of a process keep is kept by a sequence of its acts. -/
theorem books_chain (invariant : Invariant P)
    (act : ∀ {trace : Trace} {task : TaskId} {run next : Run} {act : Act}, P (deeds trace task) run →
      run.Does act next → Q trace run.host.batches → Q (trace ++ [(task, act)]) next.host.batches)
    {task : TaskId} {run final : Run} {acts : List Act} (hchain : run.Chain acts final)
    (holds : P (deeds trace task) run) (kept : Q trace run.host.batches) :
    Q (trace ++ acts.map fun act => (task, act)) final.host.batches := by
  induction hchain generalizing trace with
  | done run => simpa using kept
  | @quiet run host acts final hquiet _ ih =>
      have hbatches : host.batches = run.host.batches := (congrArg Host.batches hquiet :)
      exact ih (invariant.later (Host.Grows.of_quiet hquiet).later holds) (hbatches ▸ kept)
  | @act run next own acts final hdoes _ ih =>
      have hnext : deeds (trace ++ [(task, own)]) task = deeds trace task ++ [own] := by
        rw [deeds_concat, if_pos rfl]
      rw [List.map_cons, List.append_cons]
      exact ih (hnext ▸ invariant.act hdoes holds) (act holds hdoes kept)

/-- What holds of the open batches at the start, and is kept by every act of every process, holds at any time,
as long as clients leave the batches alone. -/
theorem books (invariant : Invariant P) (runs : Runs machine first trace system) (start : Q [] first.batches)
    (act : ∀ {trace : Trace} {task : TaskId} {run next : Run} {act : Act}, P (deeds trace task) run →
      run.Does act next → Q trace run.host.batches → Q (trace ++ [(task, act)]) next.host.batches)
    (client : ∀ {trace : Trace} {system : System} {task : TaskId} {context : Context} {action : Action}
      {resume : action.Reply → Body} {reply : action.Reply} {later : Host}, Runs machine first trace system →
      system.current = some (task, .client (.evaluate context (.act action resume))) →
      system.host.react action = .reply later reply ∨ system.host.react action = .giveWay later reply →
      later.batches = system.host.batches) : Q trace system.host.batches := by
  have hledger : Q trace system.parked.batches := by
    refine runs.ledger (Q := fun trace host => Q trace host.batches) (fun _ => start) ?_ ?_
    · intro trace host other hlike kept
      rwa [hlike.batches]
    · intro trace system task activity after own later runs hcurrent hadvances kept
      have hcurrently := System.activity?_current runs.sound hcurrent
      have hchain {run final : Run} {acts : List Act} (hchain : run.Chain acts final) (hhost : run.host = system.host)
          (hdrives : Drives activity.stack? run.stack) :
          Q (trace ++ acts.map fun act => (task, act)) final.host.batches := by
        have holds : P (deeds trace task) { stack := run.stack, host := system.host } := by
          refine runs.holds invariant task ?_
          rw [System.driven?, hcurrently]
          exact hdrives
        rw [← hhost] at holds
        exact books_chain invariant act hchain holds (hhost ▸ kept)
      have hstep (stack : Stack) (hdrives : Drives activity.stack? stack) :
          Q (trace ++ (machine.stepActs { stack, host := system.host }).map fun act => (task, act))
            (machine.step { stack, host := system.host }).host.batches := by
        have hstepped := hchain (machine.step_chain { stack, host := system.host }) rfl hdrives
        rwa [Stepped.run_eq] at hstepped
      have hsendOut (host : Host) (errands : List Errand) : (Machine.sendOut host errands).2.batches = host.batches := by
        induction errands generalizing host with
        | nil => rfl
        | cons errand rest ih => exact ih _
      cases hadvances with
      | begin context effect => exact hchain (machine.handle_chain effect _) rfl ⟨_, _, rfl⟩
      | step stack habove => exact hstep stack rfl
      | submit context effect resume => exact hchain (machine.handle_chain _ _) rfl ⟨_, _, rfl⟩
      | runStep stack resume habove => exact hstep stack rfl
      | act context action resume reply later hreact =>
          rw [List.map_nil, List.append_nil, Host.batches_park, client runs hcurrent hreact]
          exact kept
      | wait context action resume later occasions hreact =>
          rw [List.map_nil, List.append_nil, Host.batches_park, Host.batches_of_wait hreact]
          exact kept
      | sendOut errands =>
          rw [List.map_nil, List.append_nil, Host.batches_park, hsendOut]
          exact kept
      | _ =>
          rw [List.map_nil, List.append_nil]
          exact kept
  rwa [System.batches_parked] at hledger

end Runs
end EffectMachine
