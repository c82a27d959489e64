import EffectMachine.Proofs.Batch.Routing
import EffectMachine.Proofs.Scheduling.Waits

/-!
# Steps that are known

What a process does next is known when no plugin has a say in it and nobody has asked it to cancel.  From one such step
after another it is known where the process comes within one turn, up to the events that are reported on the way.

* `Run.Calm` says that there is no cancellation to take note of.
* The lemmas of `Machine` say what one step does, by what the top frame is about to do.
* `Driver` is who runs a stack, and `Ahead` says that a process goes on at once by several steps.
* `Host.Still` says that a host has not changed but for reports, and `GoesTo` that a process comes to some stack while
  the host stays so.
-/

namespace EffectMachine

/-- A stack has no cancellation to take note of. -/
def Run.Calm (run : Run) : Prop :=
  run.stack.canceled = true ∨ run.stack.signal.any run.host.isCanceled = false

namespace Run.Calm

variable {run : Run}

theorem observeCancellation_eq (calm : run.Calm) : run.observeCancellation = run := by
  unfold observeCancellation
  rcases calm with hcanceled | hsignal <;> simp [*]

theorem noticeActs_eq (calm : run.Calm) : Machine.noticeActs run = [] := by
  unfold Machine.noticeActs
  rcases calm with hcanceled | hsignal <;> simp [*]

end Run.Calm

namespace Machine

variable {machine : Machine} {run : Run}

section Handling

/-- The call of a function that nobody has a say in runs the function. -/
theorem handle_call (undiverted : Undiverted machine) (function : Function) (args : List Value) (run : Run) :
    machine.handle (.call function args) run =
      (run.emit (.called function.name)).push (machine.invoke function args) none := by
  have hvalidate : machine.registry.validate (.call function args) = .done none := by
    simp [Registry.validate, Registry.validateOne, Registry.terminalRefusal, Effect.kind, undiverted.calls]
  exact (handle_eq_core hvalidate undiverted.call run).1

/-- A bare computation that nobody has a say in is run. -/
theorem handle_bare (undiverted : Undiverted machine) (computation : Computation) (run : Run) :
    machine.handle (.bare computation) run = run.push computation none :=
  (handle_eq_core rfl undiverted.execute run).1

/-- The forking of a call that nobody has a say in makes it a task of its own. -/
theorem handle_fork_call (undiverted : Undiverted machine) (function : Function) (args : List Value)
    (hscheduled : run.host.scheduled = true) :
    machine.handle (.fork (.call function args)) run =
        ({ run with host := (run.host.spawn (.forked run.stack.context (.call function args))).2 }.emit
          (.forked ⟨run.host.processes.length⟩)).answerTop (.task ⟨run.host.processes.length⟩) ∧
      machine.handleActs (.fork (.call function args)) run = [.forked (.call function args)] := by
  have hvalidate : machine.registry.validate (.fork (.call function args)) = .done none := by
    simp [Registry.validate, Registry.validateOne, Registry.terminalRefusal, Effect.kind, undiverted.calls,
      undiverted.forks]
  obtain ⟨hhandle, hacts⟩ := handle_eq_core hvalidate undiverted.fork run
  rw [hhandle, hacts]
  constructor
  · simp [settled, core, fork, hscheduled, Host.spawn]
  · simp [core, coreActs, fork, hscheduled, failureActs]

/-- Handling an operation whose first handler takes everything pushes the computation of that handler. -/
theorem handle_of_handler {effect : Effect} {handlers : List Handler} {handle : Effect → Context → Computation}
    (hvalid : machine.registry.validate effect = .done none) (hoperation : effect.operation = effect)
    (hhandlers : machine.registry.handlersOf effect.kind = .ofHandle handle :: handlers) (run : Run) :
    machine.handle effect run = (run.emit (.dispatched effect.kind 0 (run.stack.height + 1))).push
      (handle effect run.stack.context) (some ⟨effect.kind, 0⟩) := by
  have hselect : run.host.run (machine.registry.select effect.operation run.stack.context 0) =
      (some (0, .ofHandle handle), run.host) := by
    rw [hoperation, Registry.select, hhandlers]
    rfl
  unfold Machine.handle attempt
  simp only [hvalid, Host.run]
  rw [dispatch_of_select hselect, serve, hoperation]
  rfl

end Handling

section Steps

variable {body : Body} {effect : Effect} {resume : Outcome → Body}

theorem step_fresh (calm : run.Calm) (hprogress : run.stack.top.progress = .fresh body)
    (hkept : run.stack.top.cancellation ≠ .due) :
    machine.step run = .moved (resumeTop run body).stack run.host ∧
      machine.stepActs run = [.resumed run.stack.top.result] := by
  have hgoing : run.stack.top.isFinished = false := by simp [Frame.isFinished, hprogress]
  unfold step stepActs
  simp only [hprogress]
  unfold turn turnActs
  simp only [calm.observeCancellation_eq, calm.noticeActs_eq, hgoing, hkept, hprogress]
  exact ⟨rfl, rfl⟩

theorem step_suspended (calm : run.Calm) (hprogress : run.stack.top.progress = .suspended resume)
    (hkept : run.stack.top.cancellation ≠ .due) :
    machine.step run = .moved (resumeTop run (resume run.stack.top.result)).stack run.host ∧
      machine.stepActs run = [.resumed run.stack.top.result] := by
  have hgoing : run.stack.top.isFinished = false := by simp [Frame.isFinished, hprogress]
  unfold step stepActs
  simp only [hprogress]
  unfold turn turnActs
  simp only [calm.observeCancellation_eq, calm.noticeActs_eq, hgoing, hkept, hprogress]
  exact ⟨rfl, rfl⟩

/-- What the run is like when the top frame performs an effect. -/
def asking (run : Run) (resume : Outcome → Body) : Run :=
  run.withTop fun frame => { frame with progress := .suspended resume }

theorem step_perform (calm : run.Calm) (hprogress : run.stack.top.progress = .running (.perform effect resume))
    (hkept : run.stack.top.cancellation ≠ .due) :
    machine.step run = moved (machine.handle effect (asking run resume)) ∧
      machine.stepActs run = .performed effect :: machine.handleActs effect (asking run resume) := by
  have hcalm : (asking run resume).Calm := calm
  have hobserve := hcalm.observeCancellation_eq
  have hnotice := hcalm.noticeActs_eq
  have hdue : (asking run resume).stack.top.cancellation ≠ .due := hkept
  unfold asking at hobserve hnotice hdue
  unfold step stepActs
  simp only [hprogress, suspend, suspendActs, hobserve, hnotice, if_neg hdue]
  exact ⟨rfl, rfl⟩

section Acts

/-- The stack when the top frame goes on with a reply. -/
def replied (stack : Stack) (action : Action) (resume : action.Reply → Body) (reply : action.Reply) : Stack :=
  stack.withTop fun frame =>
    { frame with progress := .running (resume reply), answerable := frame.answerable ++ action.acquired reply }

variable {action : Action} {resume : action.Reply → Body} {host : Host} {reply : action.Reply}

theorem step_reply (hprogress : run.stack.top.progress = .running (.act action resume))
    (hreact : run.host.react action = .reply host reply) :
    machine.step run = .moved (replied run.stack action resume reply) host ∧ machine.stepActs run = [.acted action reply] := by
  unfold step stepActs
  simp only [hprogress]
  unfold act actActs
  simp only [hreact, and_true]
  rfl

theorem step_giveWay (hprogress : run.stack.top.progress = .running (.act action resume))
    (hreact : run.host.react action = .giveWay host reply) :
    machine.step run = .gaveWay (replied run.stack action resume reply) host ∧ machine.stepActs run = [.acted action reply] := by
  unfold step stepActs
  simp only [hprogress]
  unfold act actActs
  simp only [hreact, and_true]
  rfl

theorem step_wait {occasions : List Occasion} (hprogress : run.stack.top.progress = .running (.act action resume))
    (hreact : run.host.react action = .wait host occasions) :
    machine.step run = .waits run.stack host occasions ∧ machine.stepActs run = [.waited action] := by
  unfold step stepActs
  simp only [hprogress]
  unfold act actActs
  simp only [hreact, and_self]

end Acts

/-- A computation ends with a value, which the frame below awaits. -/
theorem step_done {value : Value} {parent : Frame} {rest : List Frame}
    (hprogress : run.stack.top.progress = .running (.done (.ok value))) (hdefers : run.stack.top.defers = [])
    (hbelow : run.stack.below = parent :: rest) (hparent : parent.isFinished = false) :
    machine.step run = .moved { run.stack with top := { parent with result := .ok value }, below := rest }
        (run.host.close run.stack.top.answerable) ∧
      machine.stepActs run = [.completed (.ok value), .left] := by
  unfold step stepActs
  simp only [hprogress]
  unfold complete completeActs finishTop unwind unwindActs finished Stack.withTop
  simp only [hbelow]
  unfold unwindFrom unwindActsFrom
  simp only [Frame.finish, hdefers, hparent]
  exact ⟨rfl, rfl⟩

end Steps
end Machine

/-! ## Turns of a process that drives a stack -/

/-- Who drives a stack: a task, or a client that goes on with the outcome. -/
inductive Driver where
  | task
  | client (resume : Outcome → Body)

/-- What a process is doing that drives a stack. -/
def Driver.activity : Driver → Stack → Activity
  | .task, stack => .task stack
  | .client resume, stack => .run stack resume

theorem Driver.going (driver : Driver) (stack : Stack) : (driver.activity stack).report? = none := by
  cases driver <;> rfl

/-- Whoever drives a stack that has frames goes on with a step of it. -/
theorem Driver.advance_eq (driver : Driver) (machine : Machine) (task : TaskId) {run : Run} (habove : run.stack.below ≠ []) :
    machine.advance task (driver.activity run.stack) run.host = (machine.step run).map driver.activity ∧
      machine.advanceActs task (driver.activity run.stack) run.host = machine.stepActs run := by
  obtain ⟨⟨context, signal, top, below, canceled⟩, host⟩ := run
  cases below with
  | nil => exact absurd rfl habove
  | cons parent rest => cases driver <;> exact ⟨rfl, rfl⟩

/-- A system in which a process is driving a stack. -/
def System.driving (task : TaskId) (driver : Driver) (run : Run) : System where
  host := run.host
  current := some (task, driver.activity run.stack)

theorem System.step_driving (machine : Machine) (task : TaskId) (driver : Driver) {run : Run}
    (habove : run.stack.below ≠ []) :
    (driving task driver run).step machine = some (settleIn task ((machine.step run).map driver.activity)) ∧
      (driving task driver run).acts machine = (machine.stepActs run).map fun act => (task, act) := by
  obtain ⟨hadvance, hacts⟩ := driver.advance_eq machine task habove
  constructor
  · rw [← hadvance]
    cases driver <;> rfl
  · rw [← hacts]
    rfl

/-- The running process waits no longer. -/
def Run.proceed (task : TaskId) (run : Run) : Run :=
  { run with host := { run.host with schedule := run.host.schedule.proceed task } }

/-- Steps of a run in which its process goes on at once, with the acts on the way. -/
inductive Ahead (machine : Machine) (task : TaskId) : Run → List Act → Run → Prop
  | rest (run : Run) : Ahead machine task run [] run
  | step {run next final : Run} {acts more : List Act} (habove : run.stack.below ≠ [])
      (hstep : machine.step run = Machine.moved next ∧ machine.stepActs run = acts)
      (rest : Ahead machine task (next.proceed task) more final) : Ahead machine task run (acts ++ more) final

namespace Ahead

variable {machine : Machine} {task : TaskId} {run next final : Run} {acts more : List Act}

theorem single (habove : run.stack.below ≠ [])
    (hstep : machine.step run = Machine.moved next ∧ machine.stepActs run = acts) :
    Ahead machine task run acts (next.proceed task) := by
  simpa using Ahead.step habove hstep (.rest _)

theorem trans (hfirst : Ahead machine task run acts next) (hsecond : Ahead machine task next more final) :
    Ahead machine task run (acts ++ more) final := by
  induction hfirst with
  | rest run => exact hsecond
  | step habove hstep _ ih =>
      rw [List.append_assoc]
      exact .step habove hstep (ih hsecond)

/-- A process that goes on at once does so as the schedule has it. -/
theorem scheduled (ahead : Ahead machine task run acts final) (driver : Driver) :
    Scheduled machine (.driving task driver run) (acts.map fun act => (task, act)) (.driving task driver final) := by
  induction ahead with
  | rest run => exact .start
  | @step run next final acts more habove hstep _ ih =>
      obtain ⟨hsystem, hacts⟩ := System.step_driving machine task driver habove
      rw [hstep.1] at hsystem
      have hfirst := Scheduled.single hsystem
      rw [hacts, hstep.2] at hfirst
      rw [List.map_append]
      exact hfirst.trans ih

end Ahead

namespace Host

/-- Closing slots that are settled changes nothing. -/
theorem close_eq_self {host : Host} {slots : List Slot} (hsettled : ∀ slot ∈ slots, host.batches.isPending slot = false) :
    host.close slots = host := by
  unfold Host.close
  induction slots with
  | nil => rfl
  | cons slot slots ih =>
      have hsame : host.settle slot .closed = host := by
        unfold Host.settle
        simp [hsettled slot List.mem_cons_self]
      rw [List.foldl_cons, hsame]
      exact ih fun slot hmem => hsettled slot (List.mem_cons_of_mem _ hmem)

end Host

/-- A host on which nothing has happened but reports, and that the running process waits no longer. -/
structure Host.Still (task : TaskId) (host later : Host) : Prop where
  processes : later.processes = host.processes
  batches : later.batches = host.batches
  scheduled : later.scheduled = host.scheduled
  ready : later.schedule.ready = host.schedule.ready
  yielded : later.schedule.yielded = host.schedule.yielded
  woken : later.schedule.woken = host.schedule.woken
  waiting : ∀ waiter ∈ host.schedule.waiting, waiter.process ≠ task → waiter ∈ later.schedule.waiting

namespace Host.Still

variable {task : TaskId} {host middle later : Host}

theorem refl (task : TaskId) (host : Host) : host.Still task host :=
  ⟨rfl, rfl, rfl, rfl, rfl, rfl, fun _ hmem _ => hmem⟩

theorem trans (hfirst : host.Still task middle) (hsecond : middle.Still task later) : host.Still task later where
  processes := hsecond.processes.trans hfirst.processes
  batches := hsecond.batches.trans hfirst.batches
  scheduled := hsecond.scheduled.trans hfirst.scheduled
  ready := hsecond.ready.trans hfirst.ready
  yielded := hsecond.yielded.trans hfirst.yielded
  woken := hsecond.woken.trans hfirst.woken
  waiting := fun waiter hmem hother => hsecond.waiting waiter (hfirst.waiting waiter hmem hother) hother

theorem proceed (task : TaskId) (host : Host) :
    host.Still task { host with schedule := host.schedule.proceed task } :=
  ⟨rfl, rfl, rfl, rfl, rfl, rfl, fun _ hmem hother => List.mem_filter.2 ⟨hmem, by simpa using hother⟩⟩

theorem emit (task : TaskId) (host : Host) (event : Event) : host.Still task (host.emit event) :=
  ⟨rfl, rfl, rfl, rfl, rfl, rfl, fun _ hmem _ => hmem⟩

theorem withBatches (hstill : host.Still task later) (batches : Batches) :
    Host.Still task { host with batches } { later with batches } :=
  ⟨hstill.processes, rfl, hstill.scheduled, hstill.ready, hstill.yielded, hstill.woken, hstill.waiting⟩

theorem isCanceled (hstill : host.Still task later) (other : TaskId) : later.isCanceled other = host.isCanceled other := by
  unfold Host.isCanceled
  rw [hstill.processes]

theorem calm (hstill : host.Still task later) {stack : Stack} (calm : Run.Calm { stack, host }) :
    Run.Calm { stack, host := later } := by
  refine calm.imp_right fun hsignal => ?_
  have hsame : later.isCanceled = host.isCanceled := funext hstill.isCanceled
  show stack.signal.any later.isCanceled = false
  rw [hsame]
  exact hsignal

end Host.Still
/-- A process goes on at once until it has some stack.  Of the host it is known then what counts. -/
def GoesTo (machine : Machine) (task : TaskId) (run : Run) (acts : List Act) (stack : Stack) (host : Host) : Prop :=
  ∃ later, Ahead machine task run acts { stack, host := later } ∧ host.Still task later

/-- A computation is run for an effect, whoever performs it. -/
def Machine.Pushes (machine : Machine) (task : TaskId) (effect : Effect) (computation : Computation)
    (tag : Option HandlerTag) : Prop :=
  ∀ run : Run, ∃ host, run.host.Still task host ∧ machine.handle effect run = Run.push { run with host } computation tag ∧
    machine.handleActs effect run = [.pushed computation tag]

namespace GoesTo

variable {machine : Machine} {task : TaskId} {run : Run} {acts more : List Act} {stack next : Stack} {host after : Host}
variable {parent : Frame} {rest : List Frame}

theorem start (machine : Machine) (task : TaskId) (stack : Stack) (host : Host) :
    GoesTo machine task { stack, host } [] stack host :=
  ⟨host, .rest _, .refl task host⟩

theorem step (goesTo : GoesTo machine task run acts stack host) (hbelow : stack.below = parent :: rest)
    (hstep : ∀ later, host.Still task later → ∃ final, after.Still task final ∧
      machine.step { stack, host := later } = .moved next final ∧ machine.stepActs { stack, host := later } = more) :
    GoesTo machine task run (acts ++ more) next after := by
  obtain ⟨later, ahead, still⟩ := goesTo
  obtain ⟨final, hfinal, hmoved, hacts⟩ := hstep later still
  have habove : ({ stack, host := later } : Run).stack.below ≠ [] := by simp [hbelow]
  have hnext : Ahead machine task { stack, host := later } more (Run.proceed task { stack := next, host := final }) :=
    .single habove ⟨hmoved, hacts⟩
  exact ⟨_, ahead.trans hnext, hfinal.trans (.proceed task final)⟩

/-- A computation begins. -/
theorem fresh (goesTo : GoesTo machine task run acts stack host) {body : Body}
    (calm : Run.Calm { stack, host }) (hbelow : stack.below = parent :: rest)
    (hprogress : stack.top.progress = .fresh body) (hkept : stack.top.cancellation = .none) :
    GoesTo machine task run (acts ++ [.resumed stack.top.result])
      (stack.withTop fun frame => { frame with progress := .running body, result := .ok .null }) host :=
  goesTo.step hbelow fun later still =>
    ⟨later, still, Machine.step_fresh (still.calm calm) hprogress (by simp [hkept])⟩

/-- A computation is resumed. -/
theorem resumed (goesTo : GoesTo machine task run acts stack host) {resume : Outcome → Body}
    (calm : Run.Calm { stack, host }) (hbelow : stack.below = parent :: rest)
    (hprogress : stack.top.progress = .suspended resume) (hkept : stack.top.cancellation = .none) :
    GoesTo machine task run (acts ++ [.resumed stack.top.result])
      (stack.withTop fun frame => { frame with progress := .running (resume stack.top.result), result := .ok .null })
      host :=
  goesTo.step hbelow fun later still =>
    ⟨later, still, Machine.step_suspended (still.calm calm) hprogress (by simp [hkept])⟩

/-- A computation performs an effect. -/
theorem performs (goesTo : GoesTo machine task run acts stack host) {effect : Effect} {resume : Outcome → Body}
    (calm : Run.Calm { stack, host }) (hbelow : stack.below = parent :: rest)
    (hprogress : stack.top.progress = .running (.perform effect resume)) (hkept : stack.top.cancellation = .none)
    (hhandles : ∀ later, host.Still task later → ∃ final, after.Still task final ∧
      machine.handle effect (Machine.asking { stack, host := later } resume) = { stack := next, host := final } ∧
      machine.handleActs effect (Machine.asking { stack, host := later } resume) = more) :
    GoesTo machine task run (acts ++ .performed effect :: more) next after := by
  refine goesTo.step hbelow fun later still => ?_
  obtain ⟨final, hfinal, hhandled, hacts⟩ := hhandles later still
  obtain ⟨hmoved, hperformed⟩ :=
    Machine.step_perform (still.calm calm) hprogress (show stack.top.cancellation ≠ .due by simp [hkept])
  rw [hhandled] at hmoved
  rw [hacts] at hperformed
  exact ⟨final, hfinal, hmoved, hperformed⟩

/-- A computation performs an effect that another computation is run for. -/
theorem pushes (goesTo : GoesTo machine task run acts stack host) {effect : Effect} {resume : Outcome → Body}
    {computation : Computation} {tag : Option HandlerTag} (calm : Run.Calm { stack, host })
    (hbelow : stack.below = parent :: rest) (hprogress : stack.top.progress = .running (.perform effect resume))
    (hkept : stack.top.cancellation = .none) (hpushes : machine.Pushes task effect computation tag) :
    GoesTo machine task run (acts ++ [.performed effect, .pushed computation tag])
      ((stack.withTop fun frame => { frame with progress := .suspended resume }).push (.ofComputation computation tag))
      host :=
  goesTo.performs calm hbelow hprogress hkept fun later still => by
    obtain ⟨final, hfinal, hhandled, hacts⟩ := hpushes (Machine.asking { stack, host := later } resume)
    exact ⟨final, still.trans hfinal, hhandled, hacts⟩

/-- A computation does something by itself. -/
theorem replies (goesTo : GoesTo machine task run acts stack host) {action : Action} {resume : action.Reply → Body}
    {reply : action.Reply} (hbelow : stack.below = parent :: rest)
    (hprogress : stack.top.progress = .running (.act action resume))
    (hreact : ∀ later, host.Still task later → ∃ final, after.Still task final ∧
      later.react action = .reply final reply) :
    GoesTo machine task run (acts ++ [.acted action reply]) (Machine.replied stack action resume reply) after :=
  goesTo.step hbelow fun later still => by
    obtain ⟨final, hfinal, hreact⟩ := hreact later still
    exact ⟨final, hfinal, Machine.step_reply hprogress hreact⟩

/-- A computation enrolls a call. -/
theorem enrolls (goesTo : GoesTo machine task run acts stack host) {group : BatchGroup} {args : List Value}
    {resume : (Action.enroll group args).Reply → Body} (hbelow : stack.below = parent :: rest)
    (hprogress : stack.top.progress = .running (.act (.enroll group args) resume)) :
    GoesTo machine task run (acts ++ [.acted (.enroll group args) (host.batches.enroll group args).1])
      (Machine.replied stack (.enroll group args) resume (host.batches.enroll group args).1)
      { host with batches := (host.batches.enroll group args).2 } :=
  goesTo.replies hbelow hprogress fun later still =>
    ⟨_, still.withBatches (host.batches.enroll group args).2, by rw [← still.batches]; rfl⟩

/-- A computation collects the calls of a batch. -/
theorem collects (goesTo : GoesTo machine task run acts stack host) {group : BatchGroup}
    {resume : (Action.collect group).Reply → Body} (hbelow : stack.below = parent :: rest)
    (hprogress : stack.top.progress = .running (.act (.collect group) resume)) :
    GoesTo machine task run (acts ++ [.acted (.collect group) (host.batches.callsOf group)])
      (Machine.replied stack (.collect group) resume (host.batches.callsOf group))
      { host with batches := host.batches.remove group } :=
  goesTo.replies hbelow hprogress fun later still =>
    ⟨_, still.withBatches (host.batches.remove group), by rw [← still.batches]; rfl⟩

/-- A computation reports an event. -/
theorem emits (goesTo : GoesTo machine task run acts stack host) {event : Event} {body : Body}
    (hbelow : stack.below = parent :: rest) (hprogress : stack.top.progress = .running (.emit event body)) :
    GoesTo machine task run (acts ++ [.acted (.emit event) ()])
      (stack.withTop fun frame => { frame with progress := .running body }) host := by
  have hreported := goesTo.replies hbelow hprogress fun later still => ⟨_, still.trans (.emit task later event), rfl⟩
  simpa [Machine.replied, Action.acquired] using hreported

/-- A computation ends with a value, which the frame below awaits. -/
theorem done (goesTo : GoesTo machine task run acts stack host) {value : Value} (hbelow : stack.below = parent :: rest)
    (hparent : parent.isFinished = false) (hdefers : stack.top.defers = [])
    (hanswerable : ∀ slot ∈ stack.top.answerable, host.batches.isPending slot = false)
    (hprogress : stack.top.progress = .running (.done (.ok value))) :
    GoesTo machine task run (acts ++ [.completed (.ok value), .left])
      { stack with top := { parent with result := .ok value }, below := rest } host :=
  goesTo.step hbelow fun later still => by
    have hclosed : later.close stack.top.answerable = later :=
      Host.close_eq_self fun slot hmem => by rw [still.batches, hanswerable slot hmem]
    obtain ⟨hmoved, hacts⟩ : machine.step { stack, host := later } = _ ∧ machine.stepActs { stack, host := later } = _ :=
      Machine.step_done hprogress hdefers hbelow hparent
    exact ⟨later, still, hmoved.trans (congrArg _ hclosed), hacts⟩

end GoesTo
end EffectMachine
