import EffectMachine.Proofs.Acts.Basic
import EffectMachine.System

/-!
# Recasting what a machine works on

Programs, contexts and signals can be replaced wherever they occur on a host: on the stacks of its processes, in what these
have deferred, and in what they may perform later on.  A host does not notice that.

* `Recasting` is a way of replacing them that keeps the shape of programs.
* `Recasting.host`, `Recasting.run` and `Recasting.system` replace everything on a host, in a run and in a system.
* `Recasting.react` says that a host reacts to actions whatever its processes are working on.
-/

namespace EffectMachine

/-- A way of replacing programs, contexts and signals.  Operations stay the operations that they are, and what they wrap or
carry is replaced; a bare computation may become the operation that runs it. -/
structure Recasting where
  /-- The context in place of a context. -/
  context : Context → Context := id
  /-- The task in place of the one whose cancellation reaches a stack, if any. -/
  signal : Option TaskId → Option TaskId := id
  /-- The body in place of a body. -/
  body : Body → Body := id
  /-- The effect in place of an effect. -/
  effect : Effect → Effect := id
  body_done : ∀ outcome, body (.done outcome) = .done outcome := by intros; rfl
  body_perform : ∀ performed resume,
    body (.perform performed resume) = .perform (effect performed) fun outcome => body (resume outcome) := by intros; rfl
  body_act : ∀ action (resume : action.Reply → Body),
    body (.act action resume) = .act action fun reply => body (resume reply) := by intros; rfl
  effect_operation : ∀ other, (effect other).operation = effect other.operation := by intros; rfl
  effect_execute : ∀ computation : Computation,
    effect (.execute computation) = .execute ⟨computation.name, body computation.body⟩ := by rintro ⟨_, _⟩; rfl
  effect_call : ∀ function args, effect (.call function args) = .call function args := by intros; rfl
  effect_fork : ∀ inner, effect (.fork inner) = .fork (effect inner) := by intros; rfl
  effect_start : ∀ inner, effect (.start inner) = .start (effect inner) := by intros; rfl
  effect_defer : ∀ inner, effect (.defer inner) = .defer (effect inner) := by intros; rfl
  effect_recover : effect .recover = .recover := by intros; rfl
  effect_terminal : ∀ inner, effect (.terminal inner) = .terminal (effect inner) := by intros; rfl
  effect_generator : effect .generator = .generator := by intros; rfl
  effect_next : ∀ inner inPlace, effect (.next inner inPlace) = .next (effect inner) inPlace := by intros; rfl
  effect_custom : ∀ kind payload, ∃ carried, effect (.custom kind payload) = .custom kind carried := by
    exact fun _ payload => ⟨payload, rfl⟩

namespace Recasting

/-- Nothing is replaced. -/
def same : Recasting where

variable (recasting : Recasting)

/-! ## Programs, stacks and processes -/

/-- The computation in place of a computation. -/
def computation (computation : Computation) : Computation :=
  ⟨computation.name, recasting.body computation.body⟩

/-- How far a computation has come, with another one in its place. -/
def progress : Progress → Progress
  | .root => .root
  | .fresh body => .fresh (recasting.body body)
  | .suspended resume => .suspended fun outcome => recasting.body (resume outcome)
  | .running body => .running (recasting.body body)
  | .finished => .finished

/-- The frame in place of a frame. -/
def frame (frame : Frame) : Frame :=
  { frame with progress := recasting.progress frame.progress, defers := frame.defers.map recasting.effect }

/-- The stack in place of a stack. -/
def stack (stack : Stack) : Stack where
  context := recasting.context stack.context
  signal := recasting.signal stack.signal
  top := recasting.frame stack.top
  below := stack.below.map recasting.frame
  canceled := stack.canceled

mutual

/-- The errand in place of an errand. -/
def errand : Errand → Errand
  | .evaluate context body => .evaluate (recasting.context context) (recasting.body body)
  | .join errands => .join (allErrands errands)
termination_by structural errand => errand

/-- The errands in place of errands. -/
def allErrands : List Errand → List Errand
  | [] => []
  | first :: rest => errand first :: allErrands rest
termination_by structural errands => errands

end

/-- What a process is doing instead. -/
def activity : Activity → Activity
  | .forked context effect => .forked (recasting.context context) (recasting.effect effect)
  | .task stack => .task (recasting.stack stack)
  | .client errand => .client (recasting.errand errand)
  | .run stack resume => .run (recasting.stack stack) fun outcome => recasting.body (resume outcome)
  | .gathering reports awaited => .gathering reports awaited
  | .ended report => .ended report

/-- The process in place of a process. -/
def process (process : Process) : Process :=
  { process with activity := recasting.activity process.activity }

/-- The host with other processes in place of its own. -/
def host (host : Host) : Host :=
  { host with processes := host.processes.map recasting.process }

/-- The run in place of a run. -/
def run (run : Run) : Run where
  stack := recasting.stack run.stack
  host := recasting.host run.host

/-- The handled effect in place of a handled effect. -/
def handled (handled : Handled) : Handled where
  run := recasting.run handled.run
  failure := handled.failure

/-- The reaction in place of a reaction. -/
def reaction {α : Type} : Reaction α → Reaction α
  | .reply host answer => .reply (recasting.host host) answer
  | .giveWay host answer => .giveWay (recasting.host host) answer
  | .wait host occasions => .wait (recasting.host host) occasions

/-- What became of a process, with another one in its place. -/
def stepped {α : Type} (change : α → α) : Stepped α → Stepped α
  | .moved next host => .moved (change next) (recasting.host host)
  | .gaveWay next host => .gaveWay (change next) (recasting.host host)
  | .waits next host occasions => .waits (change next) (recasting.host host) occasions

/-- The system in place of a system. -/
def system (system : System) : System where
  host := recasting.host system.host
  current := system.current.map fun running => (running.1, recasting.activity running.2)

/-- The act in place of an act. -/
def act : Act → Act
  | .pushed computation tag => .pushed (recasting.computation computation) tag
  | .deferred effect => .deferred (recasting.effect effect)
  | .started effect => .started (recasting.effect effect)
  | .forked effect => .forked (recasting.effect effect)
  | .performed effect => .performed (recasting.effect effect)
  | other => other

/-- An effect is replaced by one of its kind. -/
@[simp] theorem kind_effect (effect : Effect) : (recasting.effect effect).kind = effect.kind := by
  have hoperation : (recasting.effect effect.operation).kind = effect.operation.kind := by
    cases effect with
    | custom kind payload =>
        obtain ⟨carried, hcustom⟩ := recasting.effect_custom kind payload
        show (recasting.effect (.custom kind payload)).kind = kind
        rw [hcustom]
        rfl
    | _ => simp only [Effect.operation, effect_execute, effect_call, effect_fork, effect_start, effect_defer, effect_recover,
        effect_terminal, effect_generator, effect_next, Effect.kind]
  -- a bare computation may become an operation, but of the kind that it has anyway
  rw [← Effect.kind_operation, recasting.effect_operation, hoperation, Effect.kind_operation]

/-- A bare computation is replaced by a bare one, or by the operation that runs it. -/
theorem effect_bare (computation : Computation) :
    recasting.effect (.bare computation) = .bare (recasting.computation computation) ∨
      recasting.effect (.bare computation) = .execute (recasting.computation computation) := by
  have hoperation : (recasting.effect (.bare computation)).operation = .execute (recasting.computation computation) :=
    (recasting.effect_operation _).trans (recasting.effect_execute computation)
  cases heffect : recasting.effect (.bare computation) with
  | bare other =>
      rw [heffect] at hoperation
      exact .inl (congrArg Effect.bare (Effect.execute.inj hoperation))
  | execute other =>
      rw [heffect] at hoperation
      exact .inr hoperation
  | _ =>
      rw [heffect] at hoperation
      cases hoperation

@[simp] theorem isFinished_frame (frame : Frame) : (recasting.frame frame).isFinished = frame.isFinished := by
  obtain ⟨progress⟩ := frame
  cases progress <;> rfl

theorem frame_markCanceled (frame : Frame) :
    (recasting.frame frame).markCanceled = recasting.frame frame.markCanceled := by
  obtain ⟨_, _, _, _, _, cancellation⟩ := frame
  cases cancellation <;> rfl

@[simp] theorem height_stack (stack : Stack) : (recasting.stack stack).height = stack.height :=
  List.length_map _

@[simp] theorem labels_stack (stack : Stack) : (recasting.stack stack).labels = stack.labels := by
  simp only [Stack.labels, Stack.live, Recasting.stack, ← List.map_cons, ← List.map_dropLast, List.map_map]
  rfl

theorem stack_markCanceled (stack : Stack) :
    (recasting.stack stack).markCanceled = recasting.stack stack.markCanceled := by
  simp only [Stack.markCanceled, Recasting.stack, frame_markCanceled, List.map_map, Stack.mk.injEq, true_and, and_true]
  exact List.map_congr_left fun frame _ => recasting.frame_markCanceled frame

@[simp] theorem frameInfo_stack (stack : Stack) : (recasting.stack stack).frameInfo = stack.frameInfo := by
  simp only [Stack.frameInfo, height_stack]
  rfl

section Same

variable {recasting} (hbody : recasting.body = id) (heffect : recasting.effect = id)

include hbody

/-- A computation stays the same if bodies do. -/
theorem computation_of_same (computation : Computation) : recasting.computation computation = computation := by
  obtain ⟨name, body⟩ := computation
  simp [Recasting.computation, hbody]

include heffect

/-- Acts stay the same if programs do. -/
theorem act_of_same (act : Act) : recasting.act act = act := by
  cases act with
  | pushed computation tag => rw [Recasting.act, computation_of_same hbody]
  | _ => simp [Recasting.act, heffect]

theorem map_act_of_same (acts : List Act) : acts.map recasting.act = acts :=
  List.map_id'' (act_of_same hbody heffect) acts

end Same

/-! ## Hosts -/

section Host

variable (host : Host) (task : TaskId)

theorem processes_host (index : Nat) :
    (recasting.host host).processes[index]? = host.processes[index]?.map recasting.process :=
  List.getElem?_map

/-- What a probe comes to. -/
theorem run_probe {α : Type} (probe : Probe α) :
    (recasting.host host).run probe = ((host.run probe).1, recasting.host (host.run probe).2) := by
  induction probe generalizing host with
  | done answer => rfl
  | note value rest ih => exact ih (host.write (.note value))
  | mint count rest ih => exact ih (host.mint count).1 (host.mint count).2

@[simp] theorem report?_host : (recasting.host host).report? task = host.report? task := by
  have hreport (process : Process) : (recasting.process process).report? = process.report? := by
    obtain ⟨activity, canceled, collected⟩ := process
    cases activity <;> rfl
  simp only [Host.report?, processes_host, Option.bind_map]
  exact congrArg _ (funext hreport)

@[simp] theorem outcome?_host : (recasting.host host).outcome? task = host.outcome? task := by
  simp [Host.outcome?]

@[simp] theorem isSettled_host : (recasting.host host).isSettled task = host.isSettled task := by
  simp [Host.isSettled]

@[simp] theorem isCanceled_host : (recasting.host host).isCanceled task = host.isCanceled task := by
  simp only [Host.isCanceled, processes_host, Option.map_map]
  rfl

@[simp] theorem isCollected_host : (recasting.host host).isCollected task = host.isCollected task := by
  simp only [Host.isCollected, processes_host, Option.map_map]
  rfl

/-- A change of one process is made before or after all are replaced, if that is so of the process. -/
theorem map_modify {change changed : Process → Process}
    (hchange : ∀ process, changed (recasting.process process) = recasting.process (change process)) (index : Nat) :
    (host.processes.map recasting.process).modify index changed =
      (host.processes.modify index change).map recasting.process := by
  refine List.ext_getElem? fun place => ?_
  simp only [List.getElem?_map, List.getElem?_modify]
  cases host.processes[place]? with
  | none => rfl
  | some process => by_cases hindex : index = place <;> simp [hindex, hchange]

theorem host_cancel : (recasting.host host).cancel task = recasting.host (host.cancel task) := by
  simp only [Host.cancel, Recasting.host, Host.mk.injEq, true_and, and_true]
  exact recasting.map_modify host (by intro process; rfl) task.index

theorem host_park (activity : Activity) :
    (recasting.host host).park task (recasting.activity activity) = recasting.host (host.park task activity) := by
  simp only [Host.park, Recasting.host, Host.mk.injEq, true_and, and_true]
  exact recasting.map_modify host (by intro process; rfl) task.index

theorem host_collect : (recasting.host host).collect task = recasting.host (host.collect task) := by
  unfold Host.collect
  simp only [isSettled_host, isCollected_host]
  split
  · simp only [Recasting.host, Host.mk.injEq, true_and, and_true]
    exact recasting.map_modify host (by intro process; rfl) task.index
  · rfl

theorem host_spawn (activity : Activity) :
    (recasting.host host).spawn (recasting.activity activity) =
      ((host.spawn activity).1, recasting.host (host.spawn activity).2) := by
  simp [Host.spawn, Recasting.host, Recasting.process]

theorem host_settle (slot : Slot) (state : SlotState) :
    (recasting.host host).settle slot state = recasting.host (host.settle slot state) := by
  unfold Host.settle
  rw [apply_ite recasting.host]
  rfl

theorem host_close (slots : List Slot) : (recasting.host host).close slots = recasting.host (host.close slots) := by
  unfold Host.close
  induction slots generalizing host with
  | nil => rfl
  | cons slot slots ih => rw [List.foldl_cons, List.foldl_cons, host_settle, ih]

theorem allOutcomes?_host (tasks : List TaskId) : (recasting.host host).allOutcomes? tasks = host.allOutcomes? tasks := by
  induction tasks with
  | nil => rfl
  | cons task tasks ih => simp only [Host.allOutcomes?, outcome?_host, ih]

theorem firstFailure?_host (tasks : List TaskId) :
    (recasting.host host).firstFailure? tasks = host.firstFailure? tasks := by
  induction tasks with
  | nil => rfl
  | cons task tasks ih => simp only [Host.firstFailure?, outcome?_host, ih]

theorem untilFailure_host (tasks : List TaskId) :
    (recasting.host host).untilFailure tasks = host.untilFailure tasks := by
  induction tasks with
  | nil => rfl
  | cons task tasks ih => simp only [Host.untilFailure, outcome?_host, ih]

theorem look {α : Type} (looked tasks : List TaskId) (answer : Option α) :
    (recasting.host host).look looked tasks answer = recasting.reaction (host.look looked tasks answer) := by
  have hlooked : looked.foldl Host.collect (recasting.host host) = recasting.host (looked.foldl Host.collect host) := by
    induction looked generalizing host with
    | nil => rfl
    | cons task looked ih => rw [List.foldl_cons, List.foldl_cons, host_collect, ih]
  unfold Host.look
  rw [hlooked]
  cases answer <;> rfl

/-- A host reacts to actions whatever its processes are working on. -/
theorem react (action : Action) : (recasting.host host).react action = recasting.reaction (host.react action) := by
  cases action with
  | join tasks =>
      simp only [Host.react, allOutcomes?_host]
      exact recasting.look host _ _ _
  | firstFailure tasks =>
      simp only [Host.react, firstFailure?_host, untilFailure_host]
      exact recasting.look host _ _ _
  | settlements =>
      have hsettled : (recasting.host host).isSettled = host.isSettled := funext (recasting.isSettled_host host)
      simp only [Host.react, hsettled, Recasting.reaction]
  | settled task => simp only [Host.react, isSettled_host, Recasting.reaction]
  | cancel task => simp only [Host.react, host_cancel, Recasting.reaction]
  | answer slot outcome => simp only [Host.react, host_settle, Recasting.reaction]
  | abandon group =>
      exact congrArg (Reaction.reply · ()) (recasting.host_close { host with batches := host.batches.remove group }
        ((host.batches.callsOf group).map Enrolled.slot))
  | arm delay | expired timers =>
      simp only [Host.react]
      split <;> (rename_i hcase; simp only [Recasting.host] at hcase ⊢; simp [hcase, Recasting.reaction, Recasting.host])
  | receive slot =>
      simp only [Host.react]
      rw [show (recasting.host host).batches = host.batches from rfl]
      split <;> rfl
  | _ => rfl

end Host

end Recasting
end EffectMachine
