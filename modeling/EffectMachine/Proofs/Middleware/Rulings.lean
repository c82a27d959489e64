import EffectMachine.Proofs.Coalescing.Steps
import EffectMachine.Proofs.Dispatch.Selection
import EffectMachine.Proofs.Middleware.Observers

/-!
# Core rules and middleware

Middleware delegates an operation from a frame of its own.  If no other handler takes it, the core rule of the operation
is applied while that frame is on top.  Most rules do the same there as on the frame below, but some are about the top
frame itself: an effect is deferred on it, it is discarded, its position counts for a delegation, or it takes the error
of the frame directly below.

* `Ruling` is a core rule at work, and `Machine.advanceRulings` lists those of a step of a process, in order.
* `Ruling.spares` says that a rule does the same whether or not middleware is there.
* `Middleware.spares` says so of a whole step, and that middleware is called off neither by a cancellation nor by the
  checks of what it hands on.
* `Middleware.served` is what a run leaves behind that others can see: which computations were run, for which handlers.
-/

namespace EffectMachine

/-- A core rule at work: the effect, and the run that the rule is applied to. -/
structure Ruling where
  effect : Effect
  run : Run

namespace Machine

/-- The core rules that are applied when an effect is dispatched. -/
def dispatchRulings (machine : Machine) (effect : Effect) (first : Nat) (run : Run) : List Ruling :=
  let operation := effect.operation
  match run.host.run (machine.registry.select operation run.stack.context first) with
  | (some _, _) => []
  | (none, host) =>
    let run := { run with host }
    ⟨effect, run⟩ ::
      match effect with
      | .start effect => machine.dispatchRulings effect 0 run
      | .terminal effect =>
        match run.terminateTop with
        | .ok run => machine.dispatchRulings effect 0 run
        | .error _ => []
      | .next effect inPlace =>
        match delegation run effect with
        | .error _ => []
        | .ok position =>
          if inPlace then
            match run.terminateTop with
            | .ok run => machine.dispatchRulings effect position run
            | .error _ => []
          else machine.dispatchRulings effect position run
      | _ => []
termination_by structural effect

/-- The core rules that are applied after that of an effect. -/
def coreRulings (machine : Machine) (effect : Effect) (run : Run) : List Ruling :=
  match effect with
  | .start effect => machine.dispatchRulings effect 0 run
  | .terminal effect =>
    match run.terminateTop with
    | .ok run => machine.dispatchRulings effect 0 run
    | .error _ => []
  | .next effect inPlace =>
    match delegation run effect with
    | .error _ => []
    | .ok position =>
      if inPlace then
        match run.terminateTop with
        | .ok run => machine.dispatchRulings effect position run
        | .error _ => []
      else machine.dispatchRulings effect position run
  | _ => []

section Nobody

variable {machine : Machine} {effect : Effect} {first : Nat} {later : Host} (run : Run)
variable (hselects : machine.registry.Selects effect.operation run.stack.context first run.host none later)

include hselects

/-- The core rule applies when no handler takes an effect. -/
theorem dispatchRulings_of_nobody : machine.dispatchRulings effect first run =
    ⟨effect, { run with host := later }⟩ :: machine.coreRulings effect { run with host := later } := by
  have hrun := Registry.selects_iff.1 hselects
  unfold dispatchRulings
  cases effect <;> simp only [hrun] <;> rfl

end Nobody

/-- The core rules that are applied when an effect is handled. -/
def handleRulings (machine : Machine) (effect : Effect) (run : Run) : List Ruling :=
  match run.host.run (machine.registry.validate effect) with
  | (some _, _) => []
  | (none, host) => machine.dispatchRulings effect 0 { run with host }

/-- A delegation that is let through and that no handler takes goes on with the operation, behind the delegating handler. -/
theorem exists_delegation (machine : Machine) {operation : Effect} {position : Nat} {run : Run}
    (htag : run.stack.top.tag = some ⟨operation.kind, position⟩) {ruling : Ruling} {rulings : List Ruling}
    (hrulings : machine.handleRulings (.next operation false) run = ruling :: rulings) : ∃ later : Host,
      later.quiet = run.host.quiet ∧ ruling.run.host = later ∧
      rulings = machine.dispatchRulings operation (position + 1) { run with host := later } ∧
      machine.handle (.next operation false) run =
        settled (machine.dispatch operation (position + 1) { run with host := later }) ∧
      ∃ failure, machine.handleActs (.next operation false) run =
        machine.dispatchActs operation (position + 1) { run with host := later } ++ failureActs failure := by
  unfold handleRulings at hrulings
  rw [handle_eq_settled]
  unfold attempt handleActs
  have hquiet := run.host.quiet_run (machine.registry.validate (.next operation false))
  revert hrulings hquiet
  rcases run.host.run (machine.registry.validate (.next operation false)) with ⟨_ | error, middle⟩
  · intro hrulings hquiet
    obtain ⟨choice, later, hselects⟩ :=
      machine.registry.exists_selects (Effect.next operation false).operation run.stack.context 0 middle
    have hlater := middle.quiet_run
      (machine.registry.select (Effect.next operation false).operation run.stack.context 0)
    rw [Registry.selects_iff.1 hselects] at hlater
    -- the delegating frame is a handler of the operation
    have hposition : delegation { run with host := later } operation = .ok (position + 1) := by
      unfold delegation
      simp [htag]
    cases choice with
    | some chosen =>
        unfold dispatchRulings at hrulings
        simp only [Registry.selects_iff.1 hselects] at hrulings
        cases hrulings
    | none =>
        have hdispatch : machine.dispatch (.next operation false) 0 { run with host := middle } =
            machine.serve (.next operation false) none { run with host := later } :=
          dispatch_eq { run with host := middle } hselects
        simp only [dispatchRulings_of_nobody { run with host := middle } hselects, coreRulings, hposition] at hrulings
        obtain ⟨rfl, rfl⟩ := List.cons.inj hrulings
        simp only [hdispatch, dispatchActs_eq { run with host := middle } hselects, serve, serveActs, core, coreActs, hposition]
        exact ⟨later, hlater.trans hquiet, rfl, rfl, rfl, _, rfl⟩
  · intro hrulings
    cases hrulings

/-- The core rules that are applied when finished frames are taken off the stack. -/
def unwindRulingsFrom (machine : Machine) (stack : Stack) (host : Host) (top : Frame) : List Frame → List Ruling
  | [] => []
  | parent :: rest =>
    match top.defers with
    | effect :: defers =>
      machine.handleRulings effect
        { stack := { stack with top := { top with defers }, below := parent :: rest }
          host := host.emit (.deferredStarted effect.kind) }
    | [] =>
      if parent.isFinished then
        match top.result, parent.result with
        | .error error, .error existing =>
          machine.unwindRulingsFrom stack (host.emit (.deferredFailed error existing)) parent rest
        | .error error, .ok _ => machine.unwindRulingsFrom stack host { parent with result := .error error } rest
        | .ok _, _ => machine.unwindRulingsFrom stack host parent rest
      else []

def unwindRulings (machine : Machine) (run : Run) : List Ruling :=
  machine.unwindRulingsFrom run.stack run.host run.stack.top run.stack.below

/-- The core rules that are applied in a turn of the top frame. -/
def turnRulings (machine : Machine) (run : Run) : List Ruling :=
  let run := run.observeCancellation
  let frame := run.stack.top
  if frame.isFinished then machine.unwindRulings run
  else if frame.cancellation = .due then
    machine.unwindRulings (finished (.ok .null) (run.withTop fun frame => { frame with cancellation := .applied }))
  else
    match frame.progress with
    | .fresh _ | .suspended _ | .running _ => []
    | .root | .finished => machine.unwindRulings (finished (.ok .null) run)

/-- The core rules that are applied when the computation of the top frame ends. -/
def completeRulings (machine : Machine) (outcome : Outcome) (run : Run) : List Ruling :=
  match outcome with
  | .error error =>
    machine.unwindRulings (finished outcome (run.emit (.computationFailed error run.stack.labels)))
  | .ok _ => machine.unwindRulings (finished outcome run)

/-- The core rules that are applied when the computation of the top frame performs an effect. -/
def suspendRulings (machine : Machine) (effect : Effect) (resume : Outcome → Body) (run : Run) : List Ruling :=
  let run := (asking run resume).observeCancellation
  if run.stack.top.cancellation = .due then [] else machine.handleRulings effect run

/-- The core rules of one step of a run. -/
def stepRulings (machine : Machine) (run : Run) : List Ruling :=
  match run.stack.top.progress with
  | .running (.done outcome) => machine.completeRulings outcome run
  | .running (.perform effect resume) => machine.suspendRulings effect resume run
  | .running (.act _ _) => []
  | _ => machine.turnRulings run

/-- The core rules of one step of a process. -/
def advanceRulings (machine : Machine) (task : TaskId) (activity : Activity) (host : Host) : List Ruling :=
  match activity with
  | .forked context effect => machine.handleRulings effect { stack := { context, signal := some task }, host }
  | .task stack | .run stack _ =>
    match stack.below with
    | [] => []
    | _ :: _ => machine.stepRulings { stack, host }
  | .client (.evaluate context (.perform effect _)) =>
    machine.handleRulings (machine.submission effect) { stack := { context, signal := none }, host }
  | _ => []

end Machine

/-- A frame that has finished with an error. -/
def Frame.isFailed (frame : Frame) : Bool :=
  frame.isFinished &&
    match frame.result with
    | .error _ => true
    | .ok _ => false

theorem Frame.exists_of_isFailed {frame : Frame} (hfailed : frame.isFailed = true) :
    ∃ error, frame.isFinished = true ∧ frame.result = .error error := by
  cases hresult : frame.result with
  | ok value => simp [isFailed, hresult] at hfailed
  | error error =>
      simp only [isFailed, hresult, Bool.and_true] at hfailed
      exact ⟨error, hfailed, rfl⟩

open Middleware in
/-- A core rule does the same whether or not the frames of middleware are there.  The rules that are about the top frame
ask for one that is not middleware's; and an error is taken from the frame below only if both frames are not, or there
is none to be taken, from the frame below and from the one that would be below. -/
def Ruling.spares (kinds : List String) (ruling : Ruling) : Bool :=
  let frames := ruling.run.stack.top :: ruling.run.stack.below
  match ruling.effect with
  | .defer _ | .terminal _ | .next .. => !owns kinds ruling.run.stack.top
  | .recover =>
    (!owns kinds ruling.run.stack.top && !ruling.run.stack.below.head?.any (owns kinds)) ||
      (!frames[1]?.any Frame.isFailed && !(plainFrames kinds frames)[1]?.any Frame.isFailed)
  | .generator => false
  | _ => true

namespace Middleware

/-- The stack of a process takes no note of a cancellation while frames of middleware are there. -/
def calm (kinds : List String) (activity : Activity) (host : Host) : Bool :=
  activity.stack?.all fun stack =>
    !(stack.top :: stack.below).any (owns kinds) || stack.canceled || !stack.signal.any host.isCanceled

/-- A submission that is wrapped in a start operation for middleware only is checked as it is without. -/
def admits (kinds : List String) (registry : Registry) (activity : Activity) (host : Host) : Bool :=
  match activity with
  | .client (.evaluate _ (.perform effect _)) =>
    !kinds.contains Kind.start || kinds.count Kind.start < (registry.handlersOf Kind.start).length ||
      match host.run (registry.validate effect) with
      | (some _, _) => true
      | (none, later) =>
        (later.run (registry.validateOne (.start effect))).1.isNone &&
          (later.run (registry.validateOne (.start effect))).2.nextIdentity = later.nextIdentity
  | _ => true

/-- The computation of middleware is about to delegate its operation. -/
def delegates (kinds : List String) (activity : Activity) : Bool :=
  activity.stack?.any fun stack =>
    owns kinds stack.top &&
      match stack.top.progress with
      | .running (.perform _ _) => true
      | _ => false

/-- A step of a process does not depend on middleware: no cancellation is noted while middleware is there, submissions
and delegations by middleware are let through, and all core rules do the same whether or not its frames are there. -/
def spares (kinds : List String) (machine : Machine) (task : TaskId) (activity : Activity) (host : Host) : Bool :=
  calm kinds activity host && admits kinds machine.registry activity host &&
    match delegates kinds activity, machine.advanceRulings task activity host with
    | true, [] => false
    | true, delegation :: rulings =>
      delegation.run.host.nextIdentity = host.nextIdentity && rulings.all (Ruling.spares kinds)
    | false, rulings => rulings.all (Ruling.spares kinds)

/-- The next step of a system does not depend on middleware. -/
def sparesNext (kinds : List String) (machine : Machine) (system : System) : Bool :=
  system.current.all fun running => spares kinds machine running.1 running.2 system.host

/-! ## What others see -/

/-- A computation that is run, and the handler that it is run for, if it is. -/
abbrev Service := Computation × Option HandlerTag

/-- What an act runs for others than the middleware. -/
def service? (kinds : List String) : Act → Option Service
  | .pushed computation tag => if tag.any (ownsTag kinds) then none else some (computation, tag.map (plainTag kinds))
  | _ => none

/-- What some acts run for others than the middleware, in order. -/
def services (kinds : List String) (acts : List Act) : List Service :=
  acts.filterMap (service? kinds)

/-- The computations that are run in a trace, each with its process and the handler it is run for, in order.  Those of
middleware are left out, and handlers are counted from behind it. -/
def served (kinds : List String) (trace : Trace) : List (TaskId × Service) :=
  trace.filterMap fun entry => (service? kinds entry.2).map fun service => (entry.1, service)

theorem services_append (kinds : List String) (acts more : List Act) :
    services kinds (acts ++ more) = services kinds acts ++ services kinds more :=
  List.filterMap_append

theorem served_append (kinds : List String) (trace more : Trace) :
    served kinds (trace ++ more) = served kinds trace ++ served kinds more :=
  List.filterMap_append

theorem served_own (kinds : List String) (task : TaskId) (acts : List Act) :
    served kinds (acts.map fun act => (task, act)) = (services kinds acts).map fun service => (task, service) := by
  unfold served services
  rw [List.filterMap_map, List.map_filterMap]
  rfl

end Middleware
end EffectMachine
