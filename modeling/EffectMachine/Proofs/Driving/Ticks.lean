import EffectMachine.Proofs.Dispatch.Checks
import EffectMachine.Proofs.Dispatch.Selection
import EffectMachine.Proofs.Explicit.Steps

/-!
# The driver, tick by tick

Between two resumptions of computations the driver of a stack checks effects, passes them from handler to core rule and
from wrapper to wrapped effect, and takes finished frames off the stack.  Here each turn of each of these loops is a tick
of its own.

* `Phase` is where the driver is, and `Machine.tick` what it does next.
* `Machine.Ticks` is a number of ticks, between which the host may change in some ways.
* `Machine.ticks_dispatch`, `Machine.ticks_handle`, `Machine.ticks_unwind` and `Machine.ticks_turn` say that the ticks
  lead to what the loops of the machine come to.
-/

namespace EffectMachine

/-- Where the driver of a stack is. -/
inductive Phase where
  /-- It is about to look at the top frame. -/
  | looking
  /-- It takes finished frames off the stack. -/
  | unwinding
  /-- It is about to check an effect. -/
  | handling (effect : Effect)
  /-- It looks for a handler of an effect, from some position on. -/
  | dispatching (effect : Effect) (first : Nat)
  /-- It resumes the computation of the top frame. -/
  | resuming
  /-- It is down to the sentinel. -/
  | ended

/-- The driver has something left to do before it resumes a computation. -/
def Phase.isOpen : Phase → Bool
  | .resuming | .ended => false
  | _ => true

/-- The driver is back from its inner loops: at the top frame again, at a computation that it has resumed, or down to the
sentinel. -/
def Phase.Returns (stack : Stack) : Phase → Prop
  | .looking => True
  | .resuming => ∃ body, stack.top.progress = .running body
  | .ended => stack.below = []
  | _ => False

namespace Machine

/-- One look at the top frame. -/
def look (run : Run) : Phase × Run :=
  match run.stack.below with
  | [] => (.ended, run)
  | _ :: _ =>
    let run := run.observeCancellation
    let frame := run.stack.top
    if frame.isFinished then (.unwinding, run)
    else if frame.cancellation = .due then
      (.unwinding, finished (.ok .null) (run.withTop fun frame => { frame with cancellation := .applied }))
    else
      match frame.progress with
      | .fresh body => (.resuming, resumeTop run body)
      | .suspended resume => (.resuming, resumeTop run (resume frame.result))
      | .running _ => (.resuming, run)
      | .root | .finished => (.unwinding, finished (.ok .null) run)

/-- One finished frame: its most recent deferred effect is started, or it leaves. -/
def leaveOne (run : Run) : Phase × Run :=
  match run.stack.below, run.stack.top.defers with
  | [], _ => (.ended, run)
  | _ :: _, effect :: defers =>
    (.handling effect,
      { stack := run.stack.withTop fun frame => { frame with defers }
        host := run.host.emit (.deferredStarted effect.kind) })
  | parent :: rest, [] =>
    if parent.isFinished then
      match run.stack.top.result, parent.result with
      | .error error, .error existing =>
        (.unwinding,
          { stack := { run.stack with top := parent, below := rest }
            host := run.host.emit (.deferredFailed error existing) })
      | .error error, .ok _ =>
        (.unwinding, { run with stack := { run.stack with top := { parent with result := .error error }, below := rest } })
      | .ok _, _ => (.unwinding, { run with stack := { run.stack with top := parent, below := rest } })
    else (.looking, { run with stack := { run.stack with top := { parent with result := run.stack.top.result }, below := rest } })

/-- One check of an effect. -/
def check (machine : Machine) (effect : Effect) (run : Run) : Phase × Run :=
  match run.host.run (machine.registry.validate effect) with
  | (some error, host) => (.looking, { run with host }.refused error)
  | (none, host) => (.dispatching effect 0, { run with host })

/-- One search for a handler, and, if there is none, the core rule up to where it passes on an effect that the operation
wraps. -/
def dispatchOne (machine : Machine) (effect : Effect) (first : Nat) (run : Run) : Phase × Run :=
  let operation := effect.operation
  match run.host.run (machine.registry.select operation run.stack.context first) with
  | (some (index, handler), host) =>
    let run := { run with host }.emit (.dispatched effect.kind index (run.stack.height + 1))
    (.looking, run.push (handler.handle operation run.stack.context) (some ⟨effect.kind, index⟩))
  | (none, host) =>
    let run := { run with host }
    match effect with
    | .start inner => (.dispatching inner 0, run)
    | .terminal inner =>
      match run.terminateTop with
      | .ok run => (.dispatching inner 0, run)
      | .error error => (.looking, run.refused error)
    | .next inner inPlace =>
      match delegation run inner with
      | .error error => (.looking, run.refused error)
      | .ok position =>
        if inPlace then
          match run.terminateTop with
          | .ok run => (.dispatching inner position, run)
          | .error error => (.looking, run.refused error)
        else (.dispatching inner position, run)
    | .bare computation | .execute computation => (.looking, run.push computation none)
    | .call function args => (.looking, (run.emit (.called function.name)).push (machine.invoke function args) none)
    | .fork effect => (.looking, settled (fork effect run))
    | .defer effect => (.looking, run.deferOnTop effect)
    | .recover => (.looking, run.recover)
    | .generator => (.looking, settled (describe run))
    | .custom kind _ => (.looking, run.refused (.unrecognized kind))

/-- What the driver does next. -/
def tick (machine : Machine) (run : Run) : Phase → Phase × Run
  | .looking => look run
  | .unwinding => leaveOne run
  | .handling effect => machine.check effect run
  | .dispatching effect first => machine.dispatchOne effect first run
  | .resuming => (.resuming, run)
  | .ended => (.ended, run)

/-- Some ticks, before each of which the host may change. -/
inductive Ticks (machine : Machine) (meanwhile : Host → Host → Prop) : Phase × Run → Nat → Phase × Run → Prop
  | done (state : Phase × Run) : Ticks machine meanwhile state 0 state
  | tick {phase : Phase} {run : Run} {host : Host} {number : Nat} {final : Phase × Run} (hopen : phase.isOpen = true)
      (hhost : meanwhile run.host host) (rest : Ticks machine meanwhile (machine.tick { run with host } phase) number final) :
      Ticks machine meanwhile (phase, run) (number + 1) final

namespace Ticks

variable {machine : Machine} {meanwhile : Host → Host → Prop} {first second third : Phase × Run} {number more : Nat}

/-- One tick by itself, and what follows. -/
theorem cons {run : Run} {phase : Phase} (hopen : phase.isOpen = true) (hnext : machine.tick run phase = second)
    (rest : Ticks machine Eq second number third) : Ticks machine Eq (phase, run) (number + 1) third :=
  .tick hopen rfl (hnext ▸ rest)

/-- One tick by itself. -/
theorem single {run : Run} {phase : Phase} (hopen : phase.isOpen = true) (hnext : machine.tick run phase = second) :
    Ticks machine Eq (phase, run) 1 second :=
  cons hopen hnext (.done second)

end Ticks

/-! ## What the ticks come to -/

variable {machine : Machine}

/-- A dispatched effect is passed on, with one wrapper less, or settled. -/
theorem dispatchOne_cases (machine : Machine) (effect : Effect) (first : Nat) (run : Run) :
    (∃ inner position next, machine.dispatchOne effect first run = (.dispatching inner position, next) ∧
      effect.wrappedKinds = inner.kind :: inner.wrappedKinds ∧
      machine.dispatch effect first run = machine.dispatch inner position next) ∨
    machine.dispatchOne effect first run = (.looking, settled (machine.dispatch effect first run)) := by
  obtain ⟨choice, host, hselects⟩ := machine.registry.exists_selects effect.operation run.stack.context first run.host
  rw [dispatch_eq run hselects]
  simp only [dispatchOne, Registry.selects_iff.1 hselects]
  cases choice with
  | some chosen => exact .inr rfl
  | none =>
      cases effect with
      | start inner => exact .inl ⟨inner, 0, _, rfl, rfl, rfl⟩
      | terminal inner =>
          simp only [serve, core]
          cases { run with host }.terminateTop with
          | ok next => exact .inl ⟨inner, 0, next, rfl, rfl, rfl⟩
          | error error => exact .inr rfl
      | next inner inPlace =>
          simp only [serve, core]
          cases delegation { run with host } inner with
          | error error => exact .inr rfl
          | ok position =>
              cases inPlace with
              | false => exact .inl ⟨inner, position, _, rfl, rfl, rfl⟩
              | true =>
                  cases { run with host }.terminateTop with
                  | ok next => exact .inl ⟨inner, position, next, rfl, rfl, rfl⟩
                  | error error => exact .inr rfl
      | _ => exact .inr rfl

/-- Dispatching an effect takes a tick for the effect and one for each effect inside it, at most. -/
theorem ticks_dispatch (machine : Machine) (effect : Effect) (first : Nat) (run : Run) :
    ∃ number ≤ effect.wrappedKinds.length + 1,
      machine.Ticks Eq (.dispatching effect first, run) number (.looking, settled (machine.dispatch effect first run)) := by
  induction hdepth : effect.wrappedKinds.length generalizing effect first run with
  | zero =>
      rcases machine.dispatchOne_cases effect first run with ⟨inner, position, next, -, hwraps, -⟩ | hsettled
      · simp [hwraps] at hdepth
      · exact ⟨1, Nat.le_refl _, .single rfl hsettled⟩
  | succ depth ih =>
      rcases machine.dispatchOne_cases effect first run with ⟨inner, position, next, hnext, hwraps, hsame⟩ | hsettled
      · obtain ⟨number, hnumber, rest⟩ := ih inner position next (by simpa [hwraps] using hdepth)
        rw [hsame]
        exact ⟨number + 1, Nat.succ_le_succ hnumber, .cons rfl hnext rest⟩
      · exact ⟨1, Nat.le_add_left 1 _, .single rfl hsettled⟩

/-- Handling an effect takes one tick more. -/
theorem ticks_handle (machine : Machine) (effect : Effect) (run : Run) :
    ∃ number ≤ effect.wrappedKinds.length + 2,
      machine.Ticks Eq (.handling effect, run) number (.looking, machine.handle effect run) := by
  rw [handle_eq_settled]
  unfold attempt
  cases hchecked : run.host.run (machine.registry.validate effect) with
  | mk verdict host =>
      cases verdict with
      | some error =>
          have hnext : machine.tick run (.handling effect) = (.looking, { run with host }.refused error) := by
            simp only [tick, check, hchecked]
          exact ⟨1, Nat.le_add_left 1 _, .single rfl hnext⟩
      | none =>
          have hnext : machine.tick run (.handling effect) = (.dispatching effect 0, { run with host }) := by
            simp only [tick, check, hchecked]
          obtain ⟨number, hnumber, rest⟩ := machine.ticks_dispatch effect 0 { run with host }
          exact ⟨number + 1, Nat.succ_le_succ hnumber, .cons rfl hnext rest⟩

/-- Taking finished frames off the stack ends, with the driver back at the top frame or down to the sentinel. -/
theorem ticks_unwindFrom (machine : Machine) (stack : Stack) (host : Host) (top : Frame) (below : List Frame) :
    ∃ number phase, phase.Returns (machine.unwindFrom stack host top below).stack ∧
      machine.Ticks Eq (.unwinding, { stack := { stack with top, below }, host }) number
        (phase, machine.unwindFrom stack host top below) := by
  induction below generalizing host top with
  | nil => exact ⟨1, .ended, rfl, .single rfl rfl⟩
  | cons parent rest ih =>
      unfold unwindFrom
      cases hdefers : top.defers with
      | cons effect defers =>
          obtain ⟨number, -, hrest⟩ := machine.ticks_handle effect
            { stack := { stack with top := { top with defers }, below := parent :: rest }
              host := host.emit (.deferredStarted effect.kind) }
          refine ⟨number + 1, .looking, trivial, .cons rfl ?_ hrest⟩
          simp only [tick, leaveOne, hdefers]
          rfl
      | nil =>
          simp only
          split
          · rename_i hfinished
            split
            · rename_i error existing hresult hparent
              obtain ⟨number, phase, hreturns, hrest⟩ := ih (host.emit (.deferredFailed error existing)) parent
              refine ⟨number + 1, phase, hreturns, .cons rfl ?_ hrest⟩
              simp only [tick, leaveOne, hdefers, hfinished, hresult, hparent, if_true]
            · rename_i error value hresult hparent
              obtain ⟨number, phase, hreturns, hrest⟩ := ih host { parent with result := .error error }
              refine ⟨number + 1, phase, hreturns, .cons rfl ?_ hrest⟩
              simp only [tick, leaveOne, hdefers, hfinished, hresult, hparent, if_true]
            · rename_i value result hresult
              obtain ⟨number, phase, hreturns, hrest⟩ := ih host parent
              refine ⟨number + 1, phase, hreturns, .cons rfl ?_ hrest⟩
              simp only [tick, leaveOne, hdefers, hfinished, hresult, if_true]
          · rename_i hwaits
            refine ⟨1, .looking, trivial, .single rfl ?_⟩
            simp only [tick, leaveOne, hdefers, hwaits, if_false, Bool.false_eq_true]

theorem ticks_unwind (machine : Machine) (run : Run) :
    ∃ number phase, phase.Returns (machine.unwind run).stack ∧
      machine.Ticks Eq (.unwinding, run) number (phase, machine.unwind run) :=
  machine.ticks_unwindFrom run.stack run.host run.stack.top run.stack.below

/-- A turn of the top frame is a look at it, and the unwinding that comes of it. -/
theorem ticks_turn (machine : Machine) (run : Run) (habove : run.stack.below ≠ []) :
    ∃ number phase, phase.Returns (machine.turn run).stack ∧
      machine.Ticks Eq (.looking, run) (number + 1) (phase, machine.turn run) := by
  have hunwinds (next : Run) (hnext : look run = (.unwinding, next)) (hturn : machine.turn run = machine.unwind next) :
      ∃ number phase, phase.Returns (machine.turn run).stack ∧
        machine.Ticks Eq (.looking, run) (number + 1) (phase, machine.turn run) := by
    obtain ⟨number, phase, hreturns, hrest⟩ := machine.ticks_unwind next
    rw [hturn]
    exact ⟨number, phase, hreturns, .cons rfl hnext hrest⟩
  have hresumes (next : Run) (body : Body) (hrunning : next.stack.top.progress = .running body)
      (hnext : look run = (.resuming, next)) (hturn : machine.turn run = next) :
      ∃ number phase, phase.Returns (machine.turn run).stack ∧
        machine.Ticks Eq (.looking, run) (number + 1) (phase, machine.turn run) := by
    rw [hturn]
    exact ⟨0, .resuming, ⟨body, hrunning⟩, .single rfl hnext⟩
  obtain ⟨parent, rest, hbelow⟩ := List.exists_cons_of_ne_nil habove
  by_cases hfinished : run.observeCancellation.stack.top.isFinished = true
  · refine hunwinds run.observeCancellation ?_ ?_
    · simp only [look, hbelow, if_pos hfinished]
    · simp only [turn, if_pos hfinished]
  · by_cases hdue : run.observeCancellation.stack.top.cancellation = .due
    · refine hunwinds (finished (.ok .null)
        (run.observeCancellation.withTop fun frame => { frame with cancellation := .applied })) ?_ ?_
      · simp only [look, hbelow, if_neg hfinished, if_pos hdue]
      · simp only [turn, if_neg hfinished, if_pos hdue]
        rfl
    · cases hprogress : run.observeCancellation.stack.top.progress with
      | fresh body =>
          refine hresumes (resumeTop run.observeCancellation body) body rfl ?_ ?_
          · simp only [look, hbelow, if_neg hfinished, if_neg hdue, hprogress]
          · simp only [turn, if_neg hfinished, if_neg hdue, hprogress]
      | suspended resume =>
          refine hresumes (resumeTop run.observeCancellation (resume run.observeCancellation.stack.top.result)) _ rfl ?_ ?_
          · simp only [look, hbelow, if_neg hfinished, if_neg hdue, hprogress]
          · simp only [turn, if_neg hfinished, if_neg hdue, hprogress]
      | running body =>
          refine hresumes run.observeCancellation body hprogress ?_ ?_
          · simp only [look, hbelow, if_neg hfinished, if_neg hdue, hprogress]
          · simp only [turn, if_neg hfinished, if_neg hdue, hprogress]
      | root =>
          refine hunwinds (finished (.ok .null) run.observeCancellation) ?_ ?_
          · simp only [look, hbelow, if_neg hfinished, if_neg hdue, hprogress]
          · simp only [turn, if_neg hfinished, if_neg hdue, hprogress]
            rfl
      | finished => exact absurd (by simp [Frame.isFinished, hprogress]) hfinished

end Machine
end EffectMachine
