import Mathlib
import EffectMachine.Proofs.Driving.Ticks

/-!
# The driver ends

Whatever is on a stack, the driver resumes a computation or is down to the sentinel after a number of ticks that is known
beforehand, whatever happens to the host meanwhile.

* `Stack.weight` adds up what is left to do for the frames of a stack, and `Phase.weight` what is left to do where the
  driver is.  A deferred effect weighs more than the frame or the smaller deferred effect that may come of it.
* `Machine.weight_tick_lt` says that every tick makes the whole lighter.
* `Machine.cannot_spin` is the main statement.
-/

namespace EffectMachine

/-! ## Weights -/

/-- What is left to do for a deferred effect: it is started and checked, dispatched with all effects inside it, and what
comes of it is looked at. -/
def Effect.weight (effect : Effect) : Nat :=
  4 * effect.wrappedKinds.length + 7

/-- What is left to do for a frame: it may have to be given up, it leaves, and its deferred effects are run before. -/
def Frame.weight (frame : Frame) : Nat :=
  (if frame.isFinished then 2 else 3) + (frame.defers.map Effect.weight).sum

/-- What is left to do for the frames of a stack. -/
def Stack.weight (stack : Stack) : Nat :=
  stack.top.weight + (stack.below.map Frame.weight).sum

/-- What is left to do where the driver is. -/
def Phase.weight : Phase → Nat
  | .looking => 2
  | .unwinding => 1
  | .handling effect => effect.weight
  | .dispatching effect _ => 4 * effect.wrappedKinds.length + 6
  | .resuming | .ended => 0

namespace Frame

theorem weight_finish (frame : Frame) (outcome : Outcome) (hgoing : frame.isFinished = false) :
    (frame.finish outcome).weight + 1 = frame.weight := by
  rw [weight, weight, hgoing]
  simp [finish, isFinished]
  omega

theorem weight_markCanceled (frame : Frame) : frame.markCanceled.weight = frame.weight := by
  unfold markCanceled
  split <;> rfl

theorem weight_pos (frame : Frame) : 2 ≤ frame.weight := by
  unfold weight
  split <;> omega

theorem weight_start {frame : Frame} {effect : Effect} {defers : List Effect} (hdefers : frame.defers = effect :: defers) :
    { frame with defers }.weight + effect.weight = frame.weight := by
  rw [weight, weight, hdefers, List.map_cons, List.sum_cons, Nat.add_comm effect.weight]
  exact Nat.add_assoc _ _ _

end Frame

namespace Stack

theorem weight_markCanceled (stack : Stack) : stack.markCanceled.weight = stack.weight := by
  simp [weight, markCanceled, Frame.weight_markCanceled, Function.comp_def]

theorem weight_push (stack : Stack) (computation : Computation) (tag : Option HandlerTag) :
    (stack.push (.ofComputation computation tag)).weight = stack.weight + 3 := by
  simp [weight, push, Frame.weight, Frame.ofComputation, Frame.isFinished]
  omega

theorem weight_start {stack : Stack} {effect : Effect} {defers : List Effect}
    (hdefers : stack.top.defers = effect :: defers) :
    (stack.withTop fun frame => { frame with defers }).weight + effect.weight = stack.weight := by
  have htop := Frame.weight_start hdefers
  simp only [weight, withTop]
  omega

theorem weight_leave {stack : Stack} {parent next : Frame} {rest : List Frame} (hbelow : stack.below = parent :: rest)
    (hnext : next.weight = parent.weight) : { stack with top := next, below := rest }.weight + 2 ≤ stack.weight := by
  have hpos := stack.top.weight_pos
  simp only [weight, hbelow, List.map_cons, List.sum_cons, hnext]
  omega

end Stack

namespace Run

theorem weight_observeCancellation (run : Run) : run.observeCancellation.stack.weight = run.stack.weight := by
  unfold observeCancellation
  split
  · exact run.stack.weight_markCanceled
  · rfl

theorem weight_answerTop (run : Run) (value : Value) : (run.answerTop value).stack.weight = run.stack.weight := by
  unfold answerTop
  split <;> rfl

theorem weight_failTop (run : Run) (error : Error) : (run.failTop error).stack.weight = run.stack.weight := by
  unfold failTop
  split <;> rfl

theorem weight_refused (run : Run) (error : Error) : (run.refused error).stack.weight = run.stack.weight :=
  weight_failTop _ error

theorem weight_recover (run : Run) : run.recover.stack.weight = run.stack.weight := by
  unfold recover
  split
  · rfl
  · rename_i parent rest hbelow
    split
    · simp only [Stack.weight, hbelow, emit]
      rfl
    · rfl

theorem weight_terminateTop {run next : Run} (hterminated : run.terminateTop = .ok next) :
    next.stack.weight + 2 ≤ run.stack.weight := by
  unfold terminateTop at hterminated
  split at hterminated
  · cases hterminated
  · rename_i parent rest hbelow
    cases hterminated
    split
    · exact Stack.weight_leave hbelow rfl
    · exact Stack.weight_leave hbelow rfl

theorem weight_settled_fork (effect : Effect) (run : Run) :
    (Machine.settled (Machine.fork effect run)).stack.weight = run.stack.weight := by
  unfold Machine.fork
  split
  · exact weight_answerTop _ _
  · exact weight_refused _ _

theorem weight_settled_describe (run : Run) :
    (Machine.settled (Machine.describe run)).stack.weight = run.stack.weight :=
  weight_answerTop _ _

end Run

/-! ## Every tick makes the whole lighter -/

namespace Machine

variable {machine : Machine}

/-- What is left to do for the driver of a stack. -/
def weight (state : Phase × Run) : Nat :=
  state.1.weight + state.2.stack.weight

theorem weight_finished {run : Run} (outcome : Outcome) (hgoing : run.stack.top.isFinished = false) :
    (finished outcome run).stack.weight + 1 = run.stack.weight := by
  have htop := run.stack.top.weight_finish outcome hgoing
  simp only [Stack.weight, finished, Stack.withTop]
  omega

theorem weight_resumeTop {run : Run} (body : Body) (hgoing : run.stack.top.isFinished = false) :
    (resumeTop run body).stack.weight = run.stack.weight := by
  rw [Stack.weight, Stack.weight, Frame.weight, Frame.weight, hgoing]
  rfl

theorem weight_look_lt (run : Run) : weight (look run) < 2 + run.stack.weight := by
  have hsame := run.weight_observeCancellation
  unfold look
  split
  · simp only [weight, Phase.weight]
    omega
  · simp only
    split
    · simp only [weight, Phase.weight]
      omega
    · rename_i hunfinished
      have hgoing := eq_false_of_ne_true hunfinished
      split
      · have hless := @weight_finished
          (run.observeCancellation.withTop fun frame => { frame with cancellation := .applied }) (.ok .null) hgoing
        have hkept : (run.observeCancellation.withTop fun frame => { frame with cancellation := .applied }).stack.weight =
            run.observeCancellation.stack.weight := rfl
        simp only [weight, Phase.weight]
        omega
      · have hresumed (body : Body) := weight_resumeTop body hgoing
        have hless := weight_finished (.ok .null) hgoing
        split <;> simp only [weight, Phase.weight, hresumed] <;> omega

/-- A finished frame starts what weighs as much as the driver that handles it, or leaves. -/
theorem weight_leaveOne_lt (run : Run) : weight (leaveOne run) < 1 + run.stack.weight := by
  unfold leaveOne
  split
  · simp only [weight, Phase.weight]
    omega
  · rename_i effect defers hbelow hdefers
    have hstart := Stack.weight_start hdefers
    simp only [weight, Phase.weight]
    omega
  · rename_i parent rest hbelow hdefers
    have hleave (next : Frame) (hnext : next.weight = parent.weight) := Stack.weight_leave hbelow hnext
    have hparent := hleave parent rfl
    have hresult (result : Outcome) := hleave { parent with result } rfl
    split
    · split
      · simp only [weight, Phase.weight]
        omega
      · rename_i error value _ _
        have hfailed := hresult (.error error)
        simp only [weight, Phase.weight]
        omega
      · simp only [weight, Phase.weight]
        omega
    · have htold := hresult run.stack.top.result
      simp only [weight, Phase.weight]
      omega

theorem weight_check_lt (effect : Effect) (run : Run) :
    weight (machine.check effect run) < effect.weight + run.stack.weight := by
  unfold check
  split
  · simp only [weight, Phase.weight, Run.weight_refused, Effect.weight]
    omega
  · simp only [weight, Phase.weight, Effect.weight]
    omega

theorem weight_dispatchOne_lt (effect : Effect) (first : Nat) (run : Run) :
    weight (machine.dispatchOne effect first run) < (Phase.dispatching effect first).weight + run.stack.weight := by
  have hpushed (run : Run) (computation : Computation) (tag : Option HandlerTag) :
      (run.push computation tag).stack.weight = run.stack.weight + 3 := run.stack.weight_push computation tag
  unfold dispatchOne
  simp only
  split
  · simp only [weight, Phase.weight, hpushed, Run.emit]
    omega
  · cases effect with
    | start inner =>
        simp only [weight, Phase.weight, Effect.wrappedKinds, List.length_cons]
        omega
    | terminal inner =>
        simp only
        split
        · rename_i next hterminated
          have hless := Run.weight_terminateTop hterminated
          simp only [weight, Phase.weight, Effect.wrappedKinds, List.length_cons] at hless ⊢
          omega
        · simp only [weight, Phase.weight, Run.weight_refused]
          omega
    | next inner inPlace =>
        simp only
        split
        · simp only [weight, Phase.weight, Run.weight_refused]
          omega
        · split
          · split
            · rename_i next hterminated
              have hless := Run.weight_terminateTop hterminated
              simp only [weight, Phase.weight, Effect.wrappedKinds, List.length_cons] at hless ⊢
              omega
            · simp only [weight, Phase.weight, Run.weight_refused]
              omega
          · simp only [weight, Phase.weight, Effect.wrappedKinds, List.length_cons]
            omega
    | defer inner =>
        -- a deferred effect weighs less than the effect that defers it
        have hdeferred (run : Run) : run.stack.weight + inner.weight = (run.deferOnTop inner).stack.weight :=
          @Stack.weight_start (run.deferOnTop inner).stack inner _ rfl
        simp only [weight, Phase.weight, ← hdeferred, Effect.weight, Effect.wrappedKinds, List.length_cons]
        omega
    | fork inner =>
        simp only [weight, Phase.weight, Run.weight_settled_fork]
        omega
    | generator =>
        simp only [weight, Phase.weight, Run.weight_settled_describe]
        omega
    | recover =>
        simp only [weight, Phase.weight, Run.weight_recover]
        omega
    | custom kind payload =>
        simp only [weight, Phase.weight, Run.weight_refused]
        omega
    | bare computation | execute computation | call function args =>
        simp only [weight, Phase.weight, hpushed, Run.emit]
        omega

/-- Every tick makes the whole lighter. -/
theorem weight_tick_lt (machine : Machine) {phase : Phase} (hopen : phase.isOpen = true) (run : Run) :
    weight (machine.tick run phase) < weight (phase, run) := by
  cases phase with
  | looking => exact weight_look_lt run
  | unwinding => exact weight_leaveOne_lt run
  | handling effect => exact weight_check_lt effect run
  | dispatching effect first => exact weight_dispatchOne_lt effect first run
  | resuming | ended => cases hopen

/-- There are no more ticks than what is left to do. -/
theorem Ticks.add_weight_le {meanwhile : Host → Host → Prop} {first last : Phase × Run} {number : Nat}
    (ticks : Ticks machine meanwhile first number last) : number + weight last ≤ weight first := by
  induction ticks with
  | done state => exact Nat.le_of_eq (Nat.zero_add _)
  | @tick phase run host number final hopen hhost rest ih =>
      have hless := machine.weight_tick_lt hopen { run with host }
      have hsame : weight (phase, { run with host }) = weight (phase, run) := rfl
      omega

/-- The driver goes on until it resumes a computation or is down to the sentinel. -/
theorem exists_ticks (machine : Machine) (meanwhile : Host → Host → Prop) (hmeanwhile : ∀ host, ∃ later, meanwhile host later)
    (state : Phase × Run) :
    ∃ number phase run, machine.Ticks meanwhile state number (phase, run) ∧ phase.isOpen = false := by
  induction hweight : weight state using Nat.strongRecOn generalizing state with
  | ind left ih =>
      obtain ⟨phase, run⟩ := state
      cases hopen : phase.isOpen with
      | false => exact ⟨0, phase, run, .done _, hopen⟩
      | true =>
          obtain ⟨later, hlater⟩ := hmeanwhile run.host
          have hless := machine.weight_tick_lt hopen { run with host := later }
          obtain ⟨number, last, final, ticks, hlast⟩ := ih _ (hweight ▸ hless) _ rfl
          exact ⟨number + 1, last, final, .tick hopen hlater ticks, hlast⟩

/-! ## The main statement -/

/-- Some rounds of the driver in which it resumes nothing: whenever it looks at the top frame, the stack is above its
sentinel and no computation is running.  Before each round the host may change in any way. -/
inductive Idles (machine : Machine) : Stack → Nat → Stack → Prop
  | done (stack : Stack) : Idles machine stack 0 stack
  | round {stack : Stack} (habove : stack.below ≠ []) (hidle : ∀ body, stack.top.progress ≠ .running body) (host : Host)
      {number : Nat} {final : Stack} (rest : Idles machine (machine.step { stack, host }).run.stack number final) :
      Idles machine stack (number + 1) final

theorem step_of_idle (machine : Machine) (run : Run) (hidle : ∀ body, run.stack.top.progress ≠ .running body) :
    machine.step run = moved (machine.turn run) := by
  unfold step
  split
  · exact absurd ‹_› (hidle _)
  · exact absurd ‹_› (hidle _)
  · exact absurd ‹_› (hidle _)
  · rfl

theorem Idles.le_weight {stack final : Stack} {number : Nat} (idles : Idles machine stack number final) :
    number ≤ stack.weight + 1 := by
  induction idles with
  | done stack => exact Nat.zero_le _
  | @round stack habove hidle host number final rest ih =>
      rw [machine.step_of_idle { stack, host } hidle] at rest ih
      obtain ⟨more, phase, hreturns, ticks⟩ := machine.ticks_turn { stack, host } habove
      have hbound := ticks.add_weight_le
      -- a round that comes back to the top frame leaves less to do, and any other one is the last
      cases phase with
      | looking =>
          simp only [weight, Phase.weight] at hbound
          simp only [moved, Stepped.run] at ih
          omega
      | resuming =>
          obtain ⟨body, hrunning⟩ := hreturns
          cases rest with
          | done => omega
          | round _ hagain => exact absurd hrunning (hagain body)
      | ended =>
          cases rest with
          | done => omega
          | round hagain => exact absurd hreturns hagain
      | _ => cases hreturns

/-- All that the driver of a stack does between two resumptions ends. -/
structure Ends (machine : Machine) : Prop where
  /-- Dispatching passes through the effect and those inside it, each once. -/
  dispatch : ∀ effect first run, ∃ number ≤ effect.wrappedKinds.length + 1,
    machine.Ticks Eq (.dispatching effect first, run) number (.looking, settled (machine.dispatch effect first run))
  handle : ∀ effect run, ∃ number ≤ effect.wrappedKinds.length + 2,
    machine.Ticks Eq (.handling effect, run) number (.looking, machine.handle effect run)
  unwind : ∀ run, ∃ number phase, phase.Returns (machine.unwind run).stack ∧
    machine.Ticks Eq (.unwinding, run) number (phase, machine.unwind run)
  turn : ∀ run : Run, run.stack.below ≠ [] → ∃ number phase, phase.Returns (machine.turn run).stack ∧
    machine.Ticks Eq (.looking, run) (number + 1) (phase, machine.turn run)
  /-- Whatever happens to the host meanwhile, the ticks are no more than what was left to do in the beginning. -/
  bounded : ∀ meanwhile first number last,
    machine.Ticks meanwhile first number last → number + weight last ≤ weight first
  /-- They end when a computation is resumed or the stack is down to its sentinel. -/
  ended : ∀ meanwhile : Host → Host → Prop, (∀ host, ∃ later, meanwhile host later) → ∀ state,
    ∃ number phase run, machine.Ticks meanwhile state number (phase, run) ∧ phase.isOpen = false
  /-- So are the rounds of the driver. -/
  idle : ∀ stack number final, machine.Idles stack number final → number ≤ stack.weight + 1

/-- The driver of a stack cannot spin: whatever is on the stack, whatever is deferred or canceled there, and whatever
happens to the host meanwhile, it resumes a computation or is down to the sentinel after a number of ticks that is known
beforehand. -/
theorem cannot_spin (machine : Machine) : machine.Ends where
  dispatch := machine.ticks_dispatch
  handle := machine.ticks_handle
  unwind := machine.ticks_unwind
  turn := machine.ticks_turn
  bounded := fun _ _ _ _ => Ticks.add_weight_le
  ended := machine.exists_ticks
  idle := fun _ _ _ => Idles.le_weight

/-- A frame that has failed, on which something is deferred that defers something else. -/
def deferring : Stack where
  context := .blank 0
  signal := none
  top := { progress := .finished, result := .error .cancelled, defers := [.defer (.defer .recover)] }
  below := [.root]

/-- Each deferred effect takes a round of its own, and so does leaving. -/
theorem cannot_spin_deferring :
    ∃ final, bare.Idles deferring 4 final ∧ final.below = [] ∧ 4 ≤ deferring.weight + 1 := by
  have hidle {stack : Stack} (hfinished : stack.top.isFinished = true) (body : Body) :
      stack.top.progress ≠ .running body := by
    intro hrunning
    simp [Frame.isFinished, hrunning] at hfinished
  have hidles : ∃ final, bare.Idles deferring 4 final ∧ final.below = [] :=
    ⟨_, .round (by decide) (hidle rfl) {} (.round (by decide) (hidle rfl) {} (.round (by decide) (hidle rfl) {}
      (.round (by decide) (hidle rfl) {} (.done _)))), rfl⟩
  obtain ⟨final, idles, hbelow⟩ := hidles
  exact ⟨final, idles, hbelow, (cannot_spin bare).idle _ _ _ idles⟩

end Machine
end EffectMachine
