import EffectMachine.Machine.Advance
import EffectMachine.Proofs.Acts.Adequacy
import EffectMachine.Proofs.Acts.Roll

/-!
# Histories

The history of a stack is all it did since it began: the acts of handling its first effect, and then the
acts of its steps.  Between two steps the host may change in any way, because other processes run
meanwhile; in particular the stack may be asked to cancel at any moment, also before it begins.

`History.invariant` is the induction principle: what holds of a new stack, does not depend on the host and
is kept by every act holds throughout.
-/

namespace EffectMachine

/-- All that a stack did since it was given its first effect, and what became of it. -/
inductive History (machine : Machine) (context : Context) (signal : Option TaskId) (effect : Effect) :
    List Act → Run → Prop
  | begun (host : Host) :
      History machine context signal effect
        (machine.handleActs effect { stack := { context, signal }, host })
        (machine.begin context signal effect host)
  | stepped {acts : List Act} {run : Run} (history : History machine context signal effect acts run)
      (habove : run.stack.below ≠ []) (host : Host) :
      History machine context signal effect (acts ++ machine.stepActs { run with host })
        (machine.step { run with host }).run

namespace History

variable {machine : Machine} {context : Context} {signal : Option TaskId} {effect : Effect}
variable {P : List Act → Run → Prop}

/-- What every act keeps is kept by a sequence of acts. -/
theorem invariant_chain (hhost : ∀ {acts : List Act} {run : Run} (host : Host),
      P acts run → P acts { run with host })
    (hact : ∀ {acts : List Act} {run next : Run} {act : Act},
      run.Does act next → P acts run → P (acts ++ [act]) next)
    {acts more : List Act} {run final : Run} (hchain : run.Chain more final) (start : P acts run) :
    P (acts ++ more) final := by
  induction hchain generalizing acts with
  | done run => simpa using start
  | quiet host hquiet _ ih => exact ih (hhost host start)
  | act hdoes _ ih =>
      rw [List.append_cons]
      exact ih (hact hdoes start)

/-- What holds of a new stack on any host, does not depend on the host and is kept by every act holds
throughout the history of a stack. -/
theorem invariant (hstart : ∀ host : Host, P [] { stack := { context, signal }, host })
    (hhost : ∀ {acts : List Act} {run : Run} (host : Host), P acts run → P acts { run with host })
    (hact : ∀ {acts : List Act} {run next : Run} {act : Act},
      run.Does act next → P acts run → P (acts ++ [act]) next)
    {acts : List Act} {run : Run} (history : History machine context signal effect acts run) :
    P acts run := by
  induction history with
  | begun host =>
      exact invariant_chain hhost hact (machine.handle_chain effect _) (hstart host)
  | stepped history habove host ih =>
      exact invariant_chain hhost hact (machine.step_chain _) (hhost host ih)

/-- A history begins with the acts of handling the effect. -/
theorem begins {acts : List Act} {run : Run} (history : History machine context signal effect acts run) :
    ∃ host rest, acts = machine.handleActs effect { stack := { context, signal }, host } ++ rest := by
  induction history with
  | begun host => exact ⟨host, [], (List.append_nil _).symm⟩
  | stepped _ _ host ih =>
      obtain ⟨first, rest, rfl⟩ := ih
      exact ⟨first, rest ++ _, List.append_assoc ..⟩

/-- A history tells who is on the stack. -/
theorem tracks {acts : List Act} {run : Run} (history : History machine context signal effect acts run) :
    Tracks acts run :=
  history.invariant (P := Tracks) (fun _ => .initial rfl)
    (fun host tracks => tracks.host host) fun hdoes tracks => tracks.does hdoes

end History

/-! ## Stacks on their own -/

namespace Machine

/-- A machine without plugins and functions. -/
def bare : Machine where
  registry := {}
  library := ⟨fun _ _ => default⟩

/-- Some steps of a stack on a host, with their acts; none once it is down to its sentinel. -/
def drive (machine : Machine) (host : Host) : Nat → Run → List Act × Run
  | 0, run => ([], run)
  | steps + 1, run =>
    match run.stack.below with
    | [] => ([], run)
    | _ :: _ =>
      let later := machine.drive host steps (machine.step { run with host }).run
      (machine.stepActs { run with host } ++ later.1, later.2)

/-- All that a new stack does on a host, within some steps. -/
def settle (machine : Machine) (context : Context) (effect : Effect) (host : Host) (steps : Nat) : List Act × Run :=
  let later := machine.drive host steps (machine.begin context none effect host)
  (machine.handleActs effect { stack := { context, signal := none }, host } ++ later.1, later.2)

end Machine

variable {machine : Machine} {context : Context} {signal : Option TaskId} {effect : Effect}

/-- Steps make a history longer. -/
theorem History.drive {acts : List Act} {run : Run} (history : History machine context signal effect acts run)
    (host : Host) (steps : Nat) :
    History machine context signal effect (acts ++ (machine.drive host steps run).1)
      (machine.drive host steps run).2 := by
  induction steps generalizing acts run with
  | zero => simpa [Machine.drive] using history
  | succ steps ih =>
      unfold Machine.drive
      cases hbelow : run.stack.below with
      | nil => simpa using history
      | cons parent rest =>
          have hnext := ih (.stepped history (by simp [hbelow]) host)
          simpa using hnext

/-- What a new stack does is a history. -/
theorem History.settle (machine : Machine) (context : Context) (effect : Effect) (host : Host) (steps : Nat) :
    History machine context none effect (machine.settle context effect host steps).1
      (machine.settle context effect host steps).2 :=
  (History.begun host).drive host steps

end EffectMachine
