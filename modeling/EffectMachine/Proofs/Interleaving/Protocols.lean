import EffectMachine.Proofs.Interleaving.Lifting
import EffectMachine.Proofs.Protocol.Conformance
import EffectMachine.Proofs.Protocol.Posts

/-!
# Processes keep to the resume protocol

A client may drive one stack after another, and what it did on the earlier ones stands before what it does on
the present one.  All of it keeps to the protocol, for a stack that is down to its sentinel leaves no stage.

* `OrderedInvariant` is a property that every act keeps that the protocol knows, and `Runs.holds_ordered` says
  that it holds of every process at any time.
* `Runs.exists_obeys` are the stages of a process.
-/

namespace EffectMachine

/-- A property of the deeds of a process and of the run it drives that every act keeps which the protocol knows,
and that lasts while other processes move and when the process begins a new run. -/
structure OrderedInvariant (P : List Act → Run → Prop) : Prop where
  fresh : ∀ (context : Context) (signal : Option TaskId) (host : Host),
    P [] { stack := { context, signal }, host }
  again : ∀ {acts : List Act} {stack : Stack} {host : Host} (context : Context) (signal : Option TaskId),
    stack.below = [] → P acts { stack, host } → P acts { stack := { context, signal }, host }
  later : ∀ {acts : List Act} {stack : Stack} {host later : Host}, host.Later later →
    P acts { stack, host } → P acts { stack, host := later }
  act : ∀ {acts : List Act} {run next : Run} {act : Act} {stages after : List Stage}, Obeys acts stages →
    Stands stages run.frames → Protocol stages act after → run.Does act next → P acts run → P (acts ++ [act]) next

/-- There are no stages on a stack that is down to its sentinel. -/
theorem Stands.eq_nil {stages : List Stage} {frame : Frame} (stands : Stands stages [frame]) : stages = [] := by
  have hlength := stands.length_eq
  exact List.eq_nil_of_length_eq_zero (by simpa using hlength.symm)

namespace OrderedInvariant

variable {P : List Act → Run → Prop}

/-- What acts in order keep is kept by whole steps, together with the protocol. -/
theorem steps (invariant : OrderedInvariant P) (machine : Machine) :
    StepInvariant machine fun acts run =>
      ∃ stages, Obeys acts stages ∧ Stands stages run.frames ∧ P acts run where
  fresh := fun context signal host => ⟨[], .start, .sentinel rfl rfl, invariant.fresh context signal host⟩
  again := by
    rintro acts ⟨context, signal, top, below, canceled⟩ host other task hbelow ⟨stages, obeys, stands, start⟩
    obtain rfl : below = [] := hbelow
    obtain rfl := stands.eq_nil
    exact ⟨[], obeys, .sentinel rfl rfl, invariant.again other task rfl start⟩
  later := fun hlater ⟨stages, obeys, stands, start⟩ => ⟨stages, obeys, stands, invariant.later hlater start⟩
  opened := by
    rintro acts context signal host effect ⟨stages, obeys, stands, start⟩
    obtain rfl := stands.eq_nil
    exact stands.carry (P := P) (fun same => invariant.later (Host.Grows.of_quiet same).later) invariant.act
      (machine.handle_chain effect _) (machine.allows_handleActs effect _) (by simp [Mode.Suits]) obeys start
  stepped := by
    rintro acts run habove ⟨stages, obeys, stands, start⟩
    have allows := machine.allows_stepActs run fun _ => stands.kept_of_running
    exact stands.carry (P := P) (fun same => invariant.later (Host.Grows.of_quiet same).later) invariant.act
      (machine.step_chain run) allows (stands.suits_opening habove) obeys start

end OrderedInvariant

namespace Runs

variable {machine : Machine} {first : Host} {trace : Trace} {system : System}
variable {P : List Act → Run → Prop}

/-- What acts in order keep holds of every process at any time, and all processes keep to the protocol. -/
theorem holds_ordered (runs : Runs machine first trace system) (invariant : OrderedInvariant P) (task : TaskId)
    {stack : Stack} (hdrives : Drives (system.driven? task) stack) :
    ∃ stages, Obeys (deeds trace task) stages ∧ Stands stages (stack.top :: stack.below) ∧
      P (deeds trace task) { stack, host := system.host } :=
  runs.holds_steps (invariant.steps machine) task hdrives

/-- A process keeps to the protocol on the stack that it drives. -/
theorem stands (runs : Runs machine first trace system) (task : TaskId) {stack : Stack}
    (hdrives : Drives (system.driven? task) stack) :
    ∃ stages, Obeys (deeds trace task) stages ∧ Stands stages (stack.top :: stack.below) := by
  have hinvariant : OrderedInvariant fun _ _ => True :=
    ⟨fun _ _ _ => trivial, fun _ _ _ _ => trivial, fun _ _ => trivial, fun _ _ _ _ _ => trivial⟩
  obtain ⟨stages, obeys, stands, -⟩ := runs.holds_ordered hinvariant task hdrives
  exact ⟨stages, obeys, stands⟩

/-- Every process keeps to the protocol. -/
theorem exists_obeys (runs : Runs machine first trace system) (task : TaskId) :
    ∃ stages, Obeys (deeds trace task) stages := by
  obtain ⟨stack, hdrives⟩ := exists_drives (system.driven? task)
  obtain ⟨stages, obeys, -⟩ := runs.stands task hdrives
  exact ⟨stages, obeys⟩

end Runs

end EffectMachine
