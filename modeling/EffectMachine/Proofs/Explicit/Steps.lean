import EffectMachine.Proofs.Explicit.Basic
import EffectMachine.Proofs.Recasting.Systems

/-!
# Steps of explicit programs

A machine whose handlers do not look for the difference does the same with a program, step by step, whether or not its
bare computations are written out as operations.  What differs is the check of an operation before it is dispatched: a
bare computation is not checked, and the operation that runs it is.

* `Registry.Blind.serves`: an effect is serviced alike, for every machine with blind handlers.
* `Registry.Lenient`: no operation that runs a computation is refused.  Then checks do not differ either:
  `Registry.validate_explicit`.
* `Machine.Indifferent.handles`: an effect is handled alike.
* `System.step_explicit` and `System.runUntil_explicit`: one step of a system, and any number of steps.
-/

namespace EffectMachine

/-! ## Handlers -/

/-- What an effect stands for is an operation. -/
theorem Effect.isOperation_operation (effect : Effect) : effect.operation.isOperation = true := by
  cases effect <;> rfl

/-- Handlers are looked up for operations only. -/
theorem Effect.isOperation_of_mem_looked {effect operation : Effect} (hmem : operation ∈ effect.looked) :
    operation.isOperation = true := by
  induction effect using wrapped_induction with
  | step effect ih =>
      cases effect with
      | start inner | terminal inner | next inner inPlace =>
          rcases List.mem_cons.1 hmem with rfl | hinner
          · rfl
          · exact ih inner rfl hinner
      | _ => exact List.mem_singleton.1 hmem ▸ isOperation_operation _

namespace Registry

variable {machine : Machine}

theorem handlersOf_explicit (kind : String) :
    machine.explicit.registry.handlersOf kind = (machine.registry.handlersOf kind).map Handler.explicit := by
  simp only [handlersOf, Machine.explicit, List.filter_map, List.map_map]
  rfl

/-- Blind handlers service the explicit form of an effect with the explicit form of their computations. -/
theorem Blind.serves (hblind : machine.registry.Blind) (context : Context) (effect : Effect) :
    Recasting.explicit.Serves machine machine.explicit context effect where
  invoke function args := by
    rw [Recasting.computation_explicit]
    simp only [Machine.invoke, Machine.explicit]
    obtain ⟨name, body⟩ := machine.library.body function args
    rfl
  handlers operation hlooked := by
    have hoperation := Effect.isOperation_of_mem_looked hlooked
    rw [handlersOf_explicit]
    refine List.forall₂_map_right_iff.2 (List.forall₂_same.2 fun handler hhandler => ?_)
    obtain ⟨entry, hentry, rfl⟩ := List.mem_map.1 hhandler
    have hsame := hblind.handlers entry (List.mem_filter.1 hentry).1
    refine ⟨hsame.accepts operation context hoperation, ?_⟩
    rw [Recasting.computation_explicit]
    exact hsame.handle operation context hoperation

end Registry

/-! ## Checks -/

/-- The operations that wrap an effect. -/
inductive Wrapper where
  | fork
  | start
  | defer
  | terminal
  | next (inPlace : Bool)

/-- An effect wrapped in an operation. -/
def Wrapper.around : Wrapper → Effect → Effect
  | .fork, effect => .fork effect
  | .start, effect => .start effect
  | .defer, effect => .defer effect
  | .terminal, effect => .terminal effect
  | .next inPlace, effect => .next effect inPlace

/-- Wrapping an effect and writing out its bare computations can be done in any order. -/
theorem Wrapper.explicit_around (wrapper : Wrapper) (effect : Effect) :
    (wrapper.around effect).explicit = wrapper.around effect.explicit := by
  cases wrapper <;> rfl

/-- What wraps an effect is an operation. -/
theorem Wrapper.isOperation_around (wrapper : Wrapper) (effect : Effect) :
    (wrapper.around effect).isOperation = true := by
  cases wrapper <;> rfl

namespace Registry

variable {registry : Registry}

/-- The check of the operation that runs a computation never refuses it, and leaves no trace. -/
def Lenient (registry : Registry) : Prop :=
  ∀ computation, registry.validateOne (.execute computation) = .done none

/-- Checking an operation by itself is blind if its validator is. -/
theorem Blind.validateOne_explicit (hblind : registry.Blind) {operation : Effect}
    (hoperation : operation.isOperation = true) :
    registry.validateOne operation.explicit = registry.validateOne operation := by
  have hrefusal : terminalRefusal operation.explicit = terminalRefusal operation := by
    cases operation with
    | terminal effect => cases effect <;> rfl
    | bare => cases hoperation
    | _ => rfl
  unfold validateOne
  rw [hrefusal, Effect.kind_explicit]
  cases hvalidator : registry.validator? operation.kind with
  | none => rfl
  | some validator =>
      obtain ⟨entry, hentry, rfl⟩ := Option.map_eq_some_iff.1 hvalidator
      have hmem := List.mem_reverse.1 (List.mem_of_find?_eq_some hentry)
      simp only [hblind.validators entry hmem operation hoperation]

/-- Checking an operation that wraps an effect. -/
theorem validate_around (registry : Registry) (wrapper : Wrapper) (effect : Effect) :
    registry.validate (wrapper.around effect) = (registry.validate effect).bind fun
      | some error => .done (some error)
      | none => registry.validateOne (wrapper.around effect) := by
  cases wrapper <;> rfl

/-- If no operation that runs a computation is refused, checking the explicit form of an effect is checking it. -/
theorem validate_explicit {machine : Machine} (hblind : machine.registry.Blind) (hlenient : machine.registry.Lenient)
    (effect : Effect) : machine.explicit.registry.validate effect.explicit = machine.registry.validate effect := by
  -- checking an operation by itself is no matter of handlers
  have hone {operation : Effect} (hoperation : operation.isOperation = true) :
      machine.explicit.registry.validateOne operation.explicit = machine.registry.validateOne operation :=
    hblind.validateOne_explicit hoperation
  have hwrapping (wrapper : Wrapper) {inner : Effect}
      (ih : machine.explicit.registry.validate inner.explicit = machine.registry.validate inner) :
      machine.explicit.registry.validate (wrapper.around inner).explicit =
        machine.registry.validate (wrapper.around inner) := by
    rw [wrapper.explicit_around, validate_around, validate_around, ih, ← wrapper.explicit_around,
      hone (wrapper.isOperation_around inner)]
  induction effect using Effect.wrapped_induction with
  | step effect ih =>
      cases effect with
      | bare computation => exact hlenient computation.explicit
      | fork inner => exact hwrapping .fork (ih inner rfl)
      | start inner => exact hwrapping .start (ih inner rfl)
      | defer inner => exact hwrapping .defer (ih inner rfl)
      | terminal inner => exact hwrapping .terminal (ih inner rfl)
      | next inner inPlace => exact hwrapping (.next inPlace) (ih inner rfl)
      | call | execute | recover | generator | custom => exact hone rfl

end Registry

/-! ## Steps -/

/-- A machine does not look how programs are written: its handlers and validators are blind, and no operation that runs
a computation is refused. -/
structure Machine.Indifferent (machine : Machine) : Prop where
  blind : machine.registry.Blind
  lenient : machine.registry.Lenient

namespace Machine.Indifferent

variable {machine : Machine} (hsame : machine.Indifferent)

include hsame

/-- The explicit form of an effect is handled as the effect is. -/
theorem handles (context : Context) (effect : Effect) : Recasting.explicit.Handles machine machine.explicit context effect where
  toServes := hsame.blind.serves context effect
  validate := Registry.validate_explicit hsame.blind hsame.lenient effect

omit hsame in
theorem carries : Recasting.explicit.Carries machine machine.explicit where
  signal := rfl
  starts := by simp [Registry.hasHandlers, Registry.handlersOf_explicit]

end Machine.Indifferent

namespace System

variable {machine : Machine}

/-- One step of a system. -/
theorem step_explicit (hsame : machine.Indifferent) (system : System) :
    system.explicit.step machine.explicit = (system.step machine).map explicit :=
  (Recasting.step_system Machine.Indifferent.carries system fun _ _ context _ _ effect _ => hsame.handles context effect).1

/-- Running a system until a process has ended. -/
theorem runUntil_explicit (hsame : machine.Indifferent) (task : TaskId) (steps : Nat) (system : System) :
    system.explicit.runUntil machine.explicit task steps =
      (system.runUntil machine task steps).map fun run => (run.1, run.2.explicit) := by
  induction steps generalizing system with
  | zero => rfl
  | succ steps ih =>
      unfold runUntil
      rw [show system.explicit.host.report? task = _ from Recasting.explicit.report?_host system.host task]
      cases system.host.report? task with
      | some report => rfl
      | none =>
          simp only [step_explicit hsame]
          cases system.step machine with
          | none => rfl
          | some next => exact ih next

end System
end EffectMachine
