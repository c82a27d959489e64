import EffectMachine.Proofs.Recasting.Basic

/-!
# Explicit programs

A bare computation stands for the operation that runs it.  Here every bare computation in a program is replaced by
that operation, wherever it occurs: in what an operation wraps or carries, and in whatever a computation may perform
later on.

* `Effect.explicit` and its companions for bodies and computations do that; doing it once is enough.
* `Recasting.explicit` does it on whole hosts, and `Run.explicit` and `System.explicit` in runs and systems.
* `Handler.Blind` and `Registry.Blind` say that handlers and validators do not look for the difference.
-/

namespace EffectMachine

/-! ## Programs -/

mutual

/-- A body with all bare computations written out as operations. -/
def Body.explicit : Body → Body
  | .done outcome => .done outcome
  | .perform effect resume => .perform effect.explicit fun outcome => (resume outcome).explicit
  | .act action resume => .act action fun reply => (resume reply).explicit

/-- A computation with all bare computations written out as operations. -/
def Computation.explicit : Computation → Computation
  | ⟨name, body⟩ => ⟨name, body.explicit⟩

/-- A payload with all bare computations written out as operations. -/
def Payload.explicit : Payload → Payload
  | .unit => .unit
  | .text s => .text s
  | .int n => .int n
  | .value value => .value value
  | .effects effects => .effects (Effect.explicitAll effects)
  | .batchCall definition function key args => .batchCall definition function key args

/-- An effect with all bare computations written out as operations, itself included. -/
def Effect.explicit : Effect → Effect
  | .bare computation => .execute computation.explicit
  | .call function args => .call function args
  | .execute computation => .execute computation.explicit
  | .fork effect => .fork effect.explicit
  | .start effect => .start effect.explicit
  | .defer effect => .defer effect.explicit
  | .recover => .recover
  | .terminal effect => .terminal effect.explicit
  | .generator => .generator
  | .next effect inPlace => .next effect.explicit inPlace
  | .custom kind payload => .custom kind payload.explicit

/-- Effects with all bare computations written out as operations. -/
def Effect.explicitAll : List Effect → List Effect
  | [] => []
  | effect :: rest => effect.explicit :: Effect.explicitAll rest

end

mutual

@[simp]
theorem Body.explicit_explicit : (body : Body) → body.explicit.explicit = body.explicit
  | .done outcome => rfl
  | .perform effect resume => by
      simp only [Body.explicit, effect.explicit_explicit, fun outcome => (resume outcome).explicit_explicit]
  | .act action resume => by
      simp only [Body.explicit, fun reply => (resume reply).explicit_explicit]

@[simp]
theorem Computation.explicit_explicit : (computation : Computation) → computation.explicit.explicit = computation.explicit
  | ⟨name, body⟩ => by simp only [Computation.explicit, body.explicit_explicit]

@[simp]
theorem Payload.explicit_explicit : (payload : Payload) → payload.explicit.explicit = payload.explicit
  | .unit | .text _ | .int _ | .value _ | .batchCall .. => rfl
  | .effects effects => by simp only [Payload.explicit, Effect.explicitAll_explicitAll effects]

/-- Writing all bare computations out once is enough. -/
@[simp]
theorem Effect.explicit_explicit : (effect : Effect) → effect.explicit.explicit = effect.explicit
  | .call .. | .recover | .generator => rfl
  | .bare computation | .execute computation => by simp only [Effect.explicit, computation.explicit_explicit]
  | .fork effect | .start effect | .defer effect | .terminal effect | .next effect _ => by
      simp only [Effect.explicit, effect.explicit_explicit]
  | .custom kind payload => by simp only [Effect.explicit, payload.explicit_explicit]

@[simp]
theorem Effect.explicitAll_explicitAll :
    (effects : List Effect) → Effect.explicitAll (Effect.explicitAll effects) = Effect.explicitAll effects
  | [] => rfl
  | effect :: rest => by
      simp only [Effect.explicitAll, effect.explicit_explicit, Effect.explicitAll_explicitAll rest]

end

/-- The explicit form of an effect has its kind. -/
@[simp]
theorem Effect.kind_explicit (effect : Effect) : effect.explicit.kind = effect.kind := by
  cases effect <;> rfl

/-- The operation that an explicit effect stands for. -/
@[simp]
theorem Effect.operation_explicit (effect : Effect) : effect.explicit.operation = effect.operation.explicit := by
  cases effect <;> rfl

/-! ## Runs and systems -/

/-- Every program with all bare computations written out as operations. -/
def Recasting.explicit : Recasting where
  body := Body.explicit
  effect := Effect.explicit
  effect_operation := Effect.operation_explicit
  effect_custom _ payload := ⟨payload.explicit, rfl⟩

/-- The computation with all bare computations written out is the one that is run instead. -/
theorem Recasting.computation_explicit (computation : Computation) :
    Recasting.explicit.computation computation = computation.explicit := by
  obtain ⟨name, body⟩ := computation
  rfl

/-- A run with all bare computations written out. -/
def Run.explicit (run : Run) : Run :=
  Recasting.explicit.run run

/-- A system with all bare computations written out. -/
def System.explicit (system : System) : System :=
  Recasting.explicit.system system

/-! ## Machines -/

/-- A handler whose computations have all bare computations written out. -/
def Handler.explicit (handler : Handler) : Handler :=
  { handler with handle := fun operation context => (handler.handle operation context).explicit }

/-- A machine whose handlers and functions have all bare computations written out. -/
def Machine.explicit (machine : Machine) : Machine where
  registry :=
    { machine.registry with
      handlers := machine.registry.handlers.map fun entry => (entry.1, entry.2.explicit) }
  library := ⟨fun function args => (machine.library.body function args).explicit⟩

/-- A handler does not look whether the operations it is asked about have their bare computations written out. -/
structure Handler.Blind (handler : Handler) : Prop where
  accepts : ∀ operation context, operation.isOperation = true →
    handler.accepts operation.explicit context = handler.accepts operation context
  handle : ∀ operation context, operation.isOperation = true →
    (handler.handle operation.explicit context).explicit = (handler.handle operation context).explicit

/-- No handler and no validator looks whether an operation has its bare computations written out. -/
structure Registry.Blind (registry : Registry) : Prop where
  handlers : ∀ entry ∈ registry.handlers, entry.2.Blind
  validators : ∀ entry ∈ registry.validators, ∀ operation, operation.isOperation = true →
    entry.2 operation.explicit = entry.2 operation

end EffectMachine
