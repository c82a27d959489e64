import EffectMachine.Program.Action

/-!
# Programs

A computation is a body that ends with an outcome, performs an effect and goes on with its outcome, or does
something by itself and goes on with the reply.  Effects describe what the machine is to do; those of a
plugin carry a kind and a payload.
-/

namespace EffectMachine

/-- A function that programs call: its place in the library and its name. -/
structure Function where
  index : Nat
  name : String
  deriving DecidableEq, Inhabited

mutual

/-- What a computation does from some point on. -/
inductive Body where
  /-- It ends. -/
  | done (outcome : Outcome)
  /-- It hands an effect to the machine and goes on with the outcome. -/
  | perform (effect : Effect) (resume : Outcome → Body)
  /-- It does something by itself and goes on with the reply. -/
  | act (action : Action) (resume : action.Reply → Body)

/-- A computation, which runs when a frame resumes it. -/
structure Computation where
  name : Option String
  body : Body

/-- What an operation of a plugin carries. -/
inductive Payload where
  | unit
  | text (s : String)
  | int (n : Int64)
  | value (value : Value)
  /-- Effects to be run side by side. -/
  | effects (effects : List Effect)
  /-- A call to be batched. -/
  | batchCall (definition : Nat) (function : Function) (key : Option BatchKey) (args : List Value)

/-- Anything a computation may hand to the machine. -/
inductive Effect where
  /-- A bare computation, which stands for the operation that runs it. -/
  | bare (computation : Computation)
  /-- Invokes a function and runs the resulting computation. -/
  | call (function : Function) (args : List Value)
  /-- Runs a computation in a frame of its own. -/
  | execute (computation : Computation)
  /-- Runs the effect on a stack of its own. -/
  | fork (effect : Effect)
  /-- Dispatches the effect in place of this operation. -/
  | start (effect : Effect)
  /-- Runs the effect when the current frame finishes. -/
  | defer (effect : Effect)
  /-- Turns the error of the frame being unwound into a value. -/
  | recover
  /-- Discards the current frame, then dispatches the effect. -/
  | terminal (effect : Effect)
  /-- Describes the current frame. -/
  | generator
  /-- Delegates to the next handler of the same kind, from the current frame or in place of it. -/
  | next (effect : Effect) (inPlace : Bool)
  /-- An operation of a plugin. -/
  | custom (kind : String) (payload : Payload)

end

instance : Inhabited Body := ⟨.done (.ok .null)⟩

instance : Inhabited Computation := ⟨⟨none, default⟩⟩

instance : Inhabited Effect := ⟨.recover⟩

namespace Body

/-- Ends with a value. -/
def ok (value : Value) : Body :=
  .done (.ok value)

/-- Ends with an error. -/
def fail (error : Error) : Body :=
  .done (.error error)

/-- Reports an event and goes on. -/
def emit (event : Event) (rest : Body) : Body :=
  .act (.emit event) fun _ => rest

/-- Writes a value to the log and goes on. -/
def note (value : Value) (rest : Body) : Body :=
  .act (.log (.note value)) fun _ => rest

/-- Waits for some time, if it is any, and goes on. -/
def sleep (delay : Nat) (rest : Body) : Body :=
  .act (.arm delay) fun
    | some (timer : TimerId) => .act (.expired [timer]) fun _ => rest
    | none => rest

/-- Makes a user error with an identity of its own and goes on with it. -/
def raise (cause : Cause) (rest : Error → Body) : Body :=
  .act (.mint 1) fun (identity : Nat) => rest (.failed ⟨identity, cause⟩)

/-- Performs an effect and goes on with its value; an error ends the computation. -/
def andThen (effect : Effect) (rest : Value → Body) : Body :=
  .perform effect fun
    | .ok value => rest value
    | .error error => fail error

end Body

namespace Computation

/-- A computation that ends at once with a value. -/
def ready (value : Value) : Computation :=
  ⟨none, .ok value⟩

/-- A computation that ends at once with an error. -/
def failing (error : Error) : Computation :=
  ⟨none, .fail error⟩

/-- A computation with a name. -/
def named (name : String) (body : Body) : Computation :=
  ⟨some name, body⟩

/-- The written form of a computation. -/
def written (computation : Computation) : String :=
  Text.openRecord "Computation" [("name", Text.optional (computation.name.map Text.quoted))]

end Computation
end EffectMachine
