import EffectMachine.Program.Effect
import EffectMachine.Value.Literal

/-!
# Expressions

The language that scripted computations are written in.  An expression has a value; an effect expression
describes an effect to be performed or wrapped.
-/

namespace EffectMachine
namespace Script

/-- The operations that wrap one effect. -/
inductive Wrapper where
  | fork
  | start
  | defer
  | terminal
  | next
  | nextInPlace
  deriving DecidableEq, Inhabited

/-- Wraps an effect. -/
def Wrapper.wrap : Wrapper → Effect → Effect
  | .fork, effect => .fork effect
  | .start, effect => .start effect
  | .defer, effect => .defer effect
  | .terminal, effect => .terminal effect
  | .next, effect => .next effect false
  | .nextInPlace, effect => .next effect true

/-- Wraps an effect a number of times. -/
def Wrapper.wrapTimes (wrapper : Wrapper) : Nat → Effect → Effect
  | 0, effect => effect
  | n + 1, effect => wrapper.wrap (wrapper.wrapTimes n effect)

mutual

/-- An expression. -/
inductive Expression where
  | literal (literal : Literal)
  /-- The value of the last of some expressions. -/
  | sequence (parts : List Expression)
  /-- The list of the values of some expressions. -/
  | list (items : List Expression)
  | variable (name : String)
  | assign (name : String) (value : Expression)
  /-- One of the arguments. -/
  | argument (index : Nat)
  /-- The list of the arguments. -/
  | arguments
  /-- A shared variable. -/
  | load (name : String)
  | store (name : String) (value : Expression)
  | perform (effect : EffectExpression)
  /-- The value of an expression or, if it fails, that of a handler, which finds the error in a variable. -/
  | attempt (body handler : Expression)
  /-- Fails with an error value, or with a new error made of the display text of another value. -/
  | raise (value : Expression)
  | choose (condition whenTrue whenFalse : Expression)
  /-- Evaluates the body a number of times, with the count in a variable. -/
  | repeated (count : Nat) (body : Expression)
  /-- The list of the values of the body for every item of a list, with the item in a variable. -/
  | forEach (items body : Expression)
  | log (value : Expression)
  | inspect (value : Expression)
  | equal (a b : Expression)
  | kindName (value : Expression)
  | length (value : Expression)
  | item (value : Expression) (index : Nat)
  | add (a b : Expression)
  /-- The display text of a value. -/
  | display (value : Expression)
  /-- The concatenation of texts. -/
  | concatenate (parts : List Expression)
  | nest (count : Nat) (value : Expression)
  | intoList (value : Expression)
  /-- The outcome of a task, once it has settled. -/
  | resultOf (task : Expression)
  | cancel (task : Expression)
  | isSettled (task : Expression)
  | sleep (delay : Nat)
  | yieldTurn
  | now
  /-- The value of the context. -/
  | context
  /-- The kind of the handled operation. -/
  | handledKind
  /-- The written form of the handled operation. -/
  | handledWritten
  /-- The value that the handled operation carries. -/
  | handledValue
  /-- The kind of the effect that the handled operation wraps. -/
  | handledWrapped
  /-- The number of effects that the handled operation runs side by side. -/
  | handledCount
  /-- The payload of the handled operation, which is used up. -/
  | takePayload (expected : PayloadType)
  deriving Inhabited

/-- An expression for an effect. -/
inductive EffectExpression where
  | call (function : String) (args : List Expression)
  | execute (body : Expression) (name : Option String)
  | bare (body : Expression) (name : Option String)
  /-- A computation that ends at once with a value. -/
  | ready (value : Expression)
  /-- A computation that ends at once with an error. -/
  | failing (error : ErrorLiteral)
  | wrapped (wrapper : Wrapper) (times : Nat) (effect : EffectExpression)
  | recover
  | generator
  | custom (kind : String) (payload : Expression)
  /-- The handled operation, which is used up. -/
  | handled
  | all (effects : List EffectExpression)
  | allSettled (effects : List EffectExpression)
  /-- A number of effects to be run side by side, each made with its number in a variable. -/
  | allCopies (count : Nat) (effect : EffectExpression)
  deriving Inhabited

end

end Script
end EffectMachine
