import EffectMachine.Script.Scenario

/-!
# Declared errors and single effects

Errors that a script declares under names are the same wherever they are mentioned.  An effect expression can
be evaluated by itself, with nothing around it.
-/

namespace EffectMachine
namespace Script

/-- Declared errors with their names, in order of declaration. -/
structure Declarations where
  entries : List (String × Error) := []

namespace Declarations

/-- Declares errors by their names and messages. -/
def ofMessages (messages : List (String × String)) : Declarations where
  entries := messages.mapIdx fun index (name, text) => (name, .failed ⟨index, .message text⟩)

/-- The number of declared errors, which is the identity of the first error made later. -/
def size (declarations : Declarations) : Nat :=
  declarations.entries.length

/-- The declared error of a name. -/
def error? (declarations : Declarations) (name : String) : Option Error :=
  declarations.entries.lookup name

/-- The name of the first declared error that is the same as a given one. -/
def nameOf? (declarations : Declarations) (error : Error) : Option String :=
  (declarations.entries.find? fun entry => entry.2.same error).map Prod.fst

end Declarations

/-- The effect that a body performs first, when nothing else runs. -/
def firstEffect (host : Host) : Body → Except Error Effect
  | .done (.ok _) => .error (.type "no effect")
  | .done (.error error) => .error error
  | .perform effect _ => .ok effect
  | .act action resume =>
    match host.react action with
    | .reply host answer | .giveWay host answer => firstEffect host (resume answer)
    | .wait .. => .error (.type "no effect")

/-- The effect of an effect expression, evaluated with nothing around it. -/
def EffectExpression.alone (effect : EffectExpression) (functions : List (String × Function))
    (firstIdentity : Nat) : Except Error Effect :=
  firstEffect { nextIdentity := firstIdentity } <|
    effect.eval (fun effect _ => .perform effect .done) (fun error _ => .fail error)
      { functions, performs := false }

end Script
end EffectMachine
