import EffectMachine.Plugin.Basic

/-!
# Middleware

Plugins that stand in front of others: they observe the operations of some kinds and delegate them, whose
outcome they leave alone.
-/

namespace EffectMachine
namespace Middleware

/-- Reports the start and the outcome of an operation. -/
def traced (operation : Effect) : Computation :=
  .named "trace" <|
    .emit (.operationStarted operation.kind) <|
      .perform (.next operation false) fun outcome =>
        .emit
          (match outcome with
            | .ok _ => .operationSucceeded operation.kind
            | .error error => .operationFailed operation.kind error)
          (.done outcome)

/-- Counts an operation, and its failure if it fails. -/
def measured (meter : Nat) (operation : Effect) : Computation :=
  .named "metrics" <|
    .act (.count meter .dispatched) fun _ =>
      .perform (.next operation false) fun
        | .ok value => .ok value
        | .error error => .act (.count meter .failed) fun _ => .fail error

/-- Traces the operations of the given kinds, which have to be qualified. -/
def trace (kinds : List String) : Plugin :=
  .intercepting kinds fun operation _ => traced operation

/-- Counts the operations of the given kinds, which have to be qualified. -/
def metrics (meter : Nat) (kinds : List String) : Plugin :=
  .intercepting kinds fun operation _ => measured meter operation

end Middleware
end EffectMachine
