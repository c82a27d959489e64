import EffectMachine.Script.Setup
import EffectMachine.System

/-!
# Scenarios

A scenario builds a machine and sends a client through a list of steps.  The answer to each step is its
report, with everything that was logged and reported since the end of the step before.
-/

namespace EffectMachine
namespace Script

/-- What a step does. -/
inductive Goal where
  /-- It starts an effect. -/
  | start (effect : EffectExpression)
  /-- It calls a function. -/
  | call (function : String) (args : List Literal)
  /-- It runs a computation. -/
  | execute (body : Expression) (name : Option String)
  /-- It evaluates an expression outside any computation. -/
  | evaluate (expression : Expression)
  deriving Inhabited

/-- A step of a scenario. -/
inductive Step where
  /-- One goal: after some time, under the context of a name, and with its value kept in a shared variable. -/
  | single (delay : Nat) (context : Option String) (goal : Goal) (store : Option String)
  /-- Several steps side by side. -/
  | join (branches : List Step)
  deriving Inhabited

namespace Goal

/-- The expression for the effect of a goal, if the goal is an effect. -/
def effect? : Goal → Option EffectExpression
  | .start effect => some effect
  | .call function args => some (.call function (args.map .literal))
  | .execute body name => some (.bare body name)
  | .evaluate _ => none

/-- Goes for a goal and on with its outcome. -/
def body (functions : List (String × Function)) (next : Outcome → Body) (goal : Goal) : Body :=
  let scope : Scope := { functions, performs := false }
  let failed : Continuation Error := fun error _ => next (.error error)
  match goal, goal.effect? with
  | .evaluate expression, _ => expression.eval (fun value _ => next (.ok value)) failed scope
  | _, some effect => effect.eval (fun effect _ => .perform effect next) failed scope
  | _, none => next (.ok .null)

end Goal

namespace Step

/-- Keeps a value in a shared variable and ends with the outcome. -/
def keep (store : Option String) (outcome : Outcome) : Body :=
  match store, outcome with
  | some name, .ok value => .act (.store name value) fun _ => .done outcome
  | _, _ => .done outcome

/-- The errand of a step. -/
def errand (functions : List (String × Function)) (base : Context) : Step → Errand
  | .single delay context goal store =>
    .evaluate ((context.map Context.named).getD base) (.sleep delay (goal.body functions (keep store)))
  | .join branches => .join (errands functions base branches)
where
  /-- The errands of several steps. -/
  errands (functions : List (String × Function)) (base : Context) : List Step → List Errand
    | [] => []
    | step :: rest => step.errand functions base :: errands functions base rest

end Step

/-- A machine and what is done with it. -/
structure Scenario where
  setup : Setup := {}
  steps : List Step := []
  /-- The identity of the first new error. -/
  firstIdentity : Nat := 0
  /-- Whether there is a scheduler. -/
  scheduled : Bool := true

/-- The answer to a step. -/
structure StepAnswer where
  report : Report
  log : List Entry
  events : List Event

/-- The answer to a scenario. -/
structure Transcript where
  steps : List StepAnswer
  /-- For each meter, how many operations it saw and how many of them failed. -/
  metrics : List (Nat × Nat)

namespace Scenario

/-- The process that goes through the steps. -/
def main : TaskId := ⟨0⟩

/-- The host that a scenario begins on. -/
def host (scenario : Scenario) : Host where
  log := scenario.setup.announcements.toArray
  nextIdentity := scenario.firstIdentity
  processes := [default]
  scheduled := scenario.scheduled

/-- Goes through steps one after another; nothing when one never ends, or not within the given number of small
steps. -/
def answers (machine : Machine) (functions : List (String × Function)) (bound : Nat) :
    List Step → System → Option (List StepAnswer × System)
  | [], system => some ([], system)
  | step :: rest, system =>
    match (system.dispatchClient main (step.errand functions (.blank 0))).runUntil machine main bound with
    | none => none
    | some (report, system) =>
      let answer : StepAnswer :=
        { report, log := system.host.log.toList, events := system.host.events.toList }
      let system := { system with host := { system.host with log := #[], events := #[] } }
      (answers machine functions bound rest system).map fun (answers, system) =>
        (answer :: answers, system)

/-- The answer to a scenario, or the reason its machine cannot be built; nothing when it never ends, or not
within the given number of small steps for each of its steps. -/
def transcript (scenario : Scenario) (bound : Nat) : Except Error (Option Transcript) :=
  scenario.setup.machine.map fun machine =>
    (answers machine scenario.setup.functions bound scenario.steps { host := scenario.host }).map
      fun (steps, system) =>
        { steps
          metrics := scenario.setup.meters.map fun meter =>
            (system.host.tallied meter .dispatched, system.host.tallied meter .failed) }

end Scenario
end Script
end EffectMachine
