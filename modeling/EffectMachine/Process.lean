import EffectMachine.Stack.Basic

/-!
# Processes

Everything that a machine runs side by side: the stacks of forked tasks, and clients, which start runs from
outside.  A client carries out an errand: it runs a script, or sends out other clients and waits for their reports
one after another.
-/

namespace EffectMachine

/-- What a client is sent out for. -/
inductive Errand where
  /-- Evaluates a body, each effect of which is a run of its own under the given context. -/
  | evaluate (context : Context) (body : Body)
  /-- Sends out a client for every errand and waits for all of them. -/
  | join (errands : List Errand)

/-- What a process ended with. -/
inductive Report where
  | single (outcome : Outcome)
  | join (reports : List Report)
  deriving Inhabited

/-- The outcome of a process, unless it sent out others. -/
def Report.outcome? : Report → Option Outcome
  | .single outcome => some outcome
  | .join _ => none

/-- What a process is doing. -/
inductive Activity where
  /-- A forked task that has not begun. -/
  | forked (context : Context) (effect : Effect)
  /-- A forked task on its stack. -/
  | task (stack : Stack)
  /-- A client with its errand. -/
  | client (errand : Errand)
  /-- A client that waits for the run it started. -/
  | run (stack : Stack) (resume : Outcome → Body)
  /-- A client that waits for those it sent out, with the reports it has. -/
  | gathering (reports : List Report) (awaited : List TaskId)
  /-- It has ended. -/
  | ended (report : Report)

instance : Inhabited Activity := ⟨.ended default⟩

/-- A process of a machine. -/
structure Process where
  activity : Activity
  /-- Whether it was asked to cancel. -/
  canceled : Bool := false
  /-- Whether some process has taken its outcome. -/
  collected : Bool := false
  deriving Inhabited

/-- The report of a process that has ended. -/
def Process.report? (process : Process) : Option Report :=
  match process.activity with
  | .ended report => some report
  | _ => none

end EffectMachine
