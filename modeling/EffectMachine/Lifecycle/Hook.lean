import EffectMachine.Program.Basic

/-!
# Hooks

A hook is a short routine that writes to the log, waits, and ends well or with a cause of failure.  Hooks run
one after another, or together: then each goes on as soon as its own timer runs out, in their order when
several do.
-/

namespace EffectMachine

/-- A routine of a listener. -/
inductive Hook where
  /-- It ends, possibly with a failure. -/
  | finish (failure : Option Cause)
  /-- It writes an entry to the log. -/
  | log (entry : Entry) (rest : Hook)
  /-- It waits for some time. -/
  | pause (delay : Nat) (rest : Hook)
  deriving Inhabited

namespace Hook

/-- The hook that does nothing. -/
def idle : Hook :=
  .finish none

/-- How often a hook waits. -/
def pauses : Hook → Nat
  | .finish _ => 0
  | .log _ rest => rest.pauses
  | .pause _ rest => rest.pauses + 1

/-- How often several hooks wait. -/
def totalPauses : List Hook → Nat
  | [] => 0
  | hook :: hooks => hook.pauses + totalPauses hooks

/-- Runs a hook by itself and goes on with its failure. -/
def alone (next : Option Cause → Body) : Hook → Body
  | .finish failure => next failure
  | .log entry rest => .act (.log entry) fun _ => alone next rest
  | .pause delay rest => .sleep delay (alone next rest)

/-- Runs hooks one after another up to the first that fails, and goes on with its failure. -/
def inSequence (next : Option Cause → Body) : List Hook → Body
  | [] => next none
  | hook :: hooks =>
    hook.alone fun
      | some cause => next (some cause)
      | none => inSequence next hooks

/-- How far a hook that runs together with others has come. -/
inductive State where
  /-- It has ended. -/
  | ended (failure : Option Cause)
  /-- It waits for a timer. -/
  | paused (timer : TimerId) (rest : Hook)

namespace State

/-- The failure of a hook that has ended. -/
def failure? : State → Option Cause
  | .ended failure => failure
  | .paused .. => none

/-- The timer and the rest of a hook that waits. -/
def paused? : State → Option (TimerId × Hook)
  | .ended _ => none
  | .paused timer rest => some (timer, rest)

end State

/-- Runs a hook until it waits or ends; a pause that is over at once is no wait. -/
def untilPause (next : State → Body) : Hook → Body
  | .finish failure => next (.ended failure)
  | .log entry rest => .act (.log entry) fun _ => untilPause next rest
  | .pause delay rest => .act (.arm delay) fun
    | some (timer : TimerId) => next (.paused timer rest)
    | none => untilPause next rest

/-- The hooks that wait, with their places. -/
def waiting (states : List State) : List (Nat × TimerId × Hook) :=
  states.zipIdx.filterMap fun (state, place) => state.paused?.map fun paused => (place, paused)

/-- The timers that hooks wait for. -/
def timers (states : List State) : List TimerId :=
  (waiting states).map fun entry => entry.2.1

/-- Drops the hooks that still wait and goes on with what has failed. -/
def stop (next : List (Option Cause) → Body) (states : List State) : Body :=
  .act (.disarm (timers states)) fun _ => next (states.map State.failure?)

/-- Starts hooks from left to right, each until it waits or ends; `started` are those started before.  With
`eager`, the first failure drops all others, and those not yet started never start. -/
def startEach (eager : Bool) (next : List State → Body) (stopped : List (Option Cause) → Body) :
    List State → List Hook → Body
  | started, [] => next started
  | started, hook :: hooks =>
    hook.untilPause fun state =>
      if eager && state.failure?.isSome then stop stopped (started ++ [state])
      else startEach eager next stopped (started ++ [state]) hooks

/-- Lets hooks go on until all have ended; the first argument bounds how often they still wait. -/
def settleEach (eager : Bool) (next : List (Option Cause) → Body) : Nat → List State → Body
  | 0, states => next (states.map State.failure?)
  | pauses + 1, states =>
    if (timers states).isEmpty then next (states.map State.failure?)
    else
      .act (.expired (timers states)) fun (index : Fin (timers states).length) =>
        match (waiting states)[index.val]? with
        | none => next (states.map State.failure?)
        | some (place, _, hook) =>
          hook.untilPause fun state =>
            let states := states.set place state
            if eager && state.failure?.isSome then stop next states
            else settleEach eager next pauses states

/-- Runs hooks together and goes on with their failures, in their order.  With `eager`, the first failure drops
all others. -/
def together (eager : Bool) (next : List (Option Cause) → Body) (hooks : List Hook) : Body :=
  startEach eager (settleEach eager next (totalPauses hooks)) next [] hooks

end Hook
end EffectMachine
