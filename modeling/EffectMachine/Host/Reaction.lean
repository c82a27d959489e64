import EffectMachine.Host.Basic

/-!
# Reactions of a host

How a host reacts to the actions of computations.  Most are answered at once; those that wait are tried again
whenever one of the occasions they wait for has come.
-/

namespace EffectMachine

/-- What a host makes of an action with replies of some type. -/
inductive Reaction (α : Type) where
  /-- The computation goes on with a reply. -/
  | reply (host : Host) (answer : α)
  /-- The computation goes on with a reply once all others had their turn. -/
  | giveWay (host : Host) (answer : α)
  /-- The computation tries again after one of the occasions. -/
  | wait (host : Host) (occasions : List Occasion)

namespace Host

/-- The outcomes of all the tasks, once they have settled. -/
def allOutcomes? (host : Host) : List TaskId → Option (List Outcome)
  | [] => some []
  | task :: rest =>
    match host.outcome? task, host.allOutcomes? rest with
    | some outcome, some outcomes => some (outcome :: outcomes)
    | _, _ => none

/-- The values of all the tasks once they have succeeded, or the error of the first one that failed; looked
for from the first task on. -/
def firstFailure? (host : Host) : List TaskId → Option (Except Error (List Value))
  | [] => some (.ok [])
  | task :: rest =>
    match host.outcome? task, host.firstFailure? rest with
    | some (.error error), _ => some (.error error)
    | _, some (.error error) => some (.error error)
    | some (.ok value), some (.ok values) => some (.ok (value :: values))
    | _, _ => none

/-- The tasks up to the first one that has failed. -/
def untilFailure (host : Host) : List TaskId → List TaskId
  | [] => []
  | task :: rest =>
    match host.outcome? task with
    | some (.error _) => [task]
    | _ => task :: host.untilFailure rest

/-- A look at tasks whose outcomes are taken: the answer, or else a wait for their end. -/
def look {α : Type} (host : Host) (looked tasks : List TaskId) (answer : Option α) : Reaction α :=
  let host := looked.foldl collect host
  match answer with
  | some answer => .reply host answer
  | none => .wait host (tasks.map Occasion.ended)

/-- The reaction to an action. -/
def react (host : Host) : (action : Action) → Reaction action.Reply
  | .log entry => .reply (host.write entry) ()
  | .emit event => .reply (host.emit event) ()
  | .load name => .reply host (host.load name)
  | .store name value => .reply (host.store name value) ()
  | .count meter tally => .reply { host with tallies := (meter, tally) :: host.tallies } ()
  | .mint count => .reply (host.mint count).2 (host.mint count).1
  | .now => .reply host host.timers.now
  | .settlements => .reply host host.isSettled
  | .settled task => .reply host (host.isSettled task)
  | .cancel task => .reply (host.cancel task) ()
  | .join tasks => host.look tasks tasks (host.allOutcomes? tasks)
  | .firstFailure tasks => host.look (host.untilFailure tasks) tasks (host.firstFailure? tasks)
  | .yieldTurn => .giveWay host ()
  | .arm delay =>
    if host.scheduled && 0 < delay then
      .reply { host with timers := (host.timers.arm delay).2 } (some (host.timers.arm delay).1)
    else .reply host none
  | .expired timers =>
    match timers.findFinIdx? host.timers.hasExpired with
    | some index => .reply { host with timers := host.timers.disarm [timers[index]] } index
    | none => .wait host (timers.map Occasion.expired)
  | .disarm timers => .reply { host with timers := host.timers.disarm timers } ()
  | .enroll group args =>
    .reply { host with batches := (host.batches.enroll group args).2 }
      (host.batches.enroll group args).1
  | .collect group =>
    .reply { host with batches := host.batches.remove group } (host.batches.callsOf group)
  | .abandon group =>
    .reply
      ({ host with batches := host.batches.remove group }.close
        ((host.batches.callsOf group).map Enrolled.slot)) ()
  | .answer slot outcome => .reply (host.settle slot (.answered outcome)) ()
  | .receive slot =>
    match host.batches.stateOf slot with
    | .answered outcome => .reply host (some outcome)
    | .closed => .reply host none
    | .pending => .wait host [.settled slot]

/-- A delay of no time is over at once. -/
theorem react_arm_zero (host : Host) : host.react (.arm 0) = .reply host none := by
  simp [react]

end Host
end EffectMachine
