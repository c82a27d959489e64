import EffectMachine.Machine.Advance

/-!
# Direct evaluation

A recursive reading of programs, without frames: performing an effect evaluates the computation that
services it and goes on with its outcome.

* `Direct.Setting` is what stays the same throughout: the machine, the context and what other processes do to the
  host whenever the computation lets them.
* `Direct.Site` is where a computation stands, `Direct.Local` what changes while it is evaluated.
* `Direct.body` evaluates a body, `Direct.perform` and `Direct.serve` an effect, `Direct.compute` a computation with all that was
  deferred in it, and `Direct.unwind` what was deferred.

A deferred effect is evaluated after the body, the most recent one first.  If it fails, its error takes
the place of a success but not of an earlier error.  A computation that is evaluated as a deferred effect may
recover: it is given the error as a value, and the success `null` takes its place.

Evaluation is cut off by fuel.  It is not defined for operations that have no reading as a recursion:
terminal operations, forks, descriptions of the current frame, and a recovery that is itself deferred.
-/

namespace EffectMachine
namespace Direct

/-- What stays the same while a computation is evaluated. -/
structure Setting where
  machine : Machine
  context : Context
  /-- What other processes do to the host, each time they are let in. -/
  others : Nat → Host → Host

/-- Where a computation stands. -/
structure Site where
  /-- Set on computations that run a handler. -/
  tag : Option HandlerTag
  /-- The labels of the computations that are being evaluated, the innermost one first. -/
  labels : List String

/-- What changes while a computation is evaluated. -/
structure Local where
  host : Host
  /-- How often other processes were let in. -/
  turns : Nat := 0
  /-- Deferred effects, the most recent one first. -/
  defers : List Effect := []
  /-- Batched calls that the computation has to answer. -/
  answerable : List Slot := []
  /-- The outcome of the body, once it has ended and deferred effects are evaluated. -/
  ended : Option Outcome := none
  /-- The outcome of the body of the performer, if this computation is deferred there. -/
  around : Option Outcome := none

namespace Local

/-- Other processes are let in. -/
def letIn (setting : Setting) (loc : Local) : Local :=
  { loc with host := setting.others loc.turns loc.host, turns := loc.turns + 1 }

/-- Reports an event. -/
def emit (loc : Local) (event : Event) : Local :=
  { loc with host := loc.host.emit event }

/-- What a deferred effect came to matters only if it failed, and then only under a success. -/
def absorb (loc : Local) (outcome : Outcome) : Local :=
  match outcome, loc.ended with
  | .error error, some (.error existing) => loc.emit (.deferredFailed error existing)
  | .error error, some (.ok _) => { loc with ended := some (.error error) }
  | _, _ => loc

/-- A failure does not undo the end of a body. -/
theorem absorb_ended (loc : Local) (outcome : Outcome) :
    (loc.absorb outcome).ended.isSome = loc.ended.isSome := by
  unfold absorb
  split
  · rfl
  · rename_i hended
    rw [hended]
    rfl
  · rfl

/-- A failure is no matter of the performer. -/
theorem absorb_around (loc : Local) (outcome : Outcome) : (loc.absorb outcome).around = loc.around := by
  unfold absorb
  split <;> rfl

/-- Takes the error of the performer, if this computation is deferred there and there is one. -/
def recover (loc : Local) : Outcome × Local :=
  match loc.around with
  | some (.error error) =>
    (.ok (.error error), { loc with around := some (.ok .null) }.emit (.recovered error))
  | _ => (.ok .null, loc)

/-- To recover does not end the body. -/
theorem recover_ended (loc : Local) : loc.recover.2.ended = loc.ended := by
  unfold recover
  split <;> rfl

/-- To recover does not undo the end of the performer. -/
theorem recover_around (loc : Local) : loc.recover.2.around.isSome = loc.around.isSome := by
  unfold recover
  split
  · rename_i haround
    rw [haround]
    rfl
  · rfl

/-- Ends the body. -/
def finish (loc : Local) (labels : List String) (outcome : Outcome) : Local :=
  let loc :=
    match outcome with
    | .error error => loc.emit (.computationFailed error labels)
    | .ok _ => loc
  { loc with host := loc.host.close loc.answerable, answerable := [], ended := some outcome }

/-- The end of a body is no matter of the performer. -/
theorem finish_around (loc : Local) (labels : List String) (outcome : Outcome) :
    (loc.finish labels outcome).around = loc.around := by
  cases outcome <;> rfl

/-- The beginning of a computation that services an effect of this one. -/
def inner (loc : Local) : Local :=
  { host := loc.host, turns := loc.turns, around := loc.ended }

/-- This computation once a computation that services its effect has been evaluated. -/
def outer (loc inner : Local) : Local :=
  { loc with host := inner.host, turns := inner.turns, ended := inner.around }

end Local

/-- The site of a computation that services an effect. -/
def Site.inner (site : Site) (computation : Computation) (tag : Option HandlerTag) : Site where
  tag
  labels := (Frame.ofComputation computation tag).label :: site.labels

/-- The position at which a delegation of `effect` goes on. -/
def Site.delegation (site : Site) (effect : Effect) : Except Error Nat :=
  match site.tag with
  | none => .error (.type "next: should be used only in handlers")
  | some tag =>
    if tag.kind = effect.kind then .ok (tag.index + 1)
    else .error (.type ("next: operation kind mismatch, expected \"" ++ tag.kind
      ++ "\", received \"" ++ effect.kind ++ "\""))

/-- An effect is rejected: the error is its outcome. -/
def reject (site : Site) (error : Error) (loc : Local) : Outcome × Local :=
  (.error error, loc.emit (.effectFailed error site.labels))

mutual

/-- Evaluates a body up to its end. -/
def body (setting : Setting) (site : Site) : Nat → Local → Body → Option (Outcome × Local)
  | 0, _, _ => none
  | fuel + 1, loc, code =>
    match code with
    | .done outcome => some (outcome, loc)
    | .perform effect resume =>
      match perform setting site fuel loc effect with
      | some (outcome, loc) => body setting site fuel loc (resume outcome)
      | none => none
    | .act action resume =>
      match loc.host.react action with
      | .reply host answer =>
        body setting site fuel
          { loc with host, answerable := loc.answerable ++ action.acquired answer } (resume answer)
      | .giveWay host answer =>
        body setting site fuel
          ({ loc with host, answerable := loc.answerable ++ action.acquired answer }.letIn setting)
          (resume answer)
      | .wait host _ => body setting site fuel ({ loc with host }.letIn setting) (.act action resume)
termination_by structural fuel => fuel

/-- Evaluates an effect: it is checked, and then serviced. -/
def perform (setting : Setting) (site : Site) : Nat → Local → Effect → Option (Outcome × Local)
  | 0, _, _ => none
  | fuel + 1, loc, effect =>
    match loc.host.run (setting.machine.registry.validate effect) with
    | (some error, host) => some (reject site error { loc with host })
    | (none, host) => serve setting site fuel { loc with host } effect 0
termination_by structural fuel => fuel

/-- Evaluates what services an effect, the handlers of a plugin from position `first` on. -/
def serve (setting : Setting) (site : Site) :
    Nat → Local → Effect → Nat → Option (Outcome × Local)
  | 0, _, _, _ => none
  | fuel + 1, loc, effect, first =>
    match effect with
    | .bare computation | .execute computation => compute setting site fuel loc computation none
    | .call function args =>
      let computation := setting.machine.library.body function args
      compute setting site fuel (loc.emit (.called function.name))
        ⟨some (computation.name.getD function.name), computation.body⟩ none
    | .start effect => serve setting site fuel loc effect 0
    | .defer effect => some (.ok .null, { loc with defers := effect :: loc.defers })
    | .recover => if loc.ended.isSome then none else some loc.recover
    | .next effect false =>
      match site.delegation effect with
      | .error error => some (reject site error loc)
      | .ok position => serve setting site fuel loc effect position
    | .custom kind payload =>
      match loc.host.run (setting.machine.registry.select (.custom kind payload) setting.context first) with
      | (some (index, handler), host) =>
        compute setting site fuel
          ({ loc with host }.emit (.dispatched kind index (site.labels.length + 1)))
          (handler.handle (.custom kind payload) setting.context) (some ⟨kind, index⟩)
      | (none, host) => some (reject site (.unrecognized kind) { loc with host })
    | _ => none
termination_by structural fuel => fuel

/-- Evaluates a computation: its body, and then what was deferred. -/
def compute (setting : Setting) (site : Site) :
    Nat → Local → Computation → Option HandlerTag → Option (Outcome × Local)
  | 0, _, _, _ => none
  | fuel + 1, loc, computation, tag =>
    let inner := site.inner computation tag
    match body setting inner fuel loc.inner computation.body with
    | some (outcome, ended) =>
      match unwind setting inner fuel (ended.finish inner.labels outcome) with
      | some (outcome, unwound) => some (outcome, loc.outer unwound)
      | none => none
    | none => none
termination_by structural fuel => fuel

/-- Evaluates what was deferred, once the body has ended. -/
def unwind (setting : Setting) (site : Site) : Nat → Local → Option (Outcome × Local)
  | 0, _ => none
  | fuel + 1, loc =>
    match loc.ended, loc.defers with
    | none, _ => none
    | some outcome, [] => some (outcome, loc)
    | some _, effect :: defers =>
      match perform setting site fuel ({ loc with defers }.emit (.deferredStarted effect.kind)) effect with
      | some (answer, loc) => unwind setting site fuel (loc.absorb answer)
      | none => none
termination_by structural fuel => fuel

end

/-- Evaluates a program: a call, a computation or an operation of a plugin. -/
def evaluate (setting : Setting) (fuel : Nat) (effect : Effect) (host : Host) : Option (Outcome × Local) :=
  match effect with
  | .bare _ | .execute _ | .call _ _ | .custom _ _ =>
    perform setting { tag := none, labels := [] } fuel { host } effect
  | _ => none

end Direct
end EffectMachine
