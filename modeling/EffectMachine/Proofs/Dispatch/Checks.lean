import EffectMachine.Proofs.Acts.Handling
import EffectMachine.Proofs.Acts.History

/-!
# Checks before dispatching

An effect is checked with all it wraps before anything is done about it.

* `Effect.chain` lists the operations that an effect wraps, the innermost one first, and `Registry.validate_eq` says that
  they are checked in this order, up to the first one that is held up.
* `Effect.Misnests` is the rule on what a terminal operation may wrap.
* `Registry.Judges` says what becomes of one operation: the rule on terminal operations comes first, and then the validator
  of its kind.  `Registry.Admits` and `Registry.HoldsUp` say it of a list of operations.
* `Run.FailsOnly` says that nothing became of a run but an error of its top frame.
* `Machine.handle_of_chain` is the main statement.
-/

namespace EffectMachine

/-- The operations that an effect wraps and the effect itself, from the inside out.  A bare computation is none. -/
def Effect.chain : Effect → List Effect
  | .bare _ => []
  | .fork inner => inner.chain ++ [.fork inner]
  | .start inner => inner.chain ++ [.start inner]
  | .defer inner => inner.chain ++ [.defer inner]
  | .terminal inner => inner.chain ++ [.terminal inner]
  | .next inner inPlace => inner.chain ++ [.next inner inPlace]
  | effect => [effect]

/-- Some steps, each of which takes a host to another one, are taken one after another. -/
inductive Host.Through {α : Type} (passes : α → Host → Host → Prop) : Host → List α → Host → Prop
  | nil (host : Host) : Through passes host [] host
  | cons {host middle later : Host} {first : α} {rest : List α} (hfirst : passes first host middle)
      (hrest : Through passes middle rest later) : Through passes host (first :: rest) later

/-- A terminal operation wraps directly what it may not wrap: a fork, a defer, a recover or another terminal operation.  Each
has an error of its own. -/
inductive Effect.Misnests : Effect → Error → Prop
  | fork (inner : Effect) : Misnests (.terminal (.fork inner)) (.validation "terminal forks are forbidden")
  | defer (inner : Effect) : Misnests (.terminal (.defer inner)) (.validation "terminal defers are forbidden")
  | recover : Misnests (.terminal .recover) (.validation "terminal recovers are forbidden")
  | terminal (inner : Effect) : Misnests (.terminal (.terminal inner)) (.validation "terminals cannot be nested")

namespace Registry

theorem misnests_iff {operation : Effect} {error : Error} :
    operation.Misnests error ↔ terminalRefusal operation = some error := by
  constructor
  · rintro (_ | _ | _ | _) <;> rfl
  · intro hrefusal
    unfold terminalRefusal at hrefusal
    split at hrefusal <;> cases hrefusal
    · exact .fork _
    · exact .defer _
    · exact .recover
    · exact .terminal _

theorem terminalRefusal_eq_none_iff {operation : Effect} :
    terminalRefusal operation = none ↔ ∀ error, ¬ operation.Misnests error := by
  simp only [misnests_iff, Option.eq_none_iff_forall_ne_some, ne_eq]

/-- What one operation is told, `none` if it may pass.  An operation that keeps the rule on terminal operations is told
what the validator of its kind says, if there is one. -/
inductive Judges (registry : Registry) (operation : Effect) : Option Error → Host → Host → Prop
  | nesting {host : Host} {error : Error} (hmisnests : operation.Misnests error) :
      Judges registry operation (some error) host host
  | unchecked {host : Host} (hnests : ∀ error, ¬ operation.Misnests error)
      (hvalidator : registry.validator? operation.kind = none) : Judges registry operation none host host
  | checked {host later : Host} {verdict : Option Error} {validator : Validator}
      (hnests : ∀ error, ¬ operation.Misnests error) (hvalidator : registry.validator? operation.kind = some validator)
      (hverdict : host.run (validator operation) = (verdict, later)) : Judges registry operation verdict host later

/-- All operations may pass. -/
def Admits (registry : Registry) : Host → List Effect → Host → Prop :=
  Host.Through fun operation => registry.Judges operation none

/-- An operation is told an error, after all those before it might pass. -/
def HoldsUp (registry : Registry) (host : Host) (operations : List Effect) (error : Error) (later : Host) : Prop :=
  ∃ before operation after middle, operations = before ++ operation :: after ∧ registry.Admits host before middle ∧
    registry.Judges operation (some error) middle later

variable {registry other : Registry} {host later : Host} {operations : List Effect} {error : Error}

theorem judges_iff {operation : Effect} {verdict : Option Error} :
    registry.Judges operation verdict host later ↔ host.run (registry.validateOne operation) = (verdict, later) := by
  constructor
  · intro hjudges
    cases hjudges with
    | nesting hmisnests => simp [validateOne, misnests_iff.1 hmisnests, Host.run]
    | unchecked hnests hvalidator => simp [validateOne, terminalRefusal_eq_none_iff.2 hnests, hvalidator, Host.run]
    | checked hnests hvalidator hverdict => simp [validateOne, terminalRefusal_eq_none_iff.2 hnests, hvalidator, hverdict]
  · intro hrun
    unfold validateOne at hrun
    split at hrun
    · rename_i refusal hrefusal
      cases hrun
      exact .nesting (misnests_iff.2 hrefusal)
    · rename_i hrefusal
      have hnests := terminalRefusal_eq_none_iff.1 hrefusal
      split at hrun
      · rename_i validator hvalidator
        exact .checked hnests hvalidator hrun
      · rename_i hvalidator
        cases hrun
        exact .unchecked hnests hvalidator

/-- Without validators, operations may pass that keep the rule on terminal operations. -/
theorem admits_of_validators (hvalidators : registry.validators = [])
    (hnesting : ∀ operation ∈ operations, terminalRefusal operation = none) (host : Host) :
    registry.Admits host operations host := by
  induction operations with
  | nil => exact .nil host
  | cons operation rest ih =>
      obtain ⟨hfirst, hrest⟩ := List.forall_mem_cons.1 hnesting
      exact .cons (.unchecked (terminalRefusal_eq_none_iff.1 hfirst) (by simp [validator?, hvalidators])) (ih hrest)

/-- Checks operations one after another, up to the first one that is held up. -/
def validateAll (registry : Registry) : List Effect → Probe (Option Error)
  | [] => .done none
  | operation :: rest =>
    (registry.validateOne operation).bind fun
      | some error => .done (some error)
      | none => registry.validateAll rest

theorem validateAll_concat (registry : Registry) (operations : List Effect) (operation : Effect) :
    registry.validateAll (operations ++ [operation]) =
      (registry.validateAll operations).bind fun
        | some error => .done (some error)
        | none => registry.validateOne operation := by
  have hlast : registry.validateAll [operation] = registry.validateOne operation := by
    rw [validateAll]
    induction registry.validateOne operation with
    | done answer => cases answer <;> rfl
    | note value rest ih => exact congrArg _ ih
    | mint count rest ih => exact congrArg _ (funext ih)
  induction operations with
  | nil => exact hlast
  | cons first rest ih =>
      rw [List.cons_append, validateAll, validateAll, Probe.bind_assoc]
      congr 1
      funext verdict
      cases verdict with
      | none => exact ih
      | some error => rfl

/-- An effect is checked from the inside out. -/
theorem validate_eq (registry : Registry) (effect : Effect) :
    registry.validate effect = registry.validateAll effect.chain := by
  have hone (operation : Effect) : registry.validateOne operation = registry.validateAll [operation] := by
    rw [← List.nil_append [operation], validateAll_concat]
    rfl
  induction effect using Effect.wrapped_induction with
  | step effect ih =>
      cases effect with
      | bare computation => rfl
      | fork inner | start inner | defer inner | terminal inner | next inner =>
          rw [Effect.chain, validateAll_concat, ← ih inner rfl]
          rfl
      | call | execute | recover | generator | custom => exact hone _

/-- Operations all pass, or one of them is held up. -/
theorem run_validateAll (registry : Registry) (host : Host) (operations : List Effect) :
    (∃ later, registry.Admits host operations later) ∨ ∃ error later, registry.HoldsUp host operations error later := by
  induction operations generalizing host with
  | nil => exact .inl ⟨host, .nil host⟩
  | cons first rest ih =>
      rcases hrun : host.run (registry.validateOne first) with ⟨_ | error, middle⟩
      · have hfirst := judges_iff.2 hrun
        rcases ih middle with ⟨later, hrest⟩ | ⟨error, later, before, operation, after, between, rfl, hbefore, hjudged⟩
        · exact .inl ⟨later, .cons hfirst hrest⟩
        · exact .inr ⟨error, later, first :: before, operation, after, between, rfl, .cons hfirst hbefore, hjudged⟩
      · exact .inr ⟨error, middle, [], first, rest, host, rfl, .nil host, judges_iff.2 hrun⟩

theorem Admits.run_append (admits : registry.Admits host operations later) (more : List Effect) :
    host.run (registry.validateAll (operations ++ more)) = later.run (registry.validateAll more) := by
  induction admits with
  | nil host => rfl
  | cons hfirst _ ih =>
      rw [List.cons_append, validateAll, Host.run_bind, judges_iff.1 hfirst]
      exact ih

/-- Operations that all pass are not told anything. -/
theorem Admits.run_eq (admits : registry.Admits host operations later) :
    host.run (registry.validateAll operations) = (none, later) := by
  have hall := admits.run_append []
  rw [List.append_nil] at hall
  exact hall

/-- What one of the operations is told is what they are told as a whole. -/
theorem HoldsUp.run_eq (holdsUp : registry.HoldsUp host operations error later) :
    host.run (registry.validateAll operations) = (some error, later) := by
  obtain ⟨before, operation, after, middle, rfl, hbefore, hjudged⟩ := holdsUp
  rw [hbefore.run_append, validateAll, Host.run_bind, judges_iff.1 hjudged]
  rfl

/-- Checks do not look at handlers. -/
theorem validate_congr (hvalidators : other.validators = registry.validators) (effect : Effect) :
    other.validate effect = registry.validate effect := by
  have hone : other.validateOne = registry.validateOne := by
    funext operation
    simp only [validateOne, validator?, hvalidators]
  rw [validate_eq, validate_eq]
  induction effect.chain with
  | nil => rfl
  | cons first rest ih => simp only [validateAll, hone, ih]

end Registry

/-- Nothing becomes of a run but an error of its top frame, unless that frame has already finished with one: not of the
frames and what was deferred on them, and not of the host, save for its journal. -/
structure Run.FailsOnly (run : Run) (error : Error) (next : Run) : Prop where
  stack : next.stack =
    { run.stack with
      top :=
        { run.stack.top with
          result :=
            match run.stack.top.isFinished, run.stack.top.result with
            | true, .error existing => .error existing
            | _, _ => .error error } }
  host : next.host.quiet = run.host.quiet

/-- What becomes of a run whose top frame is refused an effect. -/
def Run.refused (run : Run) (error : Error) : Run :=
  (run.emit (.effectFailed error run.stack.labels)).failTop error

/-- A delegation from the top frame is misplaced: no handler runs there, or one of another kind. -/
inductive Stack.Misplaces (stack : Stack) (inner : Effect) : Error → Prop
  | unhandled (htag : stack.top.tag = none) : Misplaces stack inner (.type "next: should be used only in handlers")
  | mismatch {tag : HandlerTag} (htag : stack.top.tag = some tag) (hkind : tag.kind ≠ inner.kind) :
      Misplaces stack inner (.type ("next: operation kind mismatch, expected \"" ++ tag.kind ++ "\", received \""
        ++ inner.kind ++ "\""))

/-- An effect is refused with an error: it comes to nothing but that error. -/
structure Machine.Refuses (machine : Machine) (effect : Effect) (run : Run) (error : Error) : Prop where
  attempt : ∃ later : Host,
    machine.attempt effect run = { run := { run with host := later }, failure := some error } ∧
      machine.handle effect run = { run with host := later }.refused error
  acts : machine.handleActs effect run = [.failed error]
  fails : run.FailsOnly error (machine.handle effect run)

namespace Machine

variable {machine : Machine} {effect : Effect} {run : Run} {later : Host} {error : Error}

/-- A refusal is an error of the top frame. -/
theorem failsOnly_refused (hquiet : later.quiet = run.host.quiet) (error : Error) :
    run.FailsOnly error ({ run with host := later }.refused error) := by
  rcases run with ⟨⟨context, signal, ⟨progress, name, tag, result, defers, cancellation, answerable⟩, below, canceled⟩, host⟩
  constructor
  · cases progress <;> cases result <;> rfl
  · cases progress <;> cases result <;> exact hquiet

theorem quiet_of_validate {verdict : Option Error}
    (hrun : run.host.run (machine.registry.validate effect) = (verdict, later)) : later.quiet = run.host.quiet := by
  have hquiet := run.host.quiet_run (machine.registry.validate effect)
  rw [hrun] at hquiet
  exact hquiet

/-- Without handlers to ask about delegations, one that is misplaced is refused. -/
theorem dispatch_next (run : Run) (hnext : machine.registry.hasHandlers Kind.next = false) {inner : Effect}
    (hmisplaced : run.stack.Misplaces inner error) (inPlace : Bool) (first : Nat) :
    machine.dispatch (.next inner inPlace) first run = { run, failure := some error } ∧
      machine.dispatchActs (.next inner inPlace) first run = [] := by
  have hdelegation : delegation run inner = .error error := by
    unfold delegation
    cases hmisplaced with
    | unhandled htag => rw [htag]
    | mismatch htag hkind => simp only [htag, if_neg hkind]
  obtain ⟨hdispatch, hacts⟩ := machine.dispatch_eq_core (.next inner inPlace) hnext first run
  rw [hdispatch, hacts]
  simp only [core, coreActs, hdelegation, and_self]

/-- What comes to an error and to no act is refused with it. -/
theorem refuses_of_attempt (hquiet : later.quiet = run.host.quiet)
    (hattempt : machine.attempt effect run = { run := { run with host := later }, failure := some error })
    (hacts : machine.handleActs effect run = [.failed error]) : machine.Refuses effect run error := by
  have hhandle : machine.handle effect run = { run with host := later }.refused error := by
    simp only [handle, hattempt]
    rfl
  exact ⟨⟨later, hattempt, hhandle⟩, hacts, hhandle ▸ failsOnly_refused hquiet error⟩

theorem refuses_of_holdsUp (hholds : machine.registry.HoldsUp run.host effect.chain error later) :
    machine.Refuses effect run error := by
  have hvalidate : run.host.run (machine.registry.validate effect) = (some error, later) := by
    rw [Registry.validate_eq]
    exact hholds.run_eq
  refine refuses_of_attempt (quiet_of_validate hvalidate) ?_ ?_
  · simp only [attempt, hvalidate]
  · simp only [handleActs, hvalidate]

theorem refuses_of_misplaces {inner : Effect} {inPlace : Bool} (hnext : machine.registry.hasHandlers Kind.next = false)
    (hadmits : machine.registry.Admits run.host (Effect.next inner inPlace).chain later)
    (hmisplaced : run.stack.Misplaces inner error) : machine.Refuses (.next inner inPlace) run error := by
  have hvalidate : run.host.run (machine.registry.validate (.next inner inPlace)) = (none, later) := by
    rw [Registry.validate_eq]
    exact hadmits.run_eq
  obtain ⟨hdispatch, hacts⟩ := dispatch_next { run with host := later } hnext hmisplaced inPlace 0
  refine refuses_of_attempt (quiet_of_validate hvalidate) ?_ ?_
  · simp only [attempt, hvalidate, hdispatch]
  · simp only [handleActs, hvalidate, hdispatch, hacts]
    rfl

/-- An effect that is admitted is dispatched. -/
theorem attempt_of_admits (hadmits : machine.registry.Admits run.host effect.chain later) :
    machine.attempt effect run = machine.dispatch effect 0 { run with host := later } := by
  simp only [attempt, Registry.validate_eq, hadmits.run_eq]

/-- Effects are checked completely, and before anything is done about them.  Of the operations that an effect wraps and the
effect itself, all are admitted, or one is held up after those inside it were admitted.  In the first case the effect is
dispatched; in the second it is refused, and comes to the same on every machine with these validators, whatever its handlers
and functions.  Without handlers to ask about delegations, one that is misplaced is refused in the same way. -/
theorem handle_of_chain (machine : Machine) (effect : Effect) (run : Run) :
    ((∃ later, machine.registry.Admits run.host effect.chain later) ∨
      ∃ error later, machine.registry.HoldsUp run.host effect.chain error later) ∧
    (∀ later, machine.registry.Admits run.host effect.chain later →
      machine.attempt effect run = machine.dispatch effect 0 { run with host := later }) ∧
    (∀ error later, machine.registry.HoldsUp run.host effect.chain error later →
      machine.Refuses effect run error ∧
      ∀ other : Machine, other.registry.validators = machine.registry.validators →
        other.handle effect run = machine.handle effect run) ∧
    ∀ inner inPlace error later, effect = .next inner inPlace → machine.registry.hasHandlers Kind.next = false →
      machine.registry.Admits run.host effect.chain later → run.stack.Misplaces inner error →
      machine.Refuses effect run error ∧
      ∀ other : Machine, other.registry.validators = machine.registry.validators →
        other.registry.hasHandlers Kind.next = false → other.handle effect run = machine.handle effect run := by
  refine ⟨machine.registry.run_validateAll run.host effect.chain, fun later => attempt_of_admits,
    fun error later hholds => ⟨refuses_of_holdsUp hholds, fun other hsame => ?_⟩, ?_⟩
  · simp only [handle, attempt, Registry.validate_congr hsame, Registry.validate_eq, hholds.run_eq]
  · rintro inner inPlace error later rfl hnext hadmits hmisplaced
    refine ⟨refuses_of_misplaces hnext hadmits hmisplaced, fun other hsame hnone => ?_⟩
    have hown := (dispatch_next { run with host := later } hnext hmisplaced inPlace 0).1
    have hother := (dispatch_next { run with host := later } hnone hmisplaced inPlace 0).1
    simp only [handle, attempt, Registry.validate_congr hsame, Registry.validate_eq, hadmits.run_eq, hown, hother]

/-- A machine whose validators let no operation of one kind pass. -/
def guarded (kind : String) (error : Error) : Machine :=
  { bare with registry := { validators := [(kind, fun _ => .done (some error))] } }

/-- The innermost operation is the one that is reported, and a delegation by no handler is refused. -/
theorem handle_of_chain_guarded :
    (guarded "@a/b" .cancelled).Refuses (.terminal (.fork (.custom "@a/b" .unit)))
        { stack := { context := .blank 0, signal := none }, host := {} } .cancelled ∧
      (guarded "@a/b" .cancelled).Refuses (.next .recover true)
        { stack := { context := .blank 0, signal := none }, host := {} }
        (.type "next: should be used only in handlers") := by
  have hjudged (operation : Effect) (verdict : Option Error)
      (hrun : Host.run {} ((guarded "@a/b" .cancelled).registry.validateOne operation) = (verdict, {})) :
      (guarded "@a/b" .cancelled).registry.Judges operation verdict {} {} := Registry.judges_iff.2 hrun
  constructor
  · obtain ⟨-, -, hholds, -⟩ := handle_of_chain (guarded "@a/b" .cancelled) (.terminal (.fork (.custom "@a/b" .unit)))
      { stack := { context := .blank 0, signal := none }, host := {} }
    refine (hholds .cancelled {} ⟨[], .custom "@a/b" .unit, _, {}, rfl, .nil _, ?_⟩).1
    exact hjudged _ _ (by simp [Registry.validateOne, Registry.terminalRefusal, Registry.validator?, guarded,
      Effect.kind, Host.run])
  · obtain ⟨-, -, -, hmisplaced⟩ := handle_of_chain (guarded "@a/b" .cancelled) (.next .recover true)
      { stack := { context := .blank 0, signal := none }, host := {} }
    refine (hmisplaced .recover true _ {} rfl rfl ?_ (.unhandled rfl)).1
    have hrecover : "@a/b" ≠ Kind.recover := by decide
    have hnext : "@a/b" ≠ Kind.next := by decide
    refine .cons (hjudged _ _ ?_) (.cons (hjudged _ _ ?_) (.nil _))
    · simp [Registry.validateOne, Registry.terminalRefusal, Registry.validator?, guarded, Effect.kind, Host.run, hrecover]
    · simp [Registry.validateOne, Registry.terminalRefusal, Registry.validator?, guarded, Effect.kind, Host.run, hnext]

end Machine
end EffectMachine
