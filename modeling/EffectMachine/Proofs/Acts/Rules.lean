import EffectMachine.Proofs.Acts.Basic

/-!
# Who services an effect

Dispatching an effect takes two decisions: which handler services it, and if none does, what the core rule of the effect is.
The core rules of some operations dispatch the effect that the operation wraps.

* `Machine.dispatchActs` computes the acts of dispatching an effect.
* `Machine.serve` is what becomes of a run when it is known who services an effect, and `Machine.core` the core rule of the
  effect; `Machine.serveActs` and `Machine.coreActs` are their acts.  `Machine.dispatchInPlace` is what the rules of terminal
  operations and of delegations in place come down to.
* `Machine.dispatch_of_select` and `Machine.dispatchActs_of_select` open dispatching, once and for all.
* `Machine.Dispatches` lists all that dispatching an effect can do, with the reason for each act; by
  `Machine.dispatches_of_mem` there is nothing else.
* `Effect.wrapped_induction` is the induction on the effects that operations wrap.
-/

namespace EffectMachine

/-- What holds of an effect if it holds of the effect that it wraps holds of every effect. -/
theorem Effect.wrapped_induction {motive : Effect → Prop}
    (step : ∀ effect : Effect, (∀ inner, effect.wrapped? = some inner → motive inner) → motive effect) :
    (effect : Effect) → motive effect
  | .fork inner | .start inner | .defer inner | .terminal inner | .next inner _ =>
      step _ fun _ hwrapped => Option.some.inj hwrapped ▸ wrapped_induction step inner
  | .bare _ | .call .. | .execute _ | .recover | .generator | .custom .. => step _ fun _ hwrapped => nomatch hwrapped
termination_by structural effect => effect

namespace Machine

/-- How a handled effect leaves the stack. -/
def settled : Handled → Run
  | { run, failure := none } => run
  | { run, failure := some error } => (run.emit (.effectFailed error run.stack.labels)).failTop error

theorem handle_eq_settled (machine : Machine) (effect : Effect) (run : Run) :
    machine.handle effect run = settled (machine.attempt effect run) := by
  unfold handle settled
  rcases machine.attempt effect run with ⟨after, _ | error⟩ <;> rfl

/-! ## Acts of dispatching -/

/-- The act of giving the top frame an error, if there is one. -/
def failureActs : Option Error → List Act
  | some error => [.failed error]
  | none => []

/-- The act of catching the error of the frame below, if it is unwinding with one. -/
def catchActs (run : Run) : List Act :=
  match run.stack.below with
  | [] => []
  | parent :: _ =>
    match parent.isFinished, parent.result with
    | true, .error error => [.caught error]
    | _, _ => []

/-- The acts of dispatching an effect. -/
def dispatchActs (machine : Machine) (effect : Effect) (first : Nat) (run : Run) : List Act :=
  let operation := effect.operation
  match run.host.run (machine.registry.select operation run.stack.context first) with
  | (some (index, handler), _) =>
    [.pushed (handler.handle operation run.stack.context) (some ⟨effect.kind, index⟩)]
  | (none, host) =>
    let run := { run with host }
    match effect with
    | .bare computation | .execute computation => [.pushed computation none]
    | .call function args => [.pushed (machine.invoke function args) none]
    | .fork effect => if run.host.scheduled then [.forked effect] else []
    | .start effect => machine.dispatchActs effect 0 run
    | .defer effect => [.deferred effect]
    | .recover => catchActs run
    | .terminal effect =>
      match run.terminateTop with
      | .ok run => .dropped :: machine.dispatchActs effect 0 run
      | .error _ => []
    | .generator => [.answered (.object (.frame host.nextIdentity run.stack.frameInfo))]
    | .next effect inPlace =>
      match delegation run effect with
      | .error _ => []
      | .ok position =>
        if inPlace then
          match run.terminateTop with
          | .ok run => .dropped :: machine.dispatchActs effect position run
          | .error _ => []
        else machine.dispatchActs effect position run
    | .custom _ _ => []
termination_by structural effect

/-! ## Handlers and core rules -/

/-- The core rule of an effect. -/
def core (machine : Machine) (effect : Effect) (run : Run) : Handled :=
  match effect with
  | .bare computation | .execute computation => { run := run.push computation none }
  | .call function args => { run := (run.emit (.called function.name)).push (machine.invoke function args) none }
  | .fork effect => fork effect run
  | .start effect => machine.dispatch effect 0 run
  | .defer effect => { run := run.deferOnTop effect }
  | .recover => { run := run.recover }
  | .terminal effect =>
    match run.terminateTop with
    | .ok run => machine.dispatch effect 0 run
    | .error error => { run, failure := some error }
  | .generator => describe run
  | .next effect inPlace =>
    match delegation run effect with
    | .error error => { run, failure := some error }
    | .ok position =>
      if inPlace then
        match run.terminateTop with
        | .ok run => machine.dispatch effect position run
        | .error error => { run, failure := some error }
      else machine.dispatch effect position run
  | .custom kind _ => { run, failure := some (.unrecognized kind) }

/-- The acts of the core rule of an effect. -/
def coreActs (machine : Machine) (effect : Effect) (run : Run) : List Act :=
  match effect with
  | .bare computation | .execute computation => [.pushed computation none]
  | .call function args => [.pushed (machine.invoke function args) none]
  | .fork effect => if run.host.scheduled then [.forked effect] else []
  | .start effect => machine.dispatchActs effect 0 run
  | .defer effect => [.deferred effect]
  | .recover => catchActs run
  | .terminal effect =>
    match run.terminateTop with
    | .ok run => .dropped :: machine.dispatchActs effect 0 run
    | .error _ => []
  | .generator => [.answered (.object (.frame run.host.nextIdentity run.stack.frameInfo))]
  | .next effect inPlace =>
    match delegation run effect with
    | .error _ => []
    | .ok position =>
      if inPlace then
        match run.terminateTop with
        | .ok run => .dropped :: machine.dispatchActs effect position run
        | .error _ => []
      else machine.dispatchActs effect position run
  | .custom _ _ => []

/-- An effect is dispatched in place of the top frame, unless there is nothing below that. -/
def dispatchInPlace (machine : Machine) (effect : Effect) (position : Nat) (run : Run) : Handled :=
  match run.terminateTop with
  | .ok run => machine.dispatch effect position run
  | .error error => { run, failure := some error }

/-- The acts of dispatching an effect in place of the top frame. -/
def inPlaceActs (machine : Machine) (effect : Effect) (position : Nat) (run : Run) : List Act :=
  match run.terminateTop with
  | .ok run => .dropped :: machine.dispatchActs effect position run
  | .error _ => []

/-- What becomes of a run whose top frame hands on an effect: the handler that was chosen services it in a frame of its own
that is tagged with its position, or else the core rule applies. -/
def serve (machine : Machine) (effect : Effect) (choice : Option (Nat × Handler)) (run : Run) : Handled :=
  match choice with
  | some (index, handler) =>
    { run := (run.emit (.dispatched effect.kind index (run.stack.height + 1))).push
        (handler.handle effect.operation run.stack.context) (some ⟨effect.kind, index⟩) }
  | none => machine.core effect run

/-- The acts of servicing an effect. -/
def serveActs (machine : Machine) (effect : Effect) (choice : Option (Nat × Handler)) (run : Run) : List Act :=
  match choice with
  | some (index, handler) =>
    [.pushed (handler.handle effect.operation run.stack.context) (some ⟨effect.kind, index⟩)]
  | none => machine.coreActs effect run

section Select

variable {machine : Machine} {effect : Effect} {first : Nat} {run : Run} {choice : Option (Nat × Handler)} {later : Host}

/-- An effect is serviced by who is found to service it. -/
theorem dispatch_of_select
    (hselect : run.host.run (machine.registry.select effect.operation run.stack.context first) = (choice, later)) :
    machine.dispatch effect first run = machine.serve effect choice { run with host := later } := by
  unfold dispatch
  rcases choice with _ | ⟨index, handler⟩
  · cases effect <;> simp only [hselect] <;> rfl
  · cases effect <;> simp only [hselect] <;> rfl

theorem dispatchActs_of_select
    (hselect : run.host.run (machine.registry.select effect.operation run.stack.context first) = (choice, later)) :
    machine.dispatchActs effect first run = machine.serveActs effect choice { run with host := later } := by
  unfold dispatchActs
  rcases choice with _ | ⟨index, handler⟩
  · cases effect <;> simp only [hselect] <;> rfl
  · cases effect <;> simp only [hselect] <;> rfl

end Select

/-! ## The acts one by one -/

/-- Dispatching an effect, from some handler on, does an act: for the effect itself, or for one that it wraps. -/
inductive Dispatches (machine : Machine) : Effect → Nat → Run → Act → Prop
  | handler {effect : Effect} {first : Nat} {run : Run} {index : Nat} {handler : Handler} {later : Host}
      (hselect : run.host.run (machine.registry.select effect.operation run.stack.context first) =
        (some (index, handler), later)) :
      Dispatches machine effect first run
        (.pushed (handler.handle effect.operation run.stack.context) (some ⟨effect.kind, index⟩))
  | bare {computation : Computation} {first : Nat} {run : Run} :
      Dispatches machine (.bare computation) first run (.pushed computation none)
  | execute {computation : Computation} {first : Nat} {run : Run} :
      Dispatches machine (.execute computation) first run (.pushed computation none)
  | call {function : Function} {args : List Value} {first : Nat} {run : Run} :
      Dispatches machine (.call function args) first run (.pushed (machine.invoke function args) none)
  | fork {inner : Effect} {first : Nat} {run : Run} {host : Host} (hscheduled : host.scheduled = true) :
      Dispatches machine (.fork inner) first run (.forked inner)
  | defer {inner : Effect} {first : Nat} {run : Run} : Dispatches machine (.defer inner) first run (.deferred inner)
  | recover {first : Nat} {run : Run} {parent : Frame} {rest : List Frame} {error : Error}
      (hbelow : run.stack.below = parent :: rest) (hfinished : parent.isFinished = true)
      (herror : parent.result = .error error) : Dispatches machine .recover first run (.caught error)
  | generator {first : Nat} {run : Run} {host : Host} :
      Dispatches machine .generator first run (.answered (.object (.frame host.nextIdentity run.stack.frameInfo)))
  | start {inner : Effect} {first : Nat} {run : Run} {host : Host} {act : Act}
      (rest : Dispatches machine inner 0 { run with host } act) : Dispatches machine (.start inner) first run act
  | terminal {inner : Effect} {first : Nat} {run later : Run} {host : Host}
      (hterminated : { run with host }.terminateTop = .ok later) :
      Dispatches machine (.terminal inner) first run .dropped
  | terminated {inner : Effect} {first : Nat} {run later : Run} {host : Host} {act : Act}
      (hterminated : { run with host }.terminateTop = .ok later) (rest : Dispatches machine inner 0 later act) :
      Dispatches machine (.terminal inner) first run act
  | next {inner : Effect} {first position : Nat} {run : Run} {host : Host} {act : Act}
      (hposition : delegation { run with host } inner = .ok position)
      (rest : Dispatches machine inner position { run with host } act) :
      Dispatches machine (.next inner false) first run act
  | replace {inner : Effect} {first position : Nat} {run later : Run} {host : Host}
      (hposition : delegation { run with host } inner = .ok position)
      (hterminated : { run with host }.terminateTop = .ok later) :
      Dispatches machine (.next inner true) first run .dropped
  | replaced {inner : Effect} {first position : Nat} {run later : Run} {host : Host} {act : Act}
      (hposition : delegation { run with host } inner = .ok position)
      (hterminated : { run with host }.terminateTop = .ok later)
      (rest : Dispatches machine inner position later act) : Dispatches machine (.next inner true) first run act

/-- What is caught is the error of the frame below, which has finished with it. -/
theorem caught_of_mem_catchActs {run : Run} {act : Act} (hmem : act ∈ catchActs run) :
    ∃ parent rest error, act = .caught error ∧ run.stack.below = parent :: rest ∧ parent.isFinished = true ∧
      parent.result = .error error := by
  unfold catchActs at hmem
  split at hmem
  · cases hmem
  · rename_i parent rest hbelow
    split at hmem
    · rename_i error hfinished herror
      exact ⟨parent, rest, error, List.mem_singleton.1 hmem, hbelow, hfinished, herror⟩
    · cases hmem

theorem failed_of_mem_failureActs {failure : Option Error} {act : Act} (hmem : act ∈ failureActs failure) :
    ∃ error, act = .failed error := by
  cases failure with
  | some error => exact ⟨error, List.mem_singleton.1 hmem⟩
  | none => cases hmem

/-- Dispatching does nothing else. -/
theorem dispatches_of_mem {machine : Machine} {effect : Effect} {first : Nat} {run : Run} {act : Act}
    (hmem : act ∈ machine.dispatchActs effect first run) : machine.Dispatches effect first run act := by
  induction effect using Effect.wrapped_induction generalizing first run with
  | step effect ih =>
      -- a handler that takes the effect does all there is to do; only core rules go on with a wrapped effect
      rcases hselect : run.host.run (machine.registry.select effect.operation run.stack.context first) with
        ⟨_ | ⟨index, handler⟩, host⟩
      · rw [dispatchActs_of_select hselect, serveActs] at hmem
        cases effect with
        | bare computation => exact List.mem_singleton.1 hmem ▸ .bare
        | execute computation => exact List.mem_singleton.1 hmem ▸ .execute
        | call function args => exact List.mem_singleton.1 hmem ▸ .call
        | defer inner => exact List.mem_singleton.1 hmem ▸ .defer
        | generator => exact List.mem_singleton.1 hmem ▸ .generator
        | custom kind payload => cases hmem
        | start inner => exact .start (ih inner rfl hmem)
        | recover =>
            obtain ⟨parent, rest, error, rfl, hbelow, hfinished, herror⟩ := caught_of_mem_catchActs hmem
            exact .recover hbelow hfinished herror
        | fork inner =>
            simp only [coreActs] at hmem
            split at hmem
            · rename_i hscheduled
              exact List.mem_singleton.1 hmem ▸ .fork hscheduled
            · cases hmem
        | terminal inner =>
            simp only [coreActs] at hmem
            split at hmem
            · rename_i later hterminated
              rcases List.mem_cons.1 hmem with rfl | hrest
              · exact .terminal hterminated
              · exact .terminated hterminated (ih inner rfl hrest)
            · cases hmem
        | next inner inPlace =>
            simp only [coreActs] at hmem
            split at hmem
            · cases hmem
            · rename_i position hposition
              cases inPlace with
              | false => exact .next hposition (ih inner rfl hmem)
              | true =>
                  simp only [if_true] at hmem
                  split at hmem
                  · rename_i later hterminated
                    rcases List.mem_cons.1 hmem with rfl | hrest
                    · exact .replace hposition hterminated
                    · exact .replaced hposition hterminated (ih inner rfl hrest)
                  · cases hmem
      · rw [dispatchActs_of_select hselect] at hmem
        exact List.mem_singleton.1 hmem ▸ .handler hselect

end Machine
end EffectMachine
