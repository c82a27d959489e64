import EffectMachine.Proofs.Acts.Handling
import EffectMachine.Proofs.Recasting.Basic

/-!
# Handling what was recast

A machine makes the same of an effect as another machine of the effect that replaces it, if their handlers correspond for the
operations that are looked up on the way.

* `Effect.looked` lists these operations, and `Recasting.Matches` says that a handler corresponds to another one.
* `Recasting.Serves` says that all handlers correspond; then `Recasting.dispatch` says that effects are dispatched alike.
* `Recasting.Handles` says that effects are also checked alike; then `Recasting.handle` says that they are handled alike.
-/

namespace EffectMachine

/-- The operations that a machine may look for handlers of when it dispatches an effect. -/
def Effect.looked : Effect → List Effect
  | .start effect => .start effect :: effect.looked
  | .terminal effect => .terminal effect :: effect.looked
  | .next effect inPlace => .next effect inPlace :: effect.looked
  | effect => [effect.operation]
termination_by structural effect => effect

theorem Effect.operation_mem_looked (effect : Effect) : effect.operation ∈ effect.looked := by
  cases effect <;> exact List.mem_cons_self

namespace Recasting

variable (recasting : Recasting)

/-! ## Runs -/

section Run

variable (run : Run)

theorem run_answerTop (value : Value) : (recasting.run run).answerTop value = recasting.run (run.answerTop value) := by
  have hfinished : (recasting.run run).stack.top.isFinished = run.stack.top.isFinished := recasting.isFinished_frame _
  unfold Run.answerTop
  rw [hfinished]
  split <;> rfl

theorem run_failTop (error : Error) : (recasting.run run).failTop error = recasting.run (run.failTop error) := by
  have hfinished : (recasting.run run).stack.top.isFinished = run.stack.top.isFinished := recasting.isFinished_frame _
  unfold Run.failTop
  rw [hfinished, show (recasting.run run).stack.top.result = run.stack.top.result from rfl]
  split <;> rfl

theorem run_recover :
    (recasting.run run).recover = recasting.run run.recover ∧
      Machine.catchActs (recasting.run run) = (Machine.catchActs run).map recasting.act := by
  unfold Run.recover Machine.catchActs
  rw [show (recasting.run run).stack.below = run.stack.below.map recasting.frame from rfl]
  cases run.stack.below with
  | nil => exact ⟨rfl, rfl⟩
  | cons parent rest =>
      simp only [List.map_cons, isFinished_frame, show (recasting.frame parent).result = parent.result from rfl]
      cases parent.isFinished with
      | false => exact ⟨rfl, rfl⟩
      | true => cases parent.result <;> exact ⟨rfl, rfl⟩

theorem run_terminateTop : (recasting.run run).terminateTop = run.terminateTop.map recasting.run := by
  obtain ⟨⟨context, signal, top, below, canceled⟩, host⟩ := run
  cases below with
  | nil => rfl
  | cons parent rest =>
      have hdefers : (recasting.frame top).defers = top.defers.map recasting.effect := rfl
      simp only [Run.terminateTop, Recasting.run, Recasting.stack, List.map_cons, Except.map, hdefers, List.isEmpty_map,
        List.length_map, Except.ok.injEq, Run.mk.injEq, ← host_close]
      cases top.defers.isEmpty <;> exact ⟨rfl, rfl⟩

theorem settled (handled : Handled) : Machine.settled (recasting.handled handled) = recasting.run (Machine.settled handled) := by
  rcases handled with ⟨after, _ | error⟩
  · rfl
  · have hlabels : (recasting.run after).stack.labels = after.stack.labels := recasting.labels_stack after.stack
    simp only [Machine.settled, Recasting.handled, hlabels]
    exact recasting.run_failTop (after.emit (.effectFailed error after.stack.labels)) error

theorem describe : Machine.describe (recasting.run run) = recasting.handled (Machine.describe run) := by
  have hinfo : (recasting.run run).stack.frameInfo = run.stack.frameInfo := recasting.frameInfo_stack run.stack
  unfold Machine.describe
  rw [hinfo]
  exact congrArg (Handled.mk · none) (recasting.run_answerTop { run with host := (run.host.mint 1).2 } _)

theorem fork (effect : Effect) :
    Machine.fork (recasting.effect effect) (recasting.run run) = recasting.handled (Machine.fork effect run) := by
  have hspawn := recasting.host_spawn run.host (.forked run.stack.context effect)
  unfold Machine.fork
  rw [show (recasting.run run).host.scheduled = run.host.scheduled from rfl]
  split
  · let spawned := run.host.spawn (.forked run.stack.context effect)
    rw [show (recasting.run run).host.spawn (.forked (recasting.run run).stack.context (recasting.effect effect)) = _ from
      hspawn]
    have hanswered := recasting.run_answerTop ({ run with host := spawned.2 }.emit (.forked spawned.1)) (.task spawned.1)
    exact congrArg (Handled.mk · none) hanswered
  · rfl

theorem delegation (effect : Effect) :
    Machine.delegation (recasting.run run) (recasting.effect effect) = Machine.delegation run effect := by
  unfold Machine.delegation
  rw [kind_effect]
  rfl

end Run

/-! ## Dispatching -/

/-- A handler services what replaces an operation as another one services the operation. -/
structure Matches (context : Context) (operation : Effect) (handler other : Handler) : Prop where
  accepts : other.accepts (recasting.effect operation) (recasting.context context) = handler.accepts operation context
  handle : other.handle (recasting.effect operation) (recasting.context context) =
    recasting.computation (handler.handle operation context)

/-- Under a context, a machine services an effect as another machine services what replaces it. -/
structure Serves (machine other : Machine) (context : Context) (effect : Effect) : Prop where
  invoke : ∀ function args, other.invoke function args = recasting.computation (machine.invoke function args)
  handlers : ∀ operation ∈ effect.looked, List.Forall₂ (recasting.Matches context operation)
    (machine.registry.handlersOf operation.kind) (other.registry.handlersOf operation.kind)

/-- Dispatching what replaces an effect comes to what replaces the outcome, by the acts that replace the acts. -/
def DispatchesAlike (machine other : Machine) (effect : Effect) (first : Nat) (run : Run) : Prop :=
  other.dispatch (recasting.effect effect) first (recasting.run run) = recasting.handled (machine.dispatch effect first run) ∧
    other.dispatchActs (recasting.effect effect) first (recasting.run run) =
      (machine.dispatchActs effect first run).map recasting.act

variable {recasting} {machine other : Machine}

/-- Handlers at the same place are found for an operation and for what replaces it. -/
theorem firstAccepting {context : Context} {operation : Effect} {handlers others : List Handler}
    (hmatches : List.Forall₂ (recasting.Matches context operation) handlers others) (position : Nat) (host : Host) :
    ∃ found,
      (recasting.host host).run
          (Registry.firstAccepting (recasting.effect operation) (recasting.context context) others position) =
        (found, recasting.host (host.run (Registry.firstAccepting operation context handlers position)).2) ∧
      Option.Rel (fun chosen found => found.1 = chosen.1 ∧ recasting.Matches context operation chosen.2 found.2)
        (host.run (Registry.firstAccepting operation context handlers position)).1 found := by
  -- the two lists are gone through together, so that handlers are found at the same position
  induction hmatches generalizing position host with
  | nil => exact ⟨none, rfl, .none⟩
  | @cons handler other _ _ hfirst _ ih =>
      rw [Registry.firstAccepting, Registry.firstAccepting, hfirst.accepts, Host.run_bind, Host.run_bind, run_probe]
      cases (host.run (handler.accepts operation context)).1 with
      | true => exact ⟨some (position, other), rfl, .some ⟨rfl, hfirst⟩⟩
      | false => exact ih (position + 1) _

/-- What an operation goes on with is serviced alike if the operation is. -/
theorem Serves.inner {context : Context} {effect inner : Effect} (hserves : recasting.Serves machine other context effect)
    (hlooked : inner.looked ⊆ effect.looked) : recasting.Serves machine other context inner where
  invoke := hserves.invoke
  handlers operation hmem := hserves.handlers operation (hlooked hmem)

/-- Handlers at the same place are chosen for an effect and for what replaces it. -/
theorem Serves.select {effect : Effect} {run : Run} (hserves : recasting.Serves machine other run.stack.context effect)
    {first : Nat} {chosen : Option (Nat × Handler)} {later : Host}
    (hchosen : run.host.run (machine.registry.select effect.operation run.stack.context first) = (chosen, later)) :
    ∃ found,
      (recasting.run run).host.run
          (other.registry.select (recasting.effect effect).operation (recasting.run run).stack.context first) =
        (found, recasting.host later) ∧
      Option.Rel (fun chosen found => found.1 = chosen.1 ∧
        recasting.Matches run.stack.context effect.operation chosen.2 found.2) chosen found := by
  have hmatches := List.forall₂_drop first (hserves.handlers _ effect.operation_mem_looked)
  obtain ⟨found, hfound, hrel⟩ := firstAccepting hmatches first run.host
  unfold Registry.select at hchosen ⊢
  rw [hchosen] at hfound hrel
  rw [effect_operation, kind_effect]
  exact ⟨found, hfound, hrel⟩

/-- What replaces an effect is dispatched alike in place of the top frame, if it is on what is left then. -/
theorem dispatchInPlace {effect : Effect} {position : Nat} {run : Run}
    (hdispatches : ∀ later : Run, later.stack.context = run.stack.context →
      recasting.DispatchesAlike machine other effect position later) :
    other.dispatchInPlace (recasting.effect effect) position (recasting.run run) =
        recasting.handled (machine.dispatchInPlace effect position run) ∧
      other.inPlaceActs (recasting.effect effect) position (recasting.run run) =
        (machine.inPlaceActs effect position run).map recasting.act := by
  unfold Machine.dispatchInPlace Machine.inPlaceActs
  rw [run_terminateTop]
  cases hterminated : run.terminateTop with
  | error error => exact ⟨rfl, rfl⟩
  | ok later =>
      -- discarding a frame keeps the context, and that is all that handlers are given besides the operation
      obtain ⟨hafter, hacts⟩ := hdispatches later (Machine.context_of_terminateTop hterminated)
      exact ⟨hafter, congrArg (List.cons Act.dropped) hacts⟩

/-- The core rule of what replaces an effect does the same, if the wrapped effect is dispatched alike. -/
theorem core (effect : Effect) (run : Run)
    (hinvoke : ∀ function args, other.invoke function args = recasting.computation (machine.invoke function args))
    (hwrapped : ∀ inner, effect.wrapped? = some inner → inner.looked ⊆ effect.looked → ∀ first (later : Run),
      later.stack.context = run.stack.context → recasting.DispatchesAlike machine other inner first later) :
    other.core (recasting.effect effect) (recasting.run run) = recasting.handled (machine.core effect run) ∧
      other.coreActs (recasting.effect effect) (recasting.run run) = (machine.coreActs effect run).map recasting.act := by
  cases effect with
  | bare computation =>
      -- the operation that runs a computation has the same core rule
      rcases recasting.effect_bare computation with hbare | hexecute
      · rw [hbare]
        exact ⟨rfl, rfl⟩
      · rw [hexecute]
        exact ⟨rfl, rfl⟩
  | execute computation =>
      rw [effect_execute]
      exact ⟨rfl, rfl⟩
  | call function args =>
      rw [effect_call]
      simp only [Machine.core, Machine.coreActs, hinvoke]
      exact ⟨rfl, rfl⟩
  | fork inner =>
      rw [effect_fork]
      refine ⟨recasting.fork run inner, ?_⟩
      simp only [Machine.coreActs, show (recasting.run run).host.scheduled = run.host.scheduled from rfl]
      split <;> rfl
  | start inner =>
      rw [effect_start]
      exact hwrapped inner rfl (List.subset_cons_self _ _) 0 run rfl
  | defer inner =>
      rw [effect_defer]
      exact ⟨rfl, rfl⟩
  | recover =>
      obtain ⟨hafter, hacts⟩ := recasting.run_recover run
      rw [effect_recover]
      exact ⟨congrArg (Handled.mk · none) hafter, hacts⟩
  | terminal inner =>
      rw [effect_terminal]
      exact dispatchInPlace fun later => hwrapped inner rfl (List.subset_cons_self _ _) 0 later
  | generator =>
      have hinfo : (recasting.run run).stack.frameInfo = run.stack.frameInfo := recasting.frameInfo_stack run.stack
      rw [effect_generator]
      refine ⟨recasting.describe run, ?_⟩
      simp only [Machine.coreActs, hinfo]
      rfl
  | next inner inPlace =>
      rw [effect_next]
      simp only [Machine.core, Machine.coreActs, delegation]
      cases Machine.delegation run inner with
      | error error => exact ⟨rfl, rfl⟩
      | ok position =>
          cases inPlace with
          | false => exact hwrapped inner rfl (List.subset_cons_self _ _) position run rfl
          | true => exact dispatchInPlace fun later => hwrapped inner rfl (List.subset_cons_self _ _) position later
  | custom kind payload =>
      obtain ⟨carried, hcustom⟩ := recasting.effect_custom kind payload
      rw [hcustom]
      exact ⟨rfl, rfl⟩

/-- Whoever services an effect services what replaces it alike. -/
theorem serve {effect : Effect} (run : Run) {index : Nat} {handler found : Handler}
    (hmatches : recasting.Matches run.stack.context effect.operation handler found) :
    other.serve (recasting.effect effect) (some (index, found)) (recasting.run run) =
        recasting.handled (machine.serve effect (some (index, handler)) run) ∧
      other.serveActs (recasting.effect effect) (some (index, found)) (recasting.run run) =
        (machine.serveActs effect (some (index, handler)) run).map recasting.act := by
  have hcomputation : found.handle (recasting.effect effect.operation) (recasting.run run).stack.context = _ := hmatches.handle
  have hheight : (recasting.run run).stack.height = run.stack.height := recasting.height_stack run.stack
  simp only [Machine.serve, Machine.serveActs, kind_effect, effect_operation, hcomputation, hheight]
  exact ⟨rfl, rfl⟩

/-- Effects that are serviced alike are dispatched alike. -/
theorem dispatch {effect : Effect} (run : Run) (hserves : recasting.Serves machine other run.stack.context effect)
    (first : Nat) : recasting.DispatchesAlike machine other effect first run := by
  induction effect using Effect.wrapped_induction generalizing first run with
  | step effect ih =>
      rcases hchosen : run.host.run (machine.registry.select effect.operation run.stack.context first) with ⟨chosen, later⟩
      obtain ⟨found, hfound, hrel⟩ := hserves.select hchosen
      unfold DispatchesAlike
      rw [Machine.dispatch_of_select hfound, Machine.dispatchActs_of_select hfound, Machine.dispatch_of_select hchosen,
        Machine.dispatchActs_of_select hchosen]
      cases hrel with
      | none =>
          exact core effect { run with host := later } hserves.invoke fun inner hinner hlooked first next hcontext =>
            ih inner hinner next (hcontext ▸ hserves.inner hlooked) first
      | @some chosen found hsame =>
          obtain ⟨index, found⟩ := found
          obtain ⟨_, handler⟩ := chosen
          obtain ⟨rfl, hmatches⟩ := hsame
          exact serve { run with host := later } hmatches

/-! ## Handling -/

/-- Under a context, a machine services and checks an effect as another machine does with what replaces it. -/
structure Handles (recasting : Recasting) (machine other : Machine) (context : Context) (effect : Effect) : Prop
    extends recasting.Serves machine other context effect where
  validate : other.registry.validate (recasting.effect effect) = machine.registry.validate effect

/-- Effects that are checked and serviced alike are handled alike. -/
theorem handle {effect : Effect} (run : Run) (hhandles : recasting.Handles machine other run.stack.context effect) :
    other.handle (recasting.effect effect) (recasting.run run) = recasting.run (machine.handle effect run) ∧
      other.handleActs (recasting.effect effect) (recasting.run run) =
        (machine.handleActs effect run).map recasting.act := by
  have hchecked : (recasting.run run).host.run (machine.registry.validate effect) = _ :=
    recasting.run_probe run.host (machine.registry.validate effect)
  rw [Machine.handle_eq_settled, Machine.handle_eq_settled]
  unfold Machine.attempt Machine.handleActs
  rw [hhandles.validate, hchecked]
  rcases run.host.run (machine.registry.validate effect) with ⟨_ | error, host⟩
  · obtain ⟨hafter, hacts⟩ := dispatch { run with host } hhandles.toServes 0
    dsimp only
    rw [show ({ stack := (recasting.run run).stack, host := recasting.host host } : Run) = recasting.run { run with host } from
      rfl, hafter, hacts]
    rcases machine.dispatch effect 0 { run with host } with ⟨after, failure⟩
    refine ⟨recasting.settled ⟨after, failure⟩, ?_⟩
    rw [List.map_append]
    cases failure <;> rfl
  · exact ⟨recasting.settled { run := { run with host }, failure := some error }, rfl⟩

end Recasting
end EffectMachine
