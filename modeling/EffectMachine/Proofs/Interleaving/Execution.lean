import EffectMachine.Proofs.Interleaving.Basic

/-!
# Executions

Runs of a new system that is given one effect to run, as its schedule has them.

* `System.execute` makes some steps and collects their acts.
* `Runs.submitted` is the run of an effect that a client submits; its acts begin with those of handling the
  effect, which `Machine.handleActs_of_handler` computes for an operation of a plugin.
-/

namespace EffectMachine

namespace Machine

/-- Handling an operation whose first handler takes everything pushes the computation of that handler. -/
theorem handleActs_of_handler {machine : Machine} {effect : Effect} {handlers : List Handler}
    {handle : Effect → Context → Computation}
    (hvalid : machine.registry.validate effect = .done none)
    (hhandlers : machine.registry.handlersOf effect.operation.kind = .ofHandle handle :: handlers)
    (run : Run) :
    machine.handleActs effect run =
      [.pushed (handle effect.operation run.stack.context) (some ⟨effect.kind, 0⟩)] := by
  have hselect : run.host.run (machine.registry.select effect.operation run.stack.context 0) =
      (some (0, .ofHandle handle), run.host) := by
    rw [Registry.select, hhandlers]
    rfl
  unfold handleActs
  simp only [hvalid, Host.run]
  rw [dispatch_of_select hselect, dispatchActs_of_select hselect]
  rfl

end Machine

namespace System

/-- Some steps of a system, as its schedule says, with all acts. -/
def execute (machine : Machine) : Nat → System → Trace × System
  | 0, system => ([], system)
  | steps + 1, system =>
    match system.step machine with
    | some next => (system.acts machine ++ (next.execute machine steps).1, (next.execute machine steps).2)
    | none => ([], system)

/-- A host on which clients wait to evaluate bodies. -/
def clients (context : Context) (bodies : List Body) : Host :=
  bodies.foldl (fun host body => (host.spawn (.client (.evaluate context body))).2) {}

/-- A system whose only client is about to submit an effect. -/
def submitting (context : Context) (effect : Effect) : System where
  host := clients context [.perform effect .done]
  current := some (⟨0⟩, .client (.evaluate context (.perform effect .done)))

end System

/-- A system proceeds with its own steps. -/
theorem Proceeds.execute {machine : Machine} {system middle : System} {trace : Trace}
    (proceeds : Proceeds machine system trace middle) (steps : Nat) :
    Proceeds machine system (trace ++ (middle.execute machine steps).1) (middle.execute machine steps).2 := by
  induction steps generalizing trace middle with
  | zero =>
      rw [System.execute, List.append_nil]
      exact proceeds
  | succ steps ih =>
      unfold System.execute
      cases hstep : middle.step machine with
      | none =>
          rw [List.append_nil]
          exact proceeds
      | some next =>
          have hnext := ih (.move proceeds (.step hstep))
          rw [List.append_assoc] at hnext
          exact hnext

namespace Runs

variable {machine : Machine} {first : Host} {trace : Trace} {system : System}

/-- A run goes on with the steps of its system. -/
theorem execute (runs : Runs machine first trace system) (steps : Nat) :
    Runs machine first (trace ++ (system.execute machine steps).1) (system.execute machine steps).2 :=
  (Proceeds.start.execute steps).runs runs

/-- What a system does with an effect that its client submits. -/
theorem submitted (machine : Machine) (context : Context) (effect : Effect) (steps : Nat) :
    Runs machine (System.clients context [.perform effect .done])
      ((System.submitting context effect).execute machine steps).1
      ((System.submitting context effect).execute machine steps).2 := by
  have hnew : ∀ process ∈ (System.clients context [.perform effect .done]).processes,
      process.activity.stack? = none := by
    intro process hmem
    rw [List.mem_singleton.1 hmem]
    rfl
  exact (Runs.move (.start hnew) (.pick _ ⟨0⟩)).execute steps

/-- The acts of the client begin with those of handling the effect. -/
theorem deeds_submitted (machine : Machine) (context : Context) (effect : Effect) (steps : Nat) :
    deeds ((System.submitting context effect).execute machine (steps + 1)).1 ⟨0⟩ =
      machine.handleActs (machine.submission effect)
        { stack := { context, signal := none }, host := (System.submitting context effect).host } ++
      deeds (((System.submitting context effect).execute machine (steps + 1)).1.drop
        ((System.submitting context effect).acts machine).length) ⟨0⟩ := by
  have hstep : ∃ next, (System.submitting context effect).step machine = some next := ⟨_, rfl⟩
  obtain ⟨next, hnext⟩ := hstep
  rw [System.execute, hnext]
  simp only [List.drop_left]
  rw [deeds_append]
  congr 1
  exact deeds_own _ _

/-- An operation that a client submits is served by a frame of its first handler. -/
theorem mem_life_submitted {machine : Machine} {context : Context} {effect : Effect}
    {handlers : List Handler} {handle : Effect → Context → Computation}
    (hsubmission : machine.submission effect = effect)
    (hvalid : machine.registry.validate effect = .done none)
    (hhandlers : machine.registry.handlersOf effect.operation.kind = .ofHandle handle :: handlers)
    (steps : Nat) :
    .pushed (handle effect.operation context) (some ⟨effect.kind, 0⟩) ∈
      life (deeds ((System.submitting context effect).execute machine (steps + 1)).1 ⟨0⟩) 1 := by
  rw [deeds_submitted, hsubmission, Machine.handleActs_of_handler hvalid hhandlers]
  exact mem_life_append _ List.mem_cons_self

end Runs
end EffectMachine
