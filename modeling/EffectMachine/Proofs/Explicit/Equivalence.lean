import EffectMachine.Plugin.Middleware
import EffectMachine.Proofs.Explicit.Steps
import EffectMachine.Proofs.Interleaving.Execution

/-!
# Bare computations and the operations that run them

A bare computation stands for the operation that runs it, and it is handled as that operation, whatever wraps it.  It is
not checked as that operation, though: a validator for operations that run computations is asked about the operation, and
not about the bare computation.

* `Registry.validate_nest` says what checking the one comes to in terms of checking the other.
* `bare_stands_for_execute` is the main statement: the two are treated alike unless such a validator refuses the operation.
* `Middleware.blind_traced`: an example of handlers that do not look for the difference.
-/

namespace EffectMachine

/-! ## Wrapped effects -/

/-- An effect wrapped in operations, the first one outermost. -/
def nest (wrappers : List Wrapper) (effect : Effect) : Effect :=
  wrappers.foldr Wrapper.around effect

/-- A computation may be written either way inside of operations. -/
theorem explicit_nest (wrappers : List Wrapper) (computation : Computation) :
    (nest wrappers (.execute computation)).explicit = (nest wrappers (.bare computation)).explicit := by
  induction wrappers with
  | nil => rfl
  | cons wrapper rest ih =>
      show (wrapper.around _).explicit = (wrapper.around _).explicit
      rw [wrapper.explicit_around, wrapper.explicit_around]
      exact congrArg wrapper.around ih

namespace Registry

variable {registry : Registry}

/-- The operation that runs a computation is checked before all that is done for the bare computation. -/
theorem validate_nest (hblind : registry.Blind) (wrappers : List Wrapper) (computation : Computation) :
    registry.validate (nest wrappers (.execute computation)) =
      (registry.validateOne (.execute computation)).bind fun
        | some error => .done (some error)
        | none => registry.validate (nest wrappers (.bare computation)) := by
  induction wrappers with
  | nil =>
      show registry.validateOne (.execute computation) = _
      have hsame (answer : Option Error) : (Probe.done answer : Probe (Option Error)) =
          match answer with
          | some error => .done (some error)
          | none => registry.validate (nest [] (.bare computation)) := by
        cases answer <;> rfl
      induction registry.validateOne (.execute computation) with
      | done answer => exact hsame answer
      | note value rest ih => exact congrArg (Probe.note value) ih
      | mint count rest ih => exact congrArg (Probe.mint count) (funext ih)
  | cons wrapper rest ih =>
      have houter (effect : Effect) : (nest (wrapper :: rest) effect).isOperation = true :=
        wrapper.isOperation_around _
      have hone : registry.validateOne (nest (wrapper :: rest) (.execute computation)) =
          registry.validateOne (nest (wrapper :: rest) (.bare computation)) := by
        rw [← hblind.validateOne_explicit (houter _), explicit_nest, hblind.validateOne_explicit (houter _)]
      show registry.validate (wrapper.around (nest rest (.execute computation))) = _
      rw [validate_around, ih, Probe.bind_assoc]
      congr 1
      funext answer
      cases answer with
      | some error => rfl
      | none =>
          show _ = registry.validate (wrapper.around (nest rest (.bare computation)))
          rw [validate_around]
          congr 1
          funext answer
          cases answer with
          | some error => rfl
          | none => exact hone

end Registry

/-! ## The main statement -/

/-- Two runs are alike if they are the same once all bare computations are written out. -/
def Run.Alike (run other : Run) : Prop :=
  run.explicit = other.explicit

/-- Two systems are alike if they are the same once all bare computations are written out. -/
def System.Alike (system other : System) : Prop :=
  system.explicit = other.explicit

namespace Machine

variable {machine : Machine}

/-- What wraps the operation that runs a computation is handled as what wraps the bare computation, unless a validator
refuses the operation.  Then that is all that happens. -/
def TreatsAlike (machine : Machine) (alike : Run → Run → Prop) (wrappers : List Wrapper) (computation : Computation)
    (run : Run) : Prop :=
  match run.host.run (machine.registry.validateOne (.execute computation)) with
  | (some refusal, host) =>
    machine.handle (nest wrappers (.execute computation)) run =
      settled { run := { run with host }, failure := some refusal }
  | (none, host) =>
    alike (machine.handle (nest wrappers (.execute computation)) run)
      (machine.handle (nest wrappers (.bare computation)) { run with host })

/-- Dispatching two ways of writing an effect comes to the same. -/
theorem dispatch_alike (hblind : machine.registry.Blind) {effect other : Effect} (halike : effect.explicit = other.explicit)
    (run : Run) : (settled (machine.dispatch effect 0 run)).Alike (settled (machine.dispatch other 0 run)) := by
  have hexplicit (effect : Effect) : (settled (machine.dispatch effect 0 run)).explicit =
      settled (machine.explicit.dispatch effect.explicit 0 run.explicit) :=
    (Recasting.explicit.settled _).symm.trans
      (congrArg settled (Recasting.dispatch run (hblind.serves run.stack.context effect) 0).1.symm)
  rw [Run.Alike, hexplicit, hexplicit, halike]

/-- A bare computation by itself is dispatched as the operation that runs it. -/
theorem dispatch_bare (machine : Machine) (computation : Computation) (first : Nat) (run : Run) :
    machine.dispatch (.execute computation) first run = machine.dispatch (.bare computation) first run := by
  unfold dispatch
  rfl

theorem treatsAlike_alone (machine : Machine) (computation : Computation) (run : Run) :
    machine.TreatsAlike Eq [] computation run := by
  unfold TreatsAlike
  have hvalidate : machine.registry.validate (nest [] (.execute computation)) =
      machine.registry.validateOne (.execute computation) := rfl
  rcases hrun : run.host.run (machine.registry.validateOne (.execute computation)) with ⟨_ | refusal, host⟩
  · show machine.handle (nest [] (.execute computation)) run = machine.handle (nest [] (.bare computation)) _
    rw [handle_eq_settled, handle_eq_settled]
    unfold attempt
    rw [hvalidate, hrun]
    exact congrArg settled (machine.dispatch_bare computation 0 { run with host })
  · show machine.handle (nest [] (.execute computation)) run = _
    rw [handle_eq_settled]
    unfold attempt
    rw [hvalidate, hrun]

theorem treatsAlike_nest (hblind : machine.registry.Blind) (wrappers : List Wrapper) (computation : Computation)
    (run : Run) : machine.TreatsAlike Run.Alike wrappers computation run := by
  unfold TreatsAlike
  have hchecked : run.host.run (machine.registry.validate (nest wrappers (.execute computation))) = _ :=
    (congrArg run.host.run (Registry.validate_nest hblind wrappers computation)).trans (Host.run_bind _ _ _)
  rcases hrun : run.host.run (machine.registry.validateOne (.execute computation)) with ⟨_ | refusal, host⟩
  · rw [hrun] at hchecked
    show (machine.handle _ run).Alike (machine.handle _ { run with host })
    rw [handle_eq_settled, handle_eq_settled]
    unfold attempt
    rw [hchecked]
    rcases host.run (machine.registry.validate (nest wrappers (.bare computation))) with ⟨_ | error, later⟩
    · exact dispatch_alike hblind (explicit_nest wrappers computation) { run with host := later }
    · rfl
  · rw [hrun] at hchecked
    show machine.handle _ run = _
    rw [handle_eq_settled]
    unfold attempt
    rw [hchecked]
    rfl

end Machine

/-- Systems that are alike come to the same reports, and stay alike. -/
theorem System.Alike.runUntil {machine : Machine} (hsame : machine.Indifferent) {system other : System}
    (halike : system.Alike other) (task : TaskId) (steps : Nat) :
    (system.runUntil machine task steps).map (fun run => (run.1, run.2.explicit)) =
      (other.runUntil machine task steps).map fun run => (run.1, run.2.explicit) := by
  rw [← runUntil_explicit hsame, ← runUntil_explicit hsame, show system.explicit = other.explicit from halike]

/-- A bare computation stands for the operation that runs it.  By itself, it is dispatched just as the operation, to the
same handlers and with the same effect on the stack; and so are operations that wrap it, as long as handlers and
validators that are given those do not look how the computation is written.  The difference is that a validator for
operations that run computations is asked about the operation first, and may refuse it, which is then all that happens;
about the bare computation it is never asked.  If no such validator ever refuses an operation, systems that differ only
in how computations are written, anywhere in them, do the same and come to the same reports. -/
theorem bare_stands_for_execute (machine : Machine) :
    (∀ computation run, machine.handle (.bare computation) run =
      Machine.settled (machine.dispatch (.execute computation) 0 run)) ∧
    (∀ computation run, machine.TreatsAlike Eq [] computation run) ∧
    (machine.registry.Blind →
      (∀ wrappers computation run, machine.TreatsAlike Run.Alike wrappers computation run) ∧
      (machine.registry.Lenient → ∀ system other : System, system.Alike other → ∀ task steps,
        (system.runUntil machine task steps).map (fun run => (run.1, run.2.explicit)) =
          (other.runUntil machine task steps).map fun run => (run.1, run.2.explicit))) := by
  refine ⟨fun computation run => ?_, machine.treatsAlike_alone, fun hblind => ⟨Machine.treatsAlike_nest hblind, ?_⟩⟩
  · rw [Machine.handle_eq_settled, machine.dispatch_bare]
    rfl
  · exact fun hlenient _ _ halike => halike.runUntil ⟨hblind, hlenient⟩

/-! ## A guarded machine -/

/-- A handler that traces operations does not look how their computations are written. -/
theorem Middleware.blind_traced : (Handler.ofHandle fun operation _ => Middleware.traced operation).Blind where
  accepts _ _ _ := rfl
  handle operation _ _ := by
    simp only [Handler.ofHandle, traced, Effect.kind_explicit]
    simp only [Computation.named, Body.emit, Computation.explicit, Body.explicit, Effect.explicit, Effect.explicit_explicit]

/-- A machine that traces operations of two kinds. -/
def tracing : Machine where
  registry :=
    { handlers :=
        [(Kind.start, .ofHandle fun operation _ => Middleware.traced operation),
          (Kind.execute, .ofHandle fun operation _ => Middleware.traced operation)] }
  library := ⟨fun _ _ => default⟩

/-- The same machine with a validator that refuses to run computations with a name. -/
def guarded : Machine where
  registry :=
    { tracing.registry with
      validators :=
        [(Kind.execute, fun
          | .execute ⟨some name, _⟩ => .done (some (.validation name))
          | _ => .done none)] }
  library := tracing.library

theorem blind_tracing : tracing.registry.Blind where
  handlers entry hentry := by
    simp only [tracing, List.mem_cons, List.not_mem_nil, or_false] at hentry
    rcases hentry with rfl | rfl <;> exact Middleware.blind_traced
  validators entry hentry := by cases hentry

theorem blind_guarded : guarded.registry.Blind where
  handlers := blind_tracing.handlers
  validators entry hentry operation hoperation := by
    rw [List.mem_singleton.1 hentry]
    rcases operation with _ | _ | ⟨⟨_ | _, _⟩⟩
    · cases hoperation
    all_goals rfl

/-- A computation with a name, which ends at once. -/
def greeting : Computation :=
  ⟨some "greeting", .ok (.str "hello")⟩

/-- A client that starts the computation, written in either way. -/
def greeted (effect : Effect) : System :=
  System.submitting (.blank 0) (.start effect)

/-- The guarded machine refuses to run a computation and starts it when it is bare; the machine without the guard comes
to one report for both. -/
theorem bare_of_guarded :
    guarded.handle (.start (.execute greeting)) { stack := { context := .blank 0, signal := none }, host := {} } =
        Machine.settled
          { run := { stack := { context := .blank 0, signal := none }, host := {} }
            failure := some (.validation "greeting") } ∧
      ((greeted (.bare greeting)).runUntil tracing ⟨0⟩ 30).isSome = true ∧
      ((greeted (.execute greeting)).runUntil tracing ⟨0⟩ 30).map (fun run => (run.1, run.2.explicit)) =
        ((greeted (.bare greeting)).runUntil tracing ⟨0⟩ 30).map fun run => (run.1, run.2.explicit) := by
  obtain ⟨-, -, hguarded⟩ := bare_stands_for_execute guarded
  obtain ⟨-, -, htracing⟩ := bare_stands_for_execute tracing
  have hlenient : tracing.registry.Lenient := fun _ => rfl
  have halike : (greeted (.execute greeting)).Alike (greeted (.bare greeting)) := rfl
  refine ⟨?_, by decide +kernel, (htracing blind_tracing).2 hlenient _ _ halike ⟨0⟩ 30⟩
  exact (hguarded blind_guarded).1 [.start] greeting { stack := { context := .blank 0, signal := none }, host := {} }

end EffectMachine
