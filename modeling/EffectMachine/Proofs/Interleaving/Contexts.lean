import EffectMachine.Proofs.Interleaving.Execution
import EffectMachine.Proofs.Recasting.Systems

/-!
# Replacing contexts

What a system does depends on contexts only in so far as its handlers look at them.

* `System.recontext` replaces the contexts of all processes.
* `Machine.Heedless` says that the handlers of an effect make the same of it under a context and under the one that
  replaces it, and `System.Unmoved` that this is so of everything that the running process may hand to the machine.
* `Moves.recontext` is the step lemma: a system that is unmoved does the same acts when the contexts are replaced.
  `RunsWith.recontext` says so of whole runs.
-/

namespace EffectMachine

/-- Contexts are replaced, and nothing else. -/
def Recasting.under (swap : Context → Context) : Recasting :=
  { same with context := swap }

/-- The host whose processes have other contexts. -/
def Host.recontext (swap : Context → Context) (host : Host) : Host :=
  (Recasting.under swap).host host

/-- The system whose processes have other contexts. -/
def System.recontext (swap : Context → Context) (system : System) : System :=
  (Recasting.under swap).system system

/-- Its handlers make the same of an effect under a context and under the one that replaces it. -/
def Machine.Heedless (swap : Context → Context) (machine : Machine) (context : Context) (effect : Effect) : Prop :=
  ∀ operation ∈ effect.looked, ∀ entry ∈ machine.registry.handlers, entry.1 = operation.kind →
    entry.2.accepts operation (swap context) = entry.2.accepts operation context ∧
      entry.2.handle operation (swap context) = entry.2.handle operation context

/-- Whatever the running process may hand to the machine is handled in the same way when contexts are replaced. -/
def System.Unmoved (swap : Context → Context) (machine : Machine) (system : System) : Prop :=
  ∀ task activity context, system.current = some (task, activity) → activity.context? = some context →
    ∀ effect ∈ activity.hands machine, machine.Heedless swap context effect

section Unmoved

variable {swap : Context → Context} {machine : Machine}

theorem Recasting.carries_under : (Recasting.under swap).Carries machine machine where
  signal := rfl
  starts := rfl

/-- An effect whose handlers do not look at the context is handled in the same way under another one. -/
theorem Machine.Heedless.handles {context : Context} {effect : Effect} (heedless : machine.Heedless swap context effect) :
    (Recasting.under swap).Handles machine machine context effect where
  invoke _ _ := (Recasting.computation_of_same rfl _).symm
  handlers operation hmem := by
    refine List.forall₂_same.2 fun handler hhandler => ?_
    obtain ⟨entry, hentry, rfl⟩ := List.mem_map.1 hhandler
    obtain ⟨hregistered, hkind⟩ := List.mem_filter.1 hentry
    obtain ⟨haccepts, hhandle⟩ := heedless operation hmem entry hregistered (of_decide_eq_true hkind)
    exact ⟨haccepts, hhandle.trans (Recasting.computation_of_same rfl _).symm⟩
  validate := rfl

/-- A system that is unmoved does the same step. -/
theorem System.step_recontext {system : System} (unmoved : system.Unmoved swap machine) :
    (system.recontext swap).step machine = (system.step machine).map (System.recontext swap) ∧
      (system.recontext swap).acts machine = system.acts machine := by
  obtain ⟨hafter, hacts⟩ := Recasting.step_system Recasting.carries_under system
    fun task activity context hcurrent hcontext effect heffect =>
      (unmoved task activity context hcurrent hcontext effect heffect).handles
  refine ⟨hafter, hacts.trans (List.map_id'' (fun entry => ?_) _)⟩
  rw [(Recasting.under swap).act_of_same rfl rfl]

/-- A system that is unmoved makes the same moves when contexts are replaced. -/
theorem Moves.recontext {system next : System} {acts : Trace} (hmoves : Moves machine system acts next)
    (unmoved : system.Unmoved swap machine) : Moves machine (system.recontext swap) acts (next.recontext swap) := by
  cases hmoves with
  | step hstep =>
      obtain ⟨hafter, hacts⟩ := System.step_recontext unmoved
      rw [← hacts]
      exact .step (by rw [hafter, hstep]; rfl)
  | preempt host task activity =>
      have hmoves : Moves machine _ [] _ :=
        .preempt (host.recontext swap) task ((Recasting.under swap).activity activity)
      rwa [show (host.recontext swap).park task _ = _ from (Recasting.under swap).host_park host task activity] at hmoves
  | pick host task =>
      have hmoves : Moves machine _ [] _ := .pick (host.recontext swap) task
      rwa [show System.resume (host.recontext swap) task = _ from Recasting.resume host task] at hmoves
  | elapse host due timers hadvance => exact .elapse (host.recontext swap) due timers hadvance

end Unmoved

/-- What the processes of a host come to that have not begun, as long as the systems on the way keep to something
when they move on. -/
inductive RunsWith (machine : Machine) (kept : System → Prop) (first : Host) : Trace → System → Prop
  | start (hnew : ∀ process ∈ first.processes, process.activity.stack? = none) :
      RunsWith machine kept first [] { host := first }
  | move {trace acts : Trace} {system next : System} (runs : RunsWith machine kept first trace system)
      (hkept : kept system) (hmoves : Moves machine system acts next) : RunsWith machine kept first (trace ++ acts) next

namespace RunsWith

variable {machine : Machine} {kept : System → Prop} {first : Host} {trace : Trace} {system : System}

theorem runs (hruns : RunsWith machine kept first trace system) : Runs machine first trace system := by
  induction hruns with
  | start hnew => exact .start hnew
  | move _ _ hmoves ih => exact .move ih hmoves

/-- The same is done when the contexts of processes are replaced which the handlers of these processes do not look
at. -/
theorem recontext {swap : Context → Context} (hruns : RunsWith machine (System.Unmoved swap machine) first trace system) :
    Runs machine (first.recontext swap) trace (system.recontext swap) := by
  induction hruns with
  | start hnew =>
      refine .start fun process hmem => ?_
      obtain ⟨earlier, hearlier, rfl⟩ := List.mem_map.1 hmem
      have hstack := hnew earlier hearlier
      obtain ⟨activity, canceled, collected⟩ := earlier
      cases activity with
      | task stack | run stack resume => cases hstack
      | _ => rfl
  | move _ hunmoved hmoves ih => exact .move ih (hmoves.recontext hunmoved)

end RunsWith

/-- Whether all systems of an execution pass a test. -/
def System.passes (machine : Machine) (test : System → Bool) : Nat → System → Bool
  | 0, _ => true
  | steps + 1, system =>
    test system &&
      match system.step machine with
      | some next => next.passes machine test steps
      | none => true

/-- A run goes on with the steps of its system while they pass a test. -/
theorem RunsWith.execute {machine : Machine} {kept : System → Prop} {first : Host} {trace : Trace} {system : System}
    (hruns : RunsWith machine kept first trace system) {test : System → Bool}
    (htest : ∀ system, test system = true → kept system) (steps : Nat) (hpasses : system.passes machine test steps = true) :
    RunsWith machine kept first (trace ++ (system.execute machine steps).1) (system.execute machine steps).2 := by
  induction steps generalizing trace system with
  | zero =>
      rw [System.execute, List.append_nil]
      exact hruns
  | succ steps ih =>
      unfold System.passes at hpasses
      obtain ⟨hkept, hrest⟩ := Bool.and_eq_true_iff.1 hpasses
      unfold System.execute
      cases hstep : system.step machine with
      | none =>
          rw [List.append_nil]
          exact hruns
      | some next =>
          rw [hstep] at hrest
          have hnext := ih (.move hruns (htest system hkept) (.step hstep)) hrest
          rw [List.append_assoc] at hnext
          exact hnext

end EffectMachine
