import EffectMachine.Proofs.Acts.Adequacy
import EffectMachine.Proofs.Acts.Frames

/-!
# What a step handles

A step of a stack hands at most two kinds of effects to the machine: the one that the top frame performs, and
those that were deferred on its frames.  Everything else that it does is no matter of effects.

* `Machine.forall_mem_stepActs` says that what holds of all that handling these effects does holds of all acts
  of the step.
* `Machine.handle_eq_core` says that the core rule applies to an effect that is accepted and that no handler asks for.
* `Act.ServedUnder` says that a handler was given a context, and `Machine.servedUnder_stepActs` that this is
  always the one of the stack.
-/

namespace EffectMachine

/-- Whether an act neither handles an effect nor takes one up. -/
def Act.isQuiet : Act → Bool
  | .noticed | .resumed _ | .acted .. | .waited _ | .completed _ | .givenUp | .vacated | .left => true
  | _ => false

namespace Machine

variable {machine : Machine} {allowed : Act → Prop}

/-- Under a context, handling an effect does nothing but what is allowed. -/
def HandlesOnly (machine : Machine) (context : Context) (allowed : Act → Prop) (effect : Effect) : Prop :=
  ∀ run : Run, run.stack.context = context → ∀ act ∈ machine.handleActs effect run, allowed act

/-- Unwinding does what is allowed if handling the deferred effects does. -/
theorem forall_mem_unwindActsFrom (hquiet : ∀ act, act.isQuiet = true → allowed act) (stack : Stack) (host : Host)
    (top : Frame) (below : List Frame)
    (hdefers : ∀ frame ∈ top :: below, ∀ effect ∈ frame.defers,
      allowed (.started effect) ∧ machine.HandlesOnly stack.context allowed effect) :
    ∀ act ∈ machine.unwindActsFrom stack host top below, allowed act := by
  induction below generalizing host top with
  | nil => exact List.forall_mem_nil _
  | cons parent rest ih =>
      obtain ⟨htop, hbelow⟩ := List.forall_mem_cons.1 hdefers
      obtain ⟨hparent, hrest⟩ := List.forall_mem_cons.1 hbelow
      unfold unwindActsFrom
      cases htopDefers : top.defers with
      | cons effect defers =>
          obtain ⟨hstarted, hhandled⟩ := htop effect (by simp [htopDefers])
          exact List.forall_mem_cons.2 ⟨hstarted, hhandled _ rfl⟩
      | nil =>
          -- each way of leaving goes on with the frame below, whose deferred effects are the same
          have hleave (later : Host) (next : Frame) (hnext : next.defers = parent.defers) :
              ∀ act ∈ .left :: machine.unwindActsFrom stack later next rest, allowed act := by
            refine List.forall_mem_cons.2 ⟨hquiet .left rfl, ih later next ?_⟩
            exact List.forall_mem_cons.2 ⟨hnext ▸ hparent, hrest⟩
          dsimp only
          split
          · split
            · exact hleave _ _ rfl
            · exact hleave _ _ rfl
            · exact hleave _ _ rfl
          · exact List.forall_mem_singleton.2 (hquiet .left rfl)

/-- What was deferred on the frames of a stack is the same after the stack took note of its cancellation. -/
theorem exists_of_mem_observeCancellation {run : Run} {frame : Frame}
    (hmem : frame ∈ run.observeCancellation.frames) : ∃ earlier ∈ run.frames, frame.defers = earlier.defers := by
  have hmarked (frame : Frame) : frame.markCanceled.defers = frame.defers := by
    unfold Frame.markCanceled
    split <;> rfl
  unfold Run.observeCancellation at hmem
  split at hmem
  · rcases List.mem_cons.1 hmem with rfl | hbelow
    · exact ⟨_, List.mem_cons_self, hmarked _⟩
    · obtain ⟨earlier, hearlier, rfl⟩ := List.mem_map.1 hbelow
      exact ⟨earlier, List.mem_cons_of_mem _ hearlier, hmarked earlier⟩
  · exact ⟨frame, hmem, rfl⟩

theorem context_observeCancellation (run : Run) : run.observeCancellation.stack.context = run.stack.context := by
  unfold Run.observeCancellation
  split <;> rfl

/-- A stack that takes no note of a cancellation stays as it is. -/
theorem observeCancellation_eq {run : Run} (hquiet : .noticed ∉ noticeActs run) :
    noticeActs run = [] ∧ run.observeCancellation = run := by
  unfold noticeActs Run.observeCancellation at *
  split
  · rename_i hnotice
    rw [if_pos hnotice] at hquiet
    exact absurd (List.mem_singleton.2 rfl) hquiet
  · exact ⟨rfl, rfl⟩

/-- A step does what is allowed if handling does: of the effect that the top frame performs, and of the effects
that were deferred on the frames. -/
theorem forall_mem_stepActs (hquiet : ∀ act, act.isQuiet = true → allowed act) (run : Run)
    (hperform : ∀ effect resume, run.stack.top.progress = .running (.perform effect resume) →
      allowed (.performed effect) ∧ machine.HandlesOnly run.stack.context allowed effect)
    (hdefers : ∀ frame ∈ run.frames, ∀ effect ∈ frame.defers,
      allowed (.started effect) ∧ machine.HandlesOnly run.stack.context allowed effect) :
    ∀ act ∈ machine.stepActs run, allowed act := by
  have hnotice (run : Run) : ∀ act ∈ noticeActs run, allowed act := by
    unfold noticeActs
    split
    · exact List.forall_mem_singleton.2 (hquiet _ rfl)
    · exact List.forall_mem_nil _
  -- a run on the same frames, but for the progress of the top one, unwinds in an allowed way
  have hunwind (later : Run) (hcontext : later.stack.context = run.stack.context)
      (hframes : ∀ frame ∈ later.frames, ∃ earlier ∈ run.frames, frame.defers = earlier.defers) :
      ∀ act ∈ machine.unwindActs later, allowed act := by
    refine forall_mem_unwindActsFrom hquiet _ _ _ _ fun frame hframe effect heffect => ?_
    obtain ⟨earlier, hearlier, hsame⟩ := hframes frame hframe
    rw [hcontext]
    exact hdefers earlier hearlier effect (hsame ▸ heffect)
  unfold stepActs
  split
  · -- the computation ends
    rename_i outcome hrunning
    refine List.forall_mem_cons.2 ⟨hquiet _ rfl, ?_⟩
    have hframes (host : Host) : ∀ frame ∈ (finished outcome { run with host }).frames,
        ∃ earlier ∈ run.frames, frame.defers = earlier.defers := by
      refine List.forall_mem_cons.2 ⟨⟨_, List.mem_cons_self, rfl⟩, fun frame hframe => ?_⟩
      exact ⟨frame, List.mem_cons_of_mem _ hframe, rfl⟩
    cases outcome with
    | ok value => exact hunwind _ rfl (hframes run.host)
    | error error => exact hunwind _ rfl (hframes _)
  · -- it performs an effect
    rename_i effect resume hrunning
    obtain ⟨hperformed, hhandled⟩ := hperform effect resume hrunning
    unfold suspendActs
    refine List.forall_mem_cons.2 ⟨hperformed, fun act hmem => ?_⟩
    rcases List.mem_append.1 hmem with hmem | hmem
    · exact hnotice _ act hmem
    · split at hmem
      · cases hmem
      · refine hhandled _ ?_ act hmem
        exact context_observeCancellation (run.withTop fun frame => { frame with progress := .suspended resume })
  · -- it does something by itself
    unfold actActs
    split
    · exact List.forall_mem_singleton.2 (hquiet _ rfl)
    · exact List.forall_mem_singleton.2 (hquiet _ rfl)
    · exact List.forall_mem_singleton.2 (hquiet _ rfl)
  · -- the top frame is resumed, given up or taken off
    unfold turnActs
    intro act hmem
    rcases List.mem_append.1 hmem with hmem | hmem
    · exact hnotice _ act hmem
    · have hsame := fun frame => @exists_of_mem_observeCancellation run frame
      have hcontext := context_observeCancellation run
      revert hmem hsame hcontext
      generalize run.observeCancellation = noticed
      intro hmem hsame hcontext
      have hfinished (outcome : Outcome) (change : Frame → Frame) (hchange : ∀ frame, (change frame).defers = frame.defers) :
          ∀ act ∈ machine.unwindActs (finished outcome (noticed.withTop change)), allowed act := by
        refine hunwind _ hcontext (List.forall_mem_cons.2 ⟨?_, fun frame hframe => ?_⟩)
        · obtain ⟨earlier, hearlier, hdefers⟩ := hsame noticed.stack.top List.mem_cons_self
          exact ⟨earlier, hearlier, (hchange _).trans hdefers⟩
        · exact hsame frame (List.mem_cons_of_mem _ hframe)
      split at hmem
      · exact hunwind noticed hcontext hsame act hmem
      · split at hmem
        · rcases List.mem_cons.1 hmem with rfl | hmem
          · exact hquiet _ rfl
          · exact hfinished _ (fun frame => { frame with cancellation := .applied }) (fun _ => rfl) act hmem
        · split at hmem
          · exact List.mem_singleton.1 hmem ▸ hquiet _ rfl
          · exact List.mem_singleton.1 hmem ▸ hquiet _ rfl
          · cases hmem
          · rcases List.mem_cons.1 hmem with rfl | hmem
            · exact hquiet _ rfl
            · exact hfinished _ id (fun _ => rfl) act hmem
          · rcases List.mem_cons.1 hmem with rfl | hmem
            · exact hquiet _ rfl
            · exact hfinished _ id (fun _ => rfl) act hmem

end Machine

/-- A probe that goes on is carried out in two parts. -/
theorem Host.run_bind {α β : Type} (host : Host) (probe : Probe α) (next : α → Probe β) :
    host.run (probe.bind next) = (host.run probe).2.run (next (host.run probe).1) := by
  induction probe generalizing host with
  | done answer => rfl
  | note value rest ih => exact ih _
  | mint count rest ih => exact ih _ _

/-- A probe with its answer changed. -/
theorem Host.run_bind_done {α β : Type} (host : Host) (probe : Probe α) (change : α → β) :
    host.run (probe.bind fun answer => .done (change answer)) = (change (host.run probe).1, (host.run probe).2) := by
  rw [Host.run_bind]
  rfl

namespace Registry

/-- A handler that takes an operation is one of those that were asked. -/
theorem mem_of_firstAccepting {operation : Effect} {context : Context} {handlers : List Handler}
    {position index : Nat} {handler : Handler} {host : Host}
    (hfound : (host.run (firstAccepting operation context handlers position)).1 = some (index, handler)) :
    handler ∈ handlers := by
  induction handlers generalizing position host with
  | nil => cases hfound
  | cons first rest ih =>
      rw [firstAccepting, Host.run_bind] at hfound
      cases haccepted : (host.run (first.accepts operation context)).1 with
      | true =>
          rw [haccepted] at hfound
          cases hfound
          exact List.mem_cons_self
      | false =>
          rw [haccepted] at hfound
          exact List.mem_cons_of_mem _ (ih hfound)

/-- A handler that services an operation is registered. -/
theorem mem_of_select {registry : Registry} {operation : Effect} {context : Context} {first index : Nat}
    {handler : Handler} {host later : Host}
    (hfound : host.run (registry.select operation context first) = (some (index, handler), later)) :
    ∃ kind, (kind, handler) ∈ registry.handlers := by
  have hmem : handler ∈ (registry.handlersOf operation.kind).drop first :=
    mem_of_firstAccepting (congrArg Prod.fst hfound)
  obtain ⟨entry, hentry, rfl⟩ := List.mem_map.1 (List.mem_of_mem_drop hmem)
  exact ⟨entry.1, (List.mem_filter.1 hentry).1⟩

/-- Without handlers of a kind, nothing is asked about operations of that kind. -/
theorem run_select_of_hasHandlers {registry : Registry} (operation : Effect) (context : Context) (position : Nat) (host : Host)
    (hnone : registry.hasHandlers operation.kind = false) :
    host.run (registry.select operation context position) = (none, host) := by
  have hempty : registry.handlersOf operation.kind = [] := by simpa [hasHandlers] using hnone
  rw [select, hempty, List.drop_nil]
  rfl

end Registry

/-- The core rule applies to an effect that no handler asks for. -/
theorem Machine.dispatch_eq_core (machine : Machine) (effect : Effect)
    (hnone : machine.registry.hasHandlers effect.operation.kind = false) (first : Nat) (run : Run) :
    machine.dispatch effect first run = machine.core effect run ∧
      machine.dispatchActs effect first run = machine.coreActs effect run := by
  have hselect := Registry.run_select_of_hasHandlers effect.operation run.stack.context first run.host hnone
  exact ⟨dispatch_of_select hselect, dispatchActs_of_select hselect⟩

/-- So it is when the effect is also accepted. -/
theorem Machine.handle_eq_core {machine : Machine} {effect : Effect}
    (hvalid : machine.registry.validate effect = .done none)
    (hnone : machine.registry.hasHandlers effect.operation.kind = false) (run : Run) :
    machine.handle effect run = settled (machine.core effect run) ∧
      machine.handleActs effect run = machine.coreActs effect run ++ failureActs (machine.core effect run).failure := by
  obtain ⟨hdispatch, hacts⟩ := machine.dispatch_eq_core effect hnone 0 run
  constructor
  · rw [handle_eq_settled, attempt, hvalid]
    exact congrArg settled hdispatch
  · rw [handleActs, hvalid]
    show machine.dispatchActs effect 0 run ++ failureActs (machine.dispatch effect 0 run).failure = _
    rw [hdispatch, hacts]

/-- A bare computation that no handler asks for runs in a frame of its own. -/
theorem Machine.handleActs_bare {machine : Machine} (hexecute : machine.registry.hasHandlers Kind.execute = false)
    (computation : Computation) (run : Run) :
    machine.handleActs (.bare computation) run = [.pushed computation none] :=
  (handle_eq_core rfl hexecute run).2

/-- A frame that runs a handler is put on the stack for a handler of the machine that was given the context. -/
def Act.ServedUnder (machine : Machine) (context : Context) : Act → Prop
  | .pushed computation (some _) =>
    ∃ kind handler operation, (kind, handler) ∈ machine.registry.handlers ∧
      computation = Handler.handle handler operation context
  | _ => True

namespace Machine

theorem context_of_terminateTop {run next : Run} (hterminated : run.terminateTop = .ok next) :
    next.stack.context = run.stack.context := by
  unfold Run.terminateTop at hterminated
  split at hterminated
  · cases hterminated
  · cases hterminated
    dsimp only [Run.emit]
    split <;> rfl

/-- Handlers are given the context of the stack. -/
theorem Dispatches.servedUnder {effect : Effect} {first : Nat} {run : Run} {act : Act}
    (dispatches : machine.Dispatches effect first run act) : act.ServedUnder machine run.stack.context := by
  induction dispatches with
  | @handler effect first run index handler later hselect =>
      obtain ⟨kind, hentry⟩ := Registry.mem_of_select hselect
      exact ⟨kind, handler, effect.operation, hentry, rfl⟩
  | start _ ih | next _ _ ih => exact ih
  | terminated hterminated _ ih | replaced _ hterminated _ ih =>
      rw [context_of_terminateTop hterminated] at ih
      exact ih
  | _ => trivial

theorem servedUnder_handleActs (machine : Machine) (effect : Effect) (run : Run) :
    ∀ act ∈ machine.handleActs effect run, act.ServedUnder machine run.stack.context := by
  intro act hmem
  rcases dispatches_of_mem_handleActs hmem with ⟨error, rfl⟩ | ⟨host, dispatches⟩
  · trivial
  · exact dispatches.servedUnder

/-- Handlers are given the context of the stack, in every step. -/
theorem servedUnder_stepActs (machine : Machine) (run : Run) :
    ∀ act ∈ machine.stepActs run, act.ServedUnder machine run.stack.context := by
  have hhandled (effect : Effect) :
      machine.HandlesOnly run.stack.context (Act.ServedUnder machine run.stack.context) effect :=
    fun later hcontext => hcontext ▸ machine.servedUnder_handleActs effect later
  refine forall_mem_stepActs (fun act hquiet => ?_) run (fun effect _ _ => ⟨trivial, hhandled effect⟩)
    fun _ _ effect _ => ⟨trivial, hhandled effect⟩
  cases act with
  | pushed => cases hquiet
  | _ => trivial

end Machine
end EffectMachine
