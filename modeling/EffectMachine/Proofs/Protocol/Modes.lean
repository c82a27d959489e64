import EffectMachine.Proofs.Acts.Adequacy

/-!
# The order of acts within a step

A step carries out its acts in a certain order.  An effect is handled only right after a computation performed
it, or right after it was started as a deferred one, and handling it comes to one conclusion; a cancellation
is noticed before a frame is resumed and before an effect is handled, never elsewhere.

* `Mode` is what a stack is in the middle of, `Mode.next` how an act goes on with it, and `Mode.Allows` are
  the acts that can come next.
* `Machine.allows_stepActs` and `Machine.allows_handleActs` are the main statements: steps keep to this order.
* `Prompted` is what is left of it for a whole history: every act of handling an effect goes back to one that
  prompted it.
-/

namespace EffectMachine

/-- What a stack is in the middle of. -/
inductive Mode where
  /-- The top frame, which is not running, gets its turn. -/
  | steady
  /-- An effect is to be handled. -/
  | handling
  /-- Something else. -/
  | busy
  deriving DecidableEq

namespace Mode

/-- The mode after an act, if it may come next. -/
def next (mode : Mode) : Act → Option Mode
  | .performed _ | .started _ => some .handling
  | .resumed _ | .acted .. | .waited _ | .completed _ | .left => some .busy
  | .dropped => if mode = .handling then some .handling else none
  | .pushed .. | .deferred _ | .answered _ | .failed _ | .caught _ | .forked _ =>
    if mode = .handling then some .busy else none
  | .givenUp | .vacated => if mode = .steady then some .busy else none
  | .noticed =>
    match mode with
    | .steady => some .steady
    | .handling => some .busy
    | .busy => none

/-- The acts that may come next, one after the other. -/
def Allows : Mode → List Act → Prop
  | _, [] => True
  | mode, act :: acts => ∃ later, mode.next act = some later ∧ later.Allows acts

/-- The mode in which a step begins. -/
def opening : Progress → Mode
  | .running _ => .busy
  | _ => .steady

variable {mode : Mode} {acts more : List Act}

/-- What comes first is allowed on its own. -/
theorem Allows.left (allows : mode.Allows (acts ++ more)) : mode.Allows acts := by
  induction acts generalizing mode with
  | nil => trivial
  | cons act acts ih =>
      obtain ⟨later, hnext, hrest⟩ := allows
      exact ⟨later, hnext, ih hrest⟩

/-- What comes later is allowed in the mode that it comes in. -/
theorem Allows.right (allows : mode.Allows (acts ++ more)) : ∃ later : Mode, later.Allows more := by
  induction acts generalizing mode with
  | nil => exact ⟨mode, allows⟩
  | cons act acts ih =>
      obtain ⟨later, -, hrest⟩ := allows
      exact ih hrest

/-- No step begins in the middle of handling an effect. -/
theorem opening_ne_handling (progress : Progress) : opening progress ≠ .handling := by
  cases progress <;> simp [opening]

/-- Whatever may come while the stack is busy may come at any time. -/
theorem Allows.of_busy (allows : busy.Allows acts) : mode.Allows acts := by
  cases acts with
  | nil => trivial
  | cons act acts =>
      obtain ⟨later, hnext, hrest⟩ := allows
      refine ⟨later, ?_, hrest⟩
      cases act <;> first | exact hnext | cases hnext

end Mode

namespace Machine

open Mode

/-- What is allowed of dispatching the effect that an operation wraps is allowed of the core rule of the operation. -/
theorem allows_core (machine : Machine) (effect : Effect) (run : Run)
    (hwrapped : ∀ inner, effect.wrapped? = some inner → ∀ first run,
      handling.Allows (machine.dispatchActs inner first run ++ failureActs (machine.dispatch inner first run).failure)) :
    handling.Allows (machine.coreActs effect run ++ failureActs (machine.core effect run).failure) := by
  have hinPlace {inner : Effect} (hinner : effect.wrapped? = some inner) (position : Nat) : handling.Allows
      (machine.inPlaceActs inner position run ++ failureActs (machine.dispatchInPlace inner position run).failure) := by
    unfold inPlaceActs dispatchInPlace
    cases run.terminateTop with
    | ok after => exact ⟨handling, rfl, hwrapped inner hinner position after⟩
    | error error => exact ⟨busy, rfl, trivial⟩
  cases effect with
  | bare | execute | call | defer | generator | custom => exact ⟨busy, rfl, trivial⟩
  | fork inner =>
      simp only [core, coreActs, fork]
      split
      · exact ⟨busy, rfl, trivial⟩
      · exact ⟨busy, rfl, trivial⟩
  | start inner => exact hwrapped inner rfl 0 run
  | recover =>
      simp only [core, coreActs, catchActs]
      split
      · trivial
      · split
        · exact ⟨busy, rfl, trivial⟩
        · trivial
  | terminal inner => exact hinPlace rfl 0
  | next inner inPlace =>
      simp only [core, coreActs]
      cases delegation run inner with
      | error error => exact ⟨busy, rfl, trivial⟩
      | ok position =>
          cases inPlace with
          | false => exact hwrapped inner rfl position run
          | true => exact hinPlace rfl position

/-- Dispatching an effect drops frames and comes to one conclusion; a refusal fails the top frame. -/
theorem allows_dispatch (machine : Machine) (effect : Effect) (first : Nat) (run : Run) :
    handling.Allows
      (machine.dispatchActs effect first run ++ failureActs (machine.dispatch effect first run).failure) := by
  induction effect using Effect.wrapped_induction generalizing first run with
  | step effect ih =>
      rcases hselect : run.host.run (machine.registry.select effect.operation run.stack.context first) with ⟨choice, host⟩
      rw [dispatch_of_select hselect, dispatchActs_of_select hselect]
      cases choice with
      | some chosen => exact ⟨busy, rfl, trivial⟩
      | none => exact machine.allows_core effect { run with host } ih

/-- Handling an effect is allowed where an effect is to be handled. -/
theorem allows_handleActs (machine : Machine) (effect : Effect) (run : Run) :
    handling.Allows (machine.handleActs effect run) := by
  unfold handleActs
  split
  · exact ⟨busy, rfl, trivial⟩
  · exact machine.allows_dispatch effect 0 _

/-- Taking finished frames off the stack is allowed at any time. -/
theorem allows_unwindActsFrom (machine : Machine) (stack : Stack) (host : Host) (top : Frame)
    (below : List Frame) : busy.Allows (machine.unwindActsFrom stack host top below) := by
  induction below generalizing host top with
  | nil => trivial
  | cons parent rest ih =>
      unfold unwindActsFrom
      split
      · exact ⟨handling, rfl, machine.allows_handleActs _ _⟩
      · split
        · split <;> exact ⟨busy, rfl, ih _ _⟩
        · exact ⟨busy, rfl, trivial⟩

/-- Unwinding is allowed at any time. -/
theorem allows_unwindActs (machine : Machine) (run : Run) : busy.Allows (machine.unwindActs run) :=
  machine.allows_unwindActsFrom _ _ _ _

/-- Taking note of a cancellation is allowed before a turn. -/
theorem allows_noticeActs {acts : List Act} (run : Run) (allows : steady.Allows acts) :
    steady.Allows (noticeActs run ++ acts) := by
  unfold noticeActs
  split
  · exact ⟨steady, rfl, allows⟩
  · exact allows

/-- A turn of the top frame is allowed where it gets its turn. -/
theorem allows_turnActs (machine : Machine) (run : Run) : steady.Allows (machine.turnActs run) := by
  unfold turnActs
  refine allows_noticeActs run ?_
  generalize run.observeCancellation = noticed
  split
  · exact (machine.allows_unwindActs noticed).of_busy
  · split
    · exact ⟨busy, rfl, machine.allows_unwindActs _⟩
    · split
      · exact ⟨busy, rfl, trivial⟩
      · exact ⟨busy, rfl, trivial⟩
      · trivial
      · exact ⟨busy, rfl, machine.allows_unwindActs _⟩
      · exact ⟨busy, rfl, machine.allows_unwindActs _⟩

/-- A computation that performs an effect has it handled, unless a cancellation is noticed.  The frame was not
reached by an earlier one. -/
theorem allows_suspendActs (machine : Machine) (effect : Effect) (resume : Outcome → Body) (run : Run)
    (hkept : run.stack.top.cancellation = .none) :
    busy.Allows (machine.suspendActs effect resume run) := by
  refine ⟨handling, rfl, ?_⟩
  unfold noticeActs
  split
  · rename_i hnotice
    -- The frame is marked with all others, so that its effect is not handled.
    have hdue : (run.withTop fun frame =>
        { frame with progress := .suspended resume }).observeCancellation.stack.top.cancellation = .due := by
      rw [Run.observeCancellation, if_pos hnotice]
      simp [Run.emit, Run.withTop, Stack.withTop, Stack.markCanceled, Frame.markCanceled, hkept]
    rw [if_pos hdue]
    exact ⟨busy, rfl, trivial⟩
  · split
    · trivial
    · exact machine.allows_handleActs _ _

/-- The acts of a step come in the order that its mode allows. -/
theorem allows_stepActs (machine : Machine) (run : Run)
    (hkept : ∀ body, run.stack.top.progress = .running body → run.stack.top.cancellation = .none) :
    (opening run.stack.top.progress).Allows (machine.stepActs run) := by
  unfold stepActs
  cases hprogress : run.stack.top.progress with
  | running body =>
      have hown := hkept body hprogress
      cases body with
      | done outcome =>
          cases outcome with
          | ok value => exact ⟨busy, rfl, machine.allows_unwindActs _⟩
          | error error => exact ⟨busy, rfl, machine.allows_unwindActs _⟩
      | perform effect resume => exact machine.allows_suspendActs effect resume run hown
      | act action resume =>
          show busy.Allows (actActs action run)
          unfold actActs
          split <;> exact ⟨busy, rfl, trivial⟩
  | root | fresh _ | suspended _ | finished => exact machine.allows_turnActs run

end Machine

/-- Whether an act belongs to the handling of an effect. -/
def Act.handles : Act → Bool
  | .dropped | .pushed .. | .deferred _ | .answered _ | .failed _ | .caught _ | .forked _ => true
  | _ => false

/-- Whether an act belongs to taking finished frames off the stack. -/
def Act.unwinds (act : Act) : Bool :=
  match act with
  | .started _ | .left => true
  | _ => act.handles

/-- Whether an act belongs to a turn of a frame whose computation is not running. -/
def Act.turns (act : Act) : Bool :=
  match act with
  | .noticed | .givenUp | .vacated | .resumed _ => true
  | _ => act.unwinds

namespace Machine

/-- Dispatching an effect consists of acts of handling it. -/
theorem Dispatches.handles {machine : Machine} {effect : Effect} {first : Nat} {run : Run} {act : Act}
    (dispatches : machine.Dispatches effect first run act) : act.handles = true := by
  induction dispatches with
  | start _ ih | terminated _ _ ih | next _ _ ih | replaced _ _ _ ih => exact ih
  | _ => rfl

/-- Handling an effect consists of acts of handling it. -/
theorem handles_handleActs (machine : Machine) (effect : Effect) (run : Run) :
    ∀ act ∈ machine.handleActs effect run, act.handles = true := by
  intro act hmem
  rcases dispatches_of_mem_handleActs hmem with ⟨error, rfl⟩ | ⟨host, dispatches⟩
  · rfl
  · exact dispatches.handles

/-- Unwinding consists of frames that leave, and deferred effects that are started and handled. -/
theorem unwinds_unwindActs (machine : Machine) (run : Run) :
    ∀ act ∈ machine.unwindActs run, act.unwinds = true := by
  have hhandled (effect : Effect) (run : Run) : ∀ act ∈ machine.handleActs effect run, act.unwinds = true := by
    intro act hmem
    have hhandles := machine.handles_handleActs effect run act hmem
    unfold Act.unwinds
    split
    · rfl
    · rfl
    · exact hhandles
  have hfrom : ∀ stack host top below, ∀ act ∈ machine.unwindActsFrom stack host top below, act.unwinds = true := by
    intro stack host top below
    induction below generalizing host top with
    | nil => exact List.forall_mem_nil _
    | cons parent rest ih =>
        unfold unwindActsFrom
        split
        · exact List.forall_mem_cons.2 ⟨rfl, hhandled _ _⟩
        · split
          · split <;> exact List.forall_mem_cons.2 ⟨rfl, ih _ _⟩
          · exact List.forall_mem_singleton.2 rfl
  exact hfrom _ _ _ _

/-- A stack takes no note of a cancellation while it unwinds. -/
theorem noticed_not_mem_unwindActs (machine : Machine) (run : Run) : .noticed ∉ machine.unwindActs run :=
  fun hmem => Bool.false_ne_true (machine.unwinds_unwindActs run _ hmem)

/-- Nothing comes before the note of a cancellation if there is none after it. -/
theorem eq_nil_of_noticed {run : Run} {rest seen later : List Act} (hrest : .noticed ∉ rest)
    (hacts : noticeActs run ++ rest = seen ++ .noticed :: later) : seen = [] := by
  cases seen with
  | nil => rfl
  | cons act seen =>
      refine absurd ?_ hrest
      unfold noticeActs at hacts
      split at hacts
      · obtain ⟨-, rfl⟩ := List.cons.inj hacts
        simp
      · obtain rfl : rest = act :: seen ++ .noticed :: later := hacts
        simp

/-- A step takes note of a cancellation before it does anything, or right after an effect is performed. -/
theorem noticed_stepActs {machine : Machine} {run : Run} {seen later : List Act}
    (hacts : machine.stepActs run = seen ++ .noticed :: later) :
    seen = [] ∨ ∃ effect, seen = [.performed effect] := by
  have hunwind := machine.noticed_not_mem_unwindActs
  unfold stepActs at hacts
  split at hacts
  · rename_i outcome hrunning
    refine absurd (hacts ▸ List.mem_append_right _ List.mem_cons_self) ?_
    cases outcome <;> simp [completeActs, hunwind]
  · rename_i effect resume hrunning
    cases seen with
    | nil => exact .inl rfl
    | cons act seen =>
        unfold suspendActs at hacts
        obtain ⟨rfl, hrest⟩ := List.cons.inj hacts
        refine .inr ⟨effect, ?_⟩
        rw [eq_nil_of_noticed ?_ hrest]
        split
        · exact List.not_mem_nil
        · intro hmem
          cases machine.handles_handleActs _ _ _ hmem
  · rename_i action resume hrunning
    refine absurd (hacts ▸ List.mem_append_right _ List.mem_cons_self) ?_
    unfold actActs
    split <;> simp
  · unfold turnActs at hacts
    refine .inl (eq_nil_of_noticed ?_ hacts)
    split
    · exact hunwind _
    · split
      · simp [hunwind]
      · split <;> simp [hunwind]

/-- A turn of the top frame consists of taking note of a cancellation, resuming or ending its computation, and
unwinding. -/
theorem turns_turnActs (machine : Machine) (run : Run) : ∀ act ∈ machine.turnActs run, act.turns = true := by
  have hunwind (run : Run) : ∀ act ∈ machine.unwindActs run, act.turns = true := by
    intro act hmem
    have hunwinds := machine.unwinds_unwindActs run act hmem
    unfold Act.turns
    split <;> first | rfl | exact hunwinds
  unfold turnActs noticeActs
  refine List.forall_mem_append.2 ⟨?_, ?_⟩
  · split <;> simp [Act.turns]
  · split
    · exact hunwind _
    · split
      · exact List.forall_mem_cons.2 ⟨rfl, hunwind _⟩
      · split <;> first | exact List.forall_mem_singleton.2 rfl | exact List.forall_mem_nil _ |
          exact List.forall_mem_cons.2 ⟨rfl, hunwind _⟩

/-- No computation performs an effect while the stack gets a turn that is not its own. -/
theorem performed_not_mem_turnActs (machine : Machine) (run : Run) (effect : Effect) :
    .performed effect ∉ machine.turnActs run :=
  fun hmem => Bool.false_ne_true (machine.turns_turnActs run _ hmem)

/-- No computation ends by itself while the stack gets a turn that is not its own. -/
theorem completed_not_mem_turnActs (machine : Machine) (run : Run) (own : Outcome) :
    .completed own ∉ machine.turnActs run :=
  fun hmem => Bool.false_ne_true (machine.turns_turnActs run _ hmem)

end Machine

/-- A run whose top frame has performed an effect and waits. -/
def Run.asking (run : Run) (resume : Outcome → Body) : Run :=
  run.withTop fun frame => { frame with progress := .suspended resume }

namespace Machine

/-- A computation that performs an effect has it handled at once, unless the stack takes note of a cancellation, which is
then the last thing it does. -/
theorem stepActs_of_perform {machine : Machine} {run : Run} {effect : Effect} {resume : Outcome → Body}
    (hrunning : run.stack.top.progress = .running (.perform effect resume)) (hkept : run.stack.top.cancellation = .none) :
    machine.stepActs run = [.performed effect, .noticed] ∨
      machine.stepActs run = .performed effect :: machine.handleActs effect (run.asking resume) := by
  have hgoing : (run.asking resume).stack.top.cancellation ≠ .due := by
    show run.stack.top.cancellation ≠ .due
    simp [hkept]
  have hdue : (run.asking resume).stack.markCanceled.top.cancellation = .due := by
    show (Frame.markCanceled { run.stack.top with progress := .suspended resume }).cancellation = .due
    simp [Frame.markCanceled, hkept]
  have hacts : machine.stepActs run = machine.suspendActs effect resume run := by
    unfold stepActs
    simp only [hrunning]
  have hasking : (run.withTop fun frame => { frame with progress := .suspended resume }) = run.asking resume := rfl
  rw [hacts]
  simp only [suspendActs, noticeActs, Run.observeCancellation, hasking]
  split
  · exact .inl (congrArg (Act.performed effect :: Act.noticed :: ·) (if_pos hdue))
  · exact .inr rfl

/-- A step performs an effect only as the first thing that it does.  The effect is handled at once, unless the stack takes
note of a cancellation. -/
theorem handled_stepActs {machine : Machine} {run : Run} {seen later : List Act} {effect : Effect}
    (hkept : ∀ body, run.stack.top.progress = .running body → run.stack.top.cancellation = .none)
    (hacts : machine.stepActs run = seen ++ .performed effect :: later) :
    seen = [] ∧ ∃ resume, run.stack.top.progress = .running (.perform effect resume) ∧
      (later = [.noticed] ∨ later = machine.handleActs effect (run.asking resume)) := by
  have hunwind (run : Run) : .performed effect ∉ machine.unwindActs run :=
    fun hmem => Bool.false_ne_true (machine.unwinds_unwindActs run _ hmem)
  have hmem : .performed effect ∈ machine.stepActs run := by simp [hacts]
  unfold stepActs at hmem
  split at hmem
  · rename_i outcome hrunning
    cases outcome <;> simp [completeActs, hunwind] at hmem
  · rename_i other resume hrunning
    have hfirst (more : List Act) (hmore : .performed effect ∉ more)
        (hsteps : machine.stepActs run = .performed other :: more) : seen = [] ∧ other = effect ∧ later = more := by
      have hsame := hacts.symm.trans hsteps
      cases seen with
      | nil =>
          obtain ⟨hperformed, hrest⟩ := List.cons.inj hsame
          exact ⟨rfl, (Act.performed.inj hperformed).symm, hrest⟩
      | cons act seen => exact absurd (by simp [← (List.cons.inj hsame).2]) hmore
    rcases stepActs_of_perform hrunning (hkept _ hrunning) with hsteps | hsteps
    · obtain ⟨rfl, rfl, rfl⟩ := hfirst _ (by simp) hsteps
      exact ⟨rfl, resume, hrunning, .inl rfl⟩
    · have hquiet : .performed effect ∉ machine.handleActs other (run.asking resume) :=
        fun hmem => absurd (machine.handles_handleActs _ _ _ hmem) Bool.false_ne_true
      obtain ⟨rfl, rfl, rfl⟩ := hfirst _ hquiet hsteps
      exact ⟨rfl, resume, hrunning, .inr rfl⟩
  · unfold actActs at hmem
    split at hmem <;> simp at hmem
  · exact absurd hmem (machine.performed_not_mem_turnActs run effect)

end Machine

/-- Whether an effect is still to be handled after an act. -/
def Act.prompts (prompted : Bool) : Act → Bool
  | .performed _ | .started _ => true
  | .dropped => prompted
  | _ => false

/-- Every act of handling an effect goes back to a computation that performed it, or to a frame that started it,
among these acts; or else to what prompted it before. -/
def Prompted : Bool → List Act → Prop
  | _, [] => True
  | prompted, act :: acts => (act.handles = true → prompted = true) ∧ Prompted (act.prompts prompted) acts

namespace Prompted

variable {prompted : Bool} {acts more : List Act}

/-- What needs no earlier prompt does not mind one. -/
theorem of_false (hprompted : Prompted false acts) : Prompted prompted acts := by
  induction acts generalizing prompted with
  | nil => trivial
  | cons act acts ih =>
      obtain ⟨hact, hrest⟩ := hprompted
      refine ⟨fun hhandles => absurd (hact hhandles) (by simp), ?_⟩
      cases act with
      | dropped => exact absurd (hact rfl) (by simp)
      | _ => exact hrest

theorem append (hfirst : Prompted prompted acts) (hmore : Prompted false more) :
    Prompted prompted (acts ++ more) := by
  induction acts generalizing prompted with
  | nil => exact hmore.of_false
  | cons act acts ih => exact ⟨hfirst.1, ih hfirst.2⟩

/-- What comes later goes back to what prompted it. -/
theorem right (hprompted : Prompted prompted (acts ++ more)) : ∃ now, Prompted now more := by
  induction acts generalizing prompted with
  | nil => exact ⟨prompted, hprompted⟩
  | cons head acts ih => exact ih hprompted.2

/-- An act of handling an effect is the first one, or follows one that prompted it. -/
theorem herald {act : Act} (hprompted : Prompted prompted (acts ++ act :: more)) (hhandles : act.handles = true) :
    (acts = [] ∧ prompted = true) ∨ ∃ earlier last, acts = earlier ++ [last] ∧ last.prompts true = true := by
  rcases List.eq_nil_or_concat acts with rfl | ⟨earlier, last, rfl⟩
  · exact .inl ⟨rfl, hprompted.1 hhandles⟩
  · rw [List.concat_eq_append, List.append_assoc] at hprompted
    obtain ⟨now, -, hnow⟩ := hprompted.right
    have hprompts := hnow.1 hhandles
    refine .inr ⟨earlier, last, List.concat_eq_append, ?_⟩
    cases last with
    | dropped => rfl
    | _ => exact hprompts

/-- The order of acts within a step allows no handling without a prompt. -/
theorem of_allows {mode : Mode} (allows : mode.Allows acts) :
    Prompted (decide (mode = .handling)) acts := by
  induction acts generalizing mode with
  | nil => trivial
  | cons act acts ih =>
      obtain ⟨later, hnext, hrest⟩ := allows
      have hlater := ih hrest
      cases mode <;> cases act <;> cases hnext <;> exact ⟨by simp [Act.handles], hlater⟩

/-- Taking note of a cancellation ends the handling of an effect. -/
theorem of_noticed {mode : Mode} {seen later : List Act} (allows : mode.Allows (seen ++ .noticed :: later)) :
    Prompted false later := by
  obtain ⟨middle, after, hnext, hrest⟩ := allows.right
  have hprompted := of_allows hrest
  have hafter : after ≠ .handling := by
    rintro rfl
    cases middle <;> cases hnext
  rwa [decide_eq_false hafter] at hprompted

end Prompted
end EffectMachine
