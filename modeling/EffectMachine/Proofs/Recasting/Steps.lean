import EffectMachine.Proofs.Recasting.Handling

/-!
# Steps of what was recast

A step looks at programs and contexts only when it hands effects to the machine, and at the signal only when it looks for a
cancellation.  So it is the same step after recasting, if the effects are handled alike and the same is seen of the signal.

* `Frame.hands` lists the effects that a frame may hand to the machine.
* `Recasting.HandlesAll` says that all effects are handled alike that were deferred on some frames.
* `Recasting.Notices` says that a run takes note of a cancellation as what replaces it does.
* `Recasting.step` is the main statement.
-/

namespace EffectMachine

/-- The effects that a frame may hand to the machine. -/
def Frame.hands (frame : Frame) : List Effect :=
  match frame.progress with
  | .running (.perform effect _) => effect :: frame.defers
  | _ => frame.defers

theorem Frame.mem_hands_of_mem_defers {frame : Frame} {effect : Effect} (hmem : effect ∈ frame.defers) :
    effect ∈ frame.hands := by
  unfold hands
  split
  · exact List.mem_cons_of_mem _ hmem
  · exact hmem

/-- Whether the next step of a frame looks for a cancellation: all do but those of a computation that does something by
itself or ends. -/
def Frame.looks (frame : Frame) : Bool :=
  match frame.progress with
  | .running (.done _) | .running (.act ..) => false
  | _ => true

namespace Recasting

/-- All effects are handled alike that were deferred on some frames. -/
def HandlesAll (recasting : Recasting) (machine other : Machine) (context : Context) (frames : List Frame) : Prop :=
  ∀ frame ∈ frames, ∀ effect ∈ frame.defers, recasting.Handles machine other context effect

/-- A run takes note of a cancellation if and only if what replaces it does. -/
def Notices (recasting : Recasting) (run : Run) : Prop :=
  Machine.noticeActs (recasting.run run) = Machine.noticeActs run

variable {recasting : Recasting} {machine other : Machine}

/-- If signals are kept, the same is noticed. -/
theorem notices_of_signal (hsignal : recasting.signal = id) (run : Run) : recasting.Notices run := by
  have hcanceled : (recasting.run run).host.isCanceled = run.host.isCanceled := funext (recasting.isCanceled_host run.host)
  unfold Notices Machine.noticeActs
  rw [hcanceled, show (recasting.run run).stack.signal = recasting.signal run.stack.signal from rfl, hsignal]
  rfl

theorem noticeActs_map (run : Run) : (Machine.noticeActs run).map recasting.act = Machine.noticeActs run := by
  unfold Machine.noticeActs
  split <;> rfl

theorem observeCancellation {run : Run} (hnotices : recasting.Notices run) :
    (recasting.run run).observeCancellation = recasting.run run.observeCancellation := by
  unfold Notices Machine.noticeActs at hnotices
  unfold Run.observeCancellation
  split
  · rename_i hother
    rw [if_pos hother] at hnotices
    split at hnotices
    · rename_i hnotice
      have hheight : (recasting.run run).stack.height = run.stack.height := recasting.height_stack run.stack
      have hmarked : (recasting.run run).stack.markCanceled = _ := recasting.stack_markCanceled run.stack
      rw [if_pos hnotice, hheight, hmarked]
      rfl
    · cases hnotices
  · rename_i hother
    rw [if_neg hother] at hnotices
    split at hnotices
    · cases hnotices
    · rename_i hnotice
      rw [if_neg hnotice]

/-! ## Unwinding -/

/-- Finished frames leave in the same way. -/
theorem unwindFrom (stack : Stack) (host : Host) (top : Frame) (below : List Frame)
    (hall : recasting.HandlesAll machine other stack.context (top :: below)) :
    other.unwindFrom (recasting.stack stack) (recasting.host host) (recasting.frame top) (below.map recasting.frame) =
        recasting.run (machine.unwindFrom stack host top below) ∧
      other.unwindActsFrom (recasting.stack stack) (recasting.host host) (recasting.frame top) (below.map recasting.frame) =
        (machine.unwindActsFrom stack host top below).map recasting.act := by
  induction below generalizing host top with
  | nil => exact ⟨rfl, rfl⟩
  | cons parent rest ih =>
      obtain ⟨htop, hbelow⟩ := List.forall_mem_cons.1 hall
      obtain ⟨hparent, hrest⟩ := List.forall_mem_cons.1 hbelow
      have hmapped : (recasting.frame top).defers = top.defers.map recasting.effect := rfl
      have hresult (frame : Frame) : (recasting.frame frame).result = frame.result := rfl
      simp only [Machine.unwindFrom, Machine.unwindActsFrom, List.map_cons, hmapped]
      cases hdefers : top.defers with
      | cons effect defers =>
          obtain ⟨hafter, hacts⟩ := handle
            { stack := { stack with top := { top with defers }, below := parent :: rest }
              host := host.emit (.deferredStarted effect.kind) } (htop effect (by simp [hdefers]))
          simp only [List.map_cons, kind_effect]
          exact ⟨hafter, congrArg (List.cons (Act.started (recasting.effect effect))) hacts⟩
      | nil =>
          -- each way of leaving goes on with the frame below, whose deferred effects are the same
          have hleave (later : Host) (next : Frame) (hnext : next.defers = parent.defers) :=
            ih later next (List.forall_mem_cons.2 ⟨hnext ▸ hparent, hrest⟩)
          simp only [List.map_nil, isFinished_frame, hresult]
          split
          · cases top.result with
            | ok value =>
                obtain ⟨hafter, hacts⟩ := hleave host parent rfl
                exact ⟨hafter, congrArg (List.cons Act.left) hacts⟩
            | error error =>
                cases parent.result with
                | ok value =>
                    obtain ⟨hafter, hacts⟩ := hleave host { parent with result := .error error } rfl
                    exact ⟨hafter, congrArg (List.cons Act.left) hacts⟩
                | error existing =>
                    obtain ⟨hafter, hacts⟩ := hleave (host.emit (.deferredFailed error existing)) parent rfl
                    exact ⟨hafter, congrArg (List.cons Act.left) hacts⟩
          · exact ⟨rfl, rfl⟩

theorem unwind (run : Run) (hall : recasting.HandlesAll machine other run.stack.context run.frames) :
    other.unwind (recasting.run run) = recasting.run (machine.unwind run) ∧
      other.unwindActs (recasting.run run) = (machine.unwindActs run).map recasting.act :=
  unwindFrom run.stack run.host run.stack.top run.stack.below hall

/-- The computation of the top frame ends in the same way. -/
theorem finishTop (outcome : Outcome) (run : Run)
    (hall : recasting.HandlesAll machine other run.stack.context run.frames) :
    other.finishTop outcome (recasting.run run) = recasting.run (machine.finishTop outcome run) ∧
      other.unwindActs (Machine.finished outcome (recasting.run run)) =
        (machine.unwindActs (Machine.finished outcome run)).map recasting.act := by
  have hfinished : Machine.finished outcome (recasting.run run) = recasting.run (Machine.finished outcome run) :=
    congrArg (Run.mk _) (recasting.host_close run.host run.stack.top.answerable)
  obtain ⟨htop, hbelow⟩ := List.forall_mem_cons.1 hall
  show other.unwind (Machine.finished outcome (recasting.run run)) = _ ∧ _
  rw [hfinished]
  exact unwind (Machine.finished outcome run) (List.forall_mem_cons.2 ⟨htop, hbelow⟩)

theorem complete (outcome : Outcome) (run : Run)
    (hall : recasting.HandlesAll machine other run.stack.context run.frames) :
    other.complete outcome (recasting.run run) = recasting.run (machine.complete outcome run) ∧
      other.completeActs outcome (recasting.run run) = (machine.completeActs outcome run).map recasting.act := by
  cases outcome with
  | ok value =>
      obtain ⟨hafter, hacts⟩ := finishTop (.ok value) run hall
      exact ⟨hafter, congrArg (List.cons (Act.completed (.ok value))) hacts⟩
  | error error =>
      have hlabels : (recasting.run run).stack.labels = run.stack.labels := recasting.labels_stack run.stack
      obtain ⟨hafter, hacts⟩ := finishTop (.error error) (run.emit (.computationFailed error run.stack.labels)) hall
      simp only [Machine.complete, Machine.completeActs, hlabels]
      exact ⟨hafter, congrArg (List.cons (Act.completed (.error error))) hacts⟩

/-! ## Turns -/

/-- The top frame is resumed, given up or taken off the stack in the same way. -/
theorem turn (run : Run) (hnotices : recasting.Notices run)
    (hall : recasting.HandlesAll machine other run.stack.context run.frames) :
    other.turn (recasting.run run) = recasting.run (machine.turn run) ∧
      other.turnActs (recasting.run run) = (machine.turnActs run).map recasting.act := by
  have hsame : recasting.HandlesAll machine other run.observeCancellation.stack.context run.observeCancellation.frames := by
    intro frame hframe effect heffect
    obtain ⟨earlier, hearlier, hdefers⟩ := Machine.exists_of_mem_observeCancellation hframe
    rw [Machine.context_observeCancellation]
    exact hall earlier hearlier effect (hdefers ▸ heffect)
  unfold Machine.turn Machine.turnActs
  rw [show Machine.noticeActs (recasting.run run) = _ from hnotices, observeCancellation hnotices, List.map_append, noticeActs_map]
  generalize run.observeCancellation = noticed at hsame
  have hfinished : (recasting.run noticed).stack.top.isFinished = noticed.stack.top.isFinished :=
    recasting.isFinished_frame noticed.stack.top
  dsimp only
  rw [hfinished, show (recasting.run noticed).stack.top.cancellation = noticed.stack.top.cancellation from rfl]
  split
  · obtain ⟨hafter, hacts⟩ := unwind noticed hsame
    exact ⟨hafter, congrArg (Machine.noticeActs run ++ ·) hacts⟩
  · split
    · obtain ⟨hafter, hacts⟩ := finishTop (.ok .null)
        (noticed.withTop fun frame => { frame with cancellation := .applied })
        (List.forall_mem_cons.2 (List.forall_mem_cons.1 hsame))
      exact ⟨hafter, congrArg (Machine.noticeActs run ++ Act.givenUp :: ·) hacts⟩
    · obtain ⟨hafter, hacts⟩ := finishTop (.ok .null) noticed hsame
      rw [show (recasting.run noticed).stack.top.progress = recasting.progress noticed.stack.top.progress from rfl]
      cases noticed.stack.top.progress with
      | fresh body | suspended resume => exact ⟨rfl, congrArg (Machine.noticeActs run ++ ·) rfl⟩
      | running body => exact ⟨rfl, congrArg (Machine.noticeActs run ++ ·) rfl⟩
      | root | finished => exact ⟨hafter, congrArg (Machine.noticeActs run ++ Act.vacated :: ·) hacts⟩

/-! ## Steps -/

/-- An effect is performed in the same way. -/
theorem suspend {effect : Effect} (resume : Outcome → Body) (run : Run)
    (hnotices : recasting.Notices (run.withTop fun frame => { frame with progress := .suspended resume }))
    (hhandles : recasting.Handles machine other run.stack.context effect) :
    other.suspend (recasting.effect effect) (fun outcome => recasting.body (resume outcome)) (recasting.run run) =
        recasting.run (machine.suspend effect resume run) ∧
      other.suspendActs (recasting.effect effect) (fun outcome => recasting.body (resume outcome)) (recasting.run run) =
        (machine.suspendActs effect resume run).map recasting.act := by
  have hwaiting : ((recasting.run run).withTop fun frame =>
        { frame with progress := .suspended fun outcome => recasting.body (resume outcome) }) =
      recasting.run (run.withTop fun frame => { frame with progress := .suspended resume }) := rfl
  have hcontext : (run.withTop fun frame => { frame with progress := .suspended resume }).stack.context =
      run.stack.context := rfl
  unfold Machine.suspend Machine.suspendActs
  rw [hwaiting]
  revert hcontext hnotices
  generalize (run.withTop fun frame => { frame with progress := .suspended resume }) = waiting
  intro hnotices hcontext
  obtain ⟨hafter, hacts⟩ :=
    handle waiting.observeCancellation ((Machine.context_observeCancellation waiting).trans hcontext ▸ hhandles)
  dsimp only
  rw [show Machine.noticeActs (recasting.run waiting) = _ from hnotices, observeCancellation hnotices,
    show (recasting.run waiting.observeCancellation).stack.top.cancellation =
    waiting.observeCancellation.stack.top.cancellation from rfl, kind_effect, List.map_append, List.map_cons, noticeActs_map]
  split
  · exact ⟨rfl, rfl⟩
  · exact ⟨hafter, congrArg (Act.performed (recasting.effect effect) :: Machine.noticeActs waiting ++ ·) hacts⟩

/-- The computation of the top frame does the same by itself. -/
theorem step_act (action : Action) (resume : action.Reply → Body) (run : Run) :
    Machine.act action (fun reply => recasting.body (resume reply)) (recasting.run run) =
        recasting.stepped recasting.stack (Machine.act action resume run) ∧
      Machine.actActs action (recasting.run run) = (Machine.actActs action run).map recasting.act := by
  unfold Machine.act Machine.actActs
  rw [show (recasting.run run).host.react action = _ from recasting.react run.host action]
  cases run.host.react action <;> exact ⟨rfl, rfl⟩

theorem run_stepped (stepped : Stepped Stack) :
    (recasting.stepped recasting.stack stepped).run = recasting.run stepped.run := by
  cases stepped <;> rfl

/-- A stack does the same step. -/
theorem step (run : Run) (hnotices : run.stack.top.looks = true → recasting.Notices run)
    (hhands : ∀ frame ∈ run.frames, ∀ effect ∈ frame.hands, recasting.Handles machine other run.stack.context effect) :
    other.step (recasting.run run) = recasting.stepped recasting.stack (machine.step run) ∧
      other.stepActs (recasting.run run) = (machine.stepActs run).map recasting.act := by
  have hall : recasting.HandlesAll machine other run.stack.context run.frames :=
    fun frame hframe effect heffect => hhands frame hframe effect (Frame.mem_hands_of_mem_defers heffect)
  have hmoved {next later : Run} (hnext : next = recasting.run later) :
      Machine.moved next = recasting.stepped recasting.stack (Machine.moved later) := congrArg Machine.moved hnext
  unfold Frame.looks at hnotices
  simp only [Machine.step, Machine.stepActs,
    show (recasting.run run).stack.top.progress = recasting.progress run.stack.top.progress from rfl]
  cases hprogress : run.stack.top.progress with
  | running body =>
      cases body with
      | done outcome =>
          obtain ⟨hafter, hacts⟩ := complete outcome run hall
          simp only [progress, body_done]
          exact ⟨hmoved hafter, hacts⟩
      | perform effect resume =>
          obtain ⟨hafter, hacts⟩ := suspend resume run (hnotices (by rw [hprogress]))
            (hhands run.stack.top List.mem_cons_self effect (by simp [Frame.hands, hprogress]))
          simp only [progress, body_perform]
          exact ⟨hmoved hafter, hacts⟩
      | act action resume =>
          simp only [progress, body_act]
          exact step_act action resume run
  | root | fresh | suspended | finished =>
      obtain ⟨hafter, hacts⟩ := turn run (hnotices (by rw [hprogress])) hall
      exact ⟨hmoved hafter, hacts⟩

end Recasting
end EffectMachine
