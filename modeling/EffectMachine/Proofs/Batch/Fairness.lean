import EffectMachine.Proofs.Batch.Plain
import EffectMachine.Proofs.Interleaving.Origins

/-!
# Only the batch plugin takes part in batches

On a machine whose programs leave batches to the plugin, every frame of every process runs a fair computation, a flush
or the service of a batched call.  Flushes may be passed on by handlers that are given them; if no plugin intercepts
the running and the forking of computations, no program ever holds one.

* `Frame.Fair` and `Activity.Fair` say of frames and of processes that they perform fair effects and launch flushes
  only.
* `Batch.Setting.fair` says that this is always so, and that all acts are fair.
* `Batch.Setting.exists_runnable` is what other modules use: whatever a computation does, it was pushed as one that is
  fair, a flush or the service of a batched call.
-/

namespace EffectMachine

variable {underlying : Nat → Function} {passed : BatchGroup → Prop} {machine : Machine}

/-- A computation performs fair effects only, wherever it has come to. -/
def Progress.Fair (underlying : Nat → Function) (passed : BatchGroup → Prop) : Progress → Prop
  | .fresh body | .running body => body.Fair underlying passed
  | .suspended resume => ∀ answer, (resume answer).Fair underlying passed
  | .root | .finished => True

/-- A frame performs fair effects only, and only such effects were deferred on it. -/
structure Frame.Fair (underlying : Nat → Function) (passed : BatchGroup → Prop) (frame : Frame) : Prop where
  progress : frame.progress.Fair underlying passed
  defers : ∀ effect ∈ frame.defers, effect.Fair underlying passed

/-- All frames of a run are fair. -/
def Run.Fair (underlying : Nat → Function) (passed : BatchGroup → Prop) (run : Run) : Prop :=
  ∀ frame ∈ run.frames, frame.Fair underlying passed

namespace Frame

/-- A fair frame stays fair when it is marked as canceled. -/
theorem Fair.markCanceled {frame : Frame} (hfair : frame.Fair underlying passed) :
    frame.markCanceled.Fair underlying passed := by
  unfold Frame.markCanceled
  split
  · exact ⟨hfair.progress, hfair.defers⟩
  · exact hfair

/-- A fair act keeps the top frame fair. -/
theorem Does.fair {frame after : Frame} {act : Act} (hdoes : frame.Does act after)
    (hact : act.Fair underlying passed) (hfair : frame.Fair underlying passed) : after.Fair underlying passed := by
  have hprogress := hfair.progress
  cases hdoes with
  | tell act result htells => exact ⟨hfair.progress, hfair.defers⟩
  | defer effect => exact ⟨hfair.progress, List.forall_mem_cons.2 ⟨hact, hfair.defers⟩⟩
  | start effect defers hfinished hdefers =>
      refine ⟨hfair.progress, fun effect hmem => hfair.defers effect ?_⟩
      rw [hdefers]
      exact List.mem_cons_of_mem _ hmem
  | notice => exact hfair.markCanceled
  | begin body hfresh hkept =>
      rw [hfresh] at hprogress
      exact ⟨hprogress, hfair.defers⟩
  | resume resume hsuspended hkept =>
      rw [hsuspended] at hprogress
      exact ⟨hprogress frame.result, hfair.defers⟩
  | act action resume reply hrunning =>
      rw [hrunning] at hprogress
      cases hprogress with
      | act hresume => exact ⟨hresume reply, hfair.defers⟩
  | wait action resume hrunning => exact hfair
  | perform effect resume hrunning =>
      rw [hrunning] at hprogress
      cases hprogress with
      | perform heffect hresume => exact ⟨hresume, hfair.defers⟩
  | complete | giveUp | vacate => exact ⟨trivial, hfair.defers⟩

/-- An act that is about another frame keeps a frame fair. -/
theorem Beside.fair {frame after : Frame} {act : Act} (hbeside : frame.Beside act after)
    (hfair : frame.Fair underlying passed) : after.Fair underlying passed := by
  cases hbeside with
  | same => exact hfair
  | marked => exact hfair.markCanceled
  | received result => exact ⟨hfair.progress, hfair.defers⟩
  | robbed error => exact ⟨hfair.progress, hfair.defers⟩

end Frame

/-- The frames that an act is not about stay fair. -/
theorem BesideAll.fair {frames after : List Frame} {act : Act} (hbeside : BesideAll frames act after)
    (hfair : ∀ frame ∈ frames, frame.Fair underlying passed) : ∀ frame ∈ after, frame.Fair underlying passed := by
  induction hbeside with
  | nil => exact hfair
  | cons hfirst _ ih =>
      obtain ⟨htop, hrest⟩ := List.forall_mem_cons.1 hfair
      exact List.forall_mem_cons.2 ⟨hfirst.fair htop, ih hrest⟩

/-- A fair act keeps the frames of a run fair. -/
theorem FramesDo.fair {frames after : List Frame} {act : Act} (hframes : FramesDo frames act after)
    (hact : act.Fair underlying passed) (hfair : ∀ frame ∈ frames, frame.Fair underlying passed) :
    ∀ frame ∈ after, frame.Fair underlying passed := by
  cases hframes with
  | push _ computation tag =>
      have hpushed : (Frame.ofComputation computation tag).Fair underlying passed :=
        ⟨Batch.Runnable.body hact, List.forall_mem_nil _⟩
      exact List.forall_mem_cons.2 ⟨hpushed, hfair⟩
  | drop top => exact (List.forall_mem_cons.1 hfair).2
  | leave top hfinished hdefers hbeside => exact hbeside.fair (List.forall_mem_cons.1 hfair).2
  | top hdoes hbeside =>
      obtain ⟨htop, hrest⟩ := List.forall_mem_cons.1 hfair
      exact List.forall_mem_cons.2 ⟨hdoes.fair hact htop, hbeside.fair hrest⟩

/-- A fair run stays fair through fair acts. -/
theorem Run.Chain.fair {run final : Run} {acts : List Act} (hchain : Chain run acts final)
    (hacts : ∀ act ∈ acts, act.Fair underlying passed) (hfair : run.Fair underlying passed) : final.Fair underlying passed := by
  induction hchain with
  | done run => exact hfair
  | quiet host hquiet _ ih => exact ih hacts hfair
  | act hdoes _ ih =>
      obtain ⟨hact, hrest⟩ := List.forall_mem_cons.1 hacts
      exact ih hrest (hdoes.frames.fair hact hfair)

/-- What a process is doing performs fair effects only, and clients are plain. -/
def Activity.Fair (underlying : Nat → Function) (passed : BatchGroup → Prop) : Activity → Prop
  | .forked _ effect =>
    effect.Fair underlying passed ∨ ∃ computation, Batch.Flushes underlying computation ∧ effect = .bare computation
  | .task stack => ∀ frame ∈ stack.top :: stack.below, frame.Fair underlying passed
  | .run stack resume =>
    (∀ frame ∈ stack.top :: stack.below, frame.Fair underlying passed) ∧ ∀ outcome, (resume outcome).Plain underlying passed
  | .client errand => errand.Plain underlying passed
  | .gathering .. | .ended _ => True

namespace Batch.Setting

variable (setting : Setting machine underlying) (hpassed : (∀ group, passed group) ∨ Unintercepted machine)
include setting hpassed

/-- A step of a fair stack does nothing but fair acts. -/
theorem fair_stepActs {run : Run} (hfair : run.Fair underlying passed) :
    ∀ act ∈ machine.stepActs run, act.Fair underlying passed := by
  have hhandled {effect : Effect} (heffect : effect.Fair underlying passed ∨ Launches underlying effect) :
      machine.HandlesOnly run.stack.context (Act.Fair underlying passed) effect := fun later _ => by
    rcases heffect with hfair | hlaunches
    · exact setting.fair_handleActs later hfair
    · exact setting.fair_launched hpassed later (.inl hlaunches)
  refine Machine.forall_mem_stepActs (fun act hquiet => ?_) run (fun effect resume hrunning => ?_) ?_
  · cases act with
    | pushed | forked | deferred | started | performed => cases hquiet
    | _ => trivial
  · have hprogress := (hfair _ List.mem_cons_self).progress
    rw [hrunning] at hprogress
    cases hprogress with
    | perform heffect hresume => exact ⟨heffect, hhandled heffect⟩
  · intro frame hframe effect hmem
    have heffect := (hfair frame hframe).defers effect hmem
    exact ⟨heffect, hhandled (.inl heffect)⟩

/-- A step keeps a process fair, and whatever it adds is fair. -/
theorem fair_advances {task : TaskId} {host later : Host} {activity after : Activity} {own : List Act}
    (hadvances : machine.Advances task host activity own after later) (hfair : activity.Fair underlying passed) :
    (∀ act ∈ own, act.Fair underlying passed) ∧ after.Fair underlying passed ∧
      ∀ other, Machine.Adds activity own other → other.Fair underlying passed := by
  have hadds (hown : ∀ act ∈ own, act.Fair underlying passed) (other : Activity) (hadds : Machine.Adds activity own other) :
      other.Fair underlying passed := by
    cases hadds with
    | forked context hforked => exact hown _ hforked
    | sentOut hjoin hmem =>
        rw [hjoin] at hfair
        exact Errand.plain_of_mem hfair hmem
  have hbegin (context : Context) (signal : Option TaskId) {effect : Effect}
      (heffect : effect.Fair underlying passed ∨
        ∃ computation, Flushes underlying computation ∧ effect = .bare computation) :
      (∀ act ∈ machine.handleActs effect { stack := { context, signal }, host }, act.Fair underlying passed) ∧
        (machine.begin context signal effect host).Fair underlying passed := by
    have hacts : ∀ act ∈ machine.handleActs effect { stack := { context, signal }, host },
        act.Fair underlying passed := by
      rcases heffect with hfair | hflush
      · exact setting.fair_handleActs _ hfair
      · exact setting.fair_launched hpassed _ (.inr hflush)
    refine ⟨hacts, (machine.handle_chain effect _).fair hacts ?_⟩
    exact List.forall_mem_singleton.2 ⟨trivial, List.forall_mem_nil _⟩
  have hstep (stack : Stack) (hstack : ∀ frame ∈ stack.top :: stack.below, frame.Fair underlying passed) :
      (∀ act ∈ machine.stepActs { stack, host }, act.Fair underlying passed) ∧
        ∀ frame ∈ (machine.step { stack, host }).next.top :: (machine.step { stack, host }).next.below,
          frame.Fair underlying passed := by
    have hrun : Run.Fair underlying passed { stack, host } := hstack
    have hacts := setting.fair_stepActs hpassed hrun
    have hfinal := (machine.step_chain { stack, host }).fair hacts hstack
    rw [Stepped.run_eq] at hfinal
    exact ⟨hacts, hfinal⟩
  have hnone : ∀ act ∈ ([] : List Act), act.Fair underlying passed := List.forall_mem_nil _
  cases hadvances with
  | begin context effect =>
      obtain ⟨hacts, hrun⟩ := hbegin context (some task) hfair
      exact ⟨hacts, hrun, hadds hacts⟩
  | step stack habove =>
      obtain ⟨hacts, hnext⟩ := hstep stack hfair
      exact ⟨hacts, hnext, hadds hacts⟩
  | submit context effect resume =>
      have hsubmission : (machine.submission effect).Fair underlying passed := by
        unfold Machine.submission
        split <;> exact hfair.1
      obtain ⟨hacts, hrun⟩ := hbegin context none (.inl hsubmission)
      exact ⟨hacts, ⟨hrun, hfair.2⟩, hadds hacts⟩
  | runStep stack resume habove =>
      obtain ⟨hacts, hnext⟩ := hstep stack hfair.1
      exact ⟨hacts, ⟨hnext, hfair.2⟩, hadds hacts⟩
  | runEnd stack resume hbelow => exact ⟨hnone, hfair.2 _, hadds hnone⟩
  | act context action resume reply later hreact => exact ⟨hnone, hfair.2 reply, hadds hnone⟩
  | wait => exact ⟨hnone, hfair, hadds hnone⟩
  | settle | done | sendOut | gather | «await» | report | rest => exact ⟨hnone, trivial, hadds hnone⟩

/-- All acts are fair, and so is what the processes are doing. -/
theorem fair {first : Host} {trace : Trace} {system : System} (fresh : Fresh underlying first)
    (runs : Runs machine first trace system) :
    (∀ entry ∈ trace, entry.2.Fair underlying passed) ∧
      ∀ activity ∈ system.parked.activities, activity.Fair underlying passed := by
  refine runs.ledger (Q := fun trace host => (∀ entry ∈ trace, entry.2.Fair underlying passed) ∧
    ∀ activity ∈ host.activities, activity.Fair underlying passed) (fun _ => ⟨List.forall_mem_nil _, ?_⟩) ?_ ?_
  · intro activity hmem
    obtain ⟨process, hprocess, rfl⟩ := List.mem_map.1 hmem
    obtain ⟨errand, hclient, hplain⟩ := fresh.clients process hprocess
    rw [hclient]
    exact hplain passed
  · rintro trace host other hlike ⟨hacts, hactivities⟩
    have hsame : host.activities = other.activities := congrArg (List.map Process.activity) hlike.processes
    exact ⟨hacts, hsame ▸ hactivities⟩
  · rintro trace system task activity after own later runs hcurrent hadvances ⟨hacts, hactivities⟩
    rw [Host.activities_park] at hactivities
    obtain ⟨process, hprocess, -⟩ := runs.sound task activity hcurrent
    have hborn : task.index < system.host.activities.length := by
      rw [Host.activities, List.length_map]
      exact (List.getElem?_eq_some_iff.1 hprocess).1
    obtain ⟨hown, hafter, hadds⟩ := setting.fair_advances hpassed hadvances (hactivities _ (List.mem_set hborn _))
    obtain ⟨added, hadded, hmembers⟩ := hadvances.activities
    constructor
    · intro entry hmem
      rcases List.mem_append.1 hmem with hearlier | hlater
      · exact hacts entry hearlier
      · obtain ⟨act, hact, rfl⟩ := List.mem_map.1 hlater
        exact hown act hact
    · rw [Host.activities_park, hadded]
      intro other hmem
      obtain ⟨index, hindex⟩ := List.mem_iff_getElem?.1 hmem
      rw [List.getElem?_set] at hindex
      split at hindex
      · split at hindex
        · cases hindex
          exact hafter
        · cases hindex
      · -- the other processes are those of before and those that were added
        rename_i hother
        rcases List.mem_append.1 (List.mem_of_getElem? hindex) with hold | hnew
        · by_cases hless : index < system.host.activities.length
          · rw [List.getElem?_append_left hless] at hindex
            refine hactivities other (List.mem_of_getElem? (i := index) ?_)
            rw [List.getElem?_set, if_neg hother]
            exact hindex
          · rw [List.getElem?_append_right (Nat.le_of_not_lt hless)] at hindex
            exact hadds other (hmembers other (List.mem_of_getElem? hindex))
        · exact hadds other (hmembers other hnew)

variable {first : Host} {trace : Trace} {system : System} {task : TaskId} {number : Nat} {act : Act}

/-- All acts of a process are fair. -/
theorem fair_of_mem (fresh : Fresh underlying first) (runs : Runs machine first trace system)
    (hmem : act ∈ deeds trace task) : act.Fair underlying passed :=
  (setting.fair hpassed fresh runs).1 _ (mem_deeds_iff.1 hmem)

/-- Whatever a computation does, it was pushed as one that is fair or serves a batched call. -/
theorem exists_runnable (fresh : Fresh underlying first) (runs : Runs machine first trace system)
    (hstride : act.isStride = true) (hmem : act ∈ life (deeds trace task) number) :
    ∃ computation tag, Runnable underlying passed computation ∧
      .pushed computation tag ∈ life (deeds trace task) number := by
  obtain ⟨computation, tag, hpushed⟩ := runs.exists_pushed hstride hmem
  exact ⟨computation, tag, setting.fair_of_mem hpassed fresh runs (mem_of_mem_life hpushed), hpushed⟩

end Batch.Setting
end EffectMachine
