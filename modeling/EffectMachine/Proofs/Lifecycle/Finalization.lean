import EffectMachine.Proofs.Interleaving.Execution
import EffectMachine.Proofs.Interleaving.Interruptions
import EffectMachine.Proofs.Lifecycle.Stages

/-!
# When listeners are finalized

The lifecycle of a managed operation is the computation of one frame, and the operation is handled on top of
that frame.  Whatever the hooks and the operation end with, the computation goes on to finalize all listeners;
but it does not go on at all once its frame is given up or discarded, which can only happen while the
operation runs.

* `Manager.Finalizes` says that a computation ends with finalizing all listeners, each once, after everything
  else, and `Manager.Forsakes` that it comes no further than the operation.
* `Manager.Fate` is what becomes of the listeners of a managed operation.
* `Runs.fate_of_managed` is the main statement: one of these is the fate of every managed operation, and it is
  finalization unless the stack takes note of a cancellation or the frame is discarded.
-/

namespace EffectMachine

namespace Manager

/-- The computation of a managed operation ends with finalizing all listeners: when nothing but that is left to
do, all of these hooks are carried out to their ends, each once, and after them there are no more. -/
def Finalizes (manager : Manager) (operation : Effect) (context : Context) (path : List Act) : Prop :=
  ∃ earlier finalization later error outcome failures result,
    path = earlier ++ (finalization ++ (later ++ [.completed result])) ∧
    Reaches (manager.execute operation context) earlier (manager.finish error outcome) ∧
    Hook.Carried (manager.listeners.map fun listener => listener.finalize error) (Hook.steps finalization)
      failures ∧
    Hook.steps later = []

/-- The computation of a managed operation comes no further than the operation: all listeners were prepared
without a failure, and no other hook was started. -/
def Forsakes (manager : Manager) (operation : Effect) (context : Context) (path : List Act) : Prop :=
  ∃ earlier failures resume, path = earlier ++ [.performed (.next operation false)] ∧
    Reaches (manager.execute operation context) earlier (.perform (.next operation false) resume) ∧
    Hook.Carried (manager.listeners.map fun listener => listener.prepare context) (Hook.steps earlier) failures ∧
    ∀ failure ∈ failures, failure = none

variable {manager : Manager} {operation : Effect} {context : Context} {acts : List Act}

/-- The computation of a managed operation finalizes all listeners, unless it comes no further than the
operation. -/
theorem finalizes_or_forsakes (stops : Stops (manager.execute operation context) acts) :
    manager.Finalizes operation context acts ∨ manager.Forsakes operation context acts := by
  rcases stops_execute stops with
    ⟨attempt, reporting, rest, attempted, reported, rfl, hreaches, -, -, hstops⟩ |
    ⟨earlier, resume, rfl, hreaches, -, failures, hcarried, hwell⟩
  · obtain ⟨finalizing, result, rfl, hclosing⟩ := stops_finish hstops
    obtain ⟨failures, hcarried⟩ := hclosing.exists_carried
    exact .inl ⟨_, finalizing, [], _, _, failures, result, by simp, hreaches, hcarried, rfl⟩
  · exact .inr ⟨earlier, failures, resume, rfl, hreaches, hcarried, List.filterMap_eq_nil_iff.1 hwell⟩

/-- A computation that comes no further than the operation does not end. -/
theorem Forsakes.not_mem_completed (forsakes : manager.Forsakes operation context acts) (outcome : Outcome) :
    .completed outcome ∉ acts := by
  obtain ⟨earlier, failures, resume, rfl, hreaches, -, -⟩ := forsakes
  have hnot {body left : Body} {acts : List Act} (hreaches : Reaches body acts left) : .completed outcome ∉ acts := by
    induction hreaches with
    | here body => exact List.not_mem_nil
    | act _ ih => simpa using ih
    | perform _ ih => simpa using ih
  simpa using hnot hreaches

/-- A computation that finalizes the listeners ends. -/
theorem Finalizes.eq_concat (finalizes : manager.Finalizes operation context acts) :
    ∃ earlier result, acts = earlier ++ [.completed result] := by
  obtain ⟨earlier, finalization, later, _, _, _, result, rfl, -⟩ := finalizes
  exact ⟨earlier ++ (finalization ++ later), result, by simp⟩

/-- What becomes of the listeners of a managed operation, by the acts of its frame. -/
inductive Fate (manager : Manager) (operation : Effect) (context : Context) (life : List Act) : Prop
  /-- All listeners are finalized, each once, after everything else. -/
  | finalized (begun : Outcome) {path : List Act} (hstrides : strides life = .resumed begun :: path)
      (hfinalizes : manager.Finalizes operation context path)
  /-- The stack is canceled before any listener is prepared. -/
  | unbegun (hstrides : strides life = [.givenUp])
  /-- The stack is canceled while the operation runs: no listener is finalized. -/
  | givenUp (begun : Outcome) {path : List Act} (hstrides : strides life = .resumed begun :: path ++ [.givenUp])
      (hforsakes : manager.Forsakes operation context path)
  /-- A terminal operation discards the frame while the operation runs: no listener is finalized. -/
  | discarded (begun : Outcome) {path : List Act} (hstrides : strides life = .resumed begun :: path)
      (hforsakes : manager.Forsakes operation context path) (hdropped : .dropped ∈ life)

end Manager

open Manager in
/-- Once a process is at rest, the listeners of every managed operation on its stack were finalized, each once
and after everything else, unless the stack took note of a cancellation before or during the operation or the
frame of the lifecycle was discarded during it.  In these cases no listener is finalized. -/
theorem Runs.fate_of_managed {machine : Machine} {first : Host} {trace : Trace} {system : System} {task : TaskId}
    {number : Nat} {manager : Manager} {operation : Effect} {context : Context} {name : Option String}
    {tag : Option HandlerTag} (runs : Runs machine first trace system) (hrest : system.AtRest task)
    (hpushed : .pushed ⟨name, manager.execute operation context⟩ tag ∈ life (deeds trace task) number) :
    manager.Fate operation context (life (deeds trace task) number) ∧
      (.noticed ∉ deeds trace task → .dropped ∉ life (deeds trace task) number →
        ∃ begun path, strides (life (deeds trace task) number) = .resumed begun :: path ∧
          manager.Finalizes operation context path) := by
  -- what comes no further than the operation without being given up was discarded
  have hdropped {begun : Outcome} {path : List Act}
      (hstrides : strides (life (deeds trace task) number) = .resumed begun :: path)
      (hforsakes : manager.Forsakes operation context path) (hkept : .givenUp ∉ path) :
      .dropped ∈ life (deeds trace task) number := by
    by_contra hnot
    have hgoing : .givenUp ∉ life (deeds trace task) number := fun hmem => by
      have hstride := mem_strides.2 ⟨hmem, rfl⟩
      rw [hstrides] at hstride
      exact hkept (by simpa using hstride)
    obtain ⟨outcome, hcompleted⟩ := runs.completed_of_rest hrest hpushed hgoing hnot
    have hstride := mem_strides.2 ⟨hcompleted, rfl⟩
    rw [hstrides] at hstride
    exact hforsakes.not_mem_completed outcome (by simpa using hstride)
  -- what was given up came no further than the operation
  have hgivenUp {path : List Act} {effect : Effect}
      (hstops : Stops (manager.execute operation context) (path ++ [.performed effect])) :
      manager.Forsakes operation context (path ++ [.performed effect]) := by
    refine (finalizes_or_forsakes hstops).resolve_left fun hfinalizes => ?_
    obtain ⟨earlier, result, hlast⟩ := hfinalizes.eq_concat
    cases (List.append_inj' hlast rfl).2
  have hfate : manager.Fate operation context (life (deeds trace task) number) := by
    have hstopped := runs.stopped hrest hpushed
    generalize hstrides : strides (life (deeds trace task) number) = acts at hstopped
    cases hstopped with
    | unbegun => exact .unbegun hstrides
    | @byItself begun path hstops =>
        rcases finalizes_or_forsakes hstops with hfinalizes | hforsakes
        · exact .finalized begun hstrides hfinalizes
        · refine .discarded begun hstrides hforsakes (hdropped hstrides hforsakes fun hmem => ?_)
          have hnot {body : Body} {acts : List Act} (hstops : Stops body acts) : .givenUp ∉ acts := by
            induction hstops with
            | done | asked => simp
            | act _ ih | perform _ ih => simpa using ih
          exact hnot hstops hmem
    | @givenUp begun path effect hstops =>
        refine .givenUp begun ?_ (hgivenUp hstops)
        rw [hstrides]
        simp
  refine ⟨hfate, fun hquiet hkept => ?_⟩
  have hgoing : .givenUp ∉ strides (life (deeds trace task) number) := fun hmem =>
    runs.not_mem_givenUp hquiet number (mem_strides.1 hmem).1
  cases hfate with
  | finalized begun hstrides hfinalizes => exact ⟨begun, _, hstrides, hfinalizes⟩
  | unbegun hstrides => exact absurd (by simp [hstrides]) hgoing
  | givenUp begun hstrides _ => exact absurd (by simp [hstrides]) hgoing
  | discarded begun _ _ hdropped => exact absurd hdropped hkept

/-! ## Two managed runs -/

namespace Manager

/-- A manager with one listener, which logs when it is prepared and when it is finalized. -/
def watchful : Manager where
  listeners :=
    [{ prepare := fun _ => .log (.told "l" "initialize" (.ok .null)) .idle
       finalize := fun _ => .log (.told "l" "finalize" (.ok .null)) .idle }]

/-- A machine whose start operations run under this manager. -/
def watching : Machine where
  registry := { handlers := (plugin fun _ => some watchful).handlers }
  library := ⟨fun _ _ => default⟩

/-- A client that submits an effect, after some steps. -/
def submitting (effect : Effect) (steps : Nat) : Trace × System :=
  (System.submitting (.blank 0) effect).execute watching (steps + 1)

/-- The submitted effect is managed by the first frame of the client. -/
theorem mem_life_submitting (effect : Effect) (steps : Nat)
    (hvalid : watching.registry.validate (.start effect) = .done none) :
    .pushed ⟨some "task", watchful.execute (.start effect) (.blank 0)⟩ (some ⟨Kind.start, 0⟩) ∈
      life (deeds (submitting effect steps).1 ⟨0⟩) 1 := by
  have hsubmission : watching.submission effect = .start effect := by
    have hstart : watching.registry.hasHandlers Kind.start = true := by decide +kernel
    simp [Machine.submission, hstart]
  have hhandlers : watching.registry.handlersOf (Effect.start effect).operation.kind =
      [.ofHandle fun operation context => .named "task" (watchful.execute operation context)] := by
    simp [Registry.handlersOf, watching, plugin, Plugin.intercepting, Effect.operation, Effect.kind]
  rw [submitting, Runs.deeds_submitted, hsubmission, Machine.handleActs_of_handler hvalid hhandlers]
  exact mem_life_append _ List.mem_cons_self

/-- Whether an act is the end of a computation. -/
def ends : Act → Bool
  | .completed _ | .givenUp => true
  | _ => false

/-- A run that ends with a value. -/
def plain : Trace × System :=
  submitting (.bare (.ready (.int 1))) 40

/-- An operation that ends by itself leaves all listeners finalized. -/
theorem fate_of_plain :
    ∃ begun path, strides (life (deeds plain.1 ⟨0⟩) 1) = .resumed begun :: path ∧
      watchful.Finalizes (.start (.bare (.ready (.int 1)))) (.blank 0) path := by
  have hruns : Runs watching _ plain.1 plain.2 := Runs.submitted watching (.blank 0) _ 41
  have hrest : plain.2.AtRest ⟨0⟩ := .of_isNone (by decide +kernel)
  have huncut : (deeds plain.1 ⟨0⟩).any Act.cuts = false := by decide +kernel
  have hpushed := mem_life_submitting (.bare (.ready (.int 1))) 40 rfl
  exact (hruns.fate_of_managed hrest hpushed).2 (Act.not_mem_of_any huncut rfl)
    fun hmem => Act.not_mem_of_any huncut rfl (mem_of_mem_life hmem)

/-- A run of a terminal operation, which discards the frame of the lifecycle. -/
def terminal : Trace × System :=
  submitting (.terminal (.bare (.ready (.int 1)))) 40

/-- A terminal operation leaves its listeners prepared and not finalized. -/
theorem forsakes_of_terminal :
    ∃ begun path, strides (life (deeds terminal.1 ⟨0⟩) 1) = .resumed begun :: path ∧
      watchful.Forsakes (.start (.terminal (.bare (.ready (.int 1))))) (.blank 0) path := by
  have hruns : Runs watching _ terminal.1 terminal.2 := Runs.submitted watching (.blank 0) _ 41
  have hrest : terminal.2.AtRest ⟨0⟩ := .of_isNone (by decide +kernel)
  have hgoing : (strides (life (deeds terminal.1 ⟨0⟩) 1)).any ends = false := by decide +kernel
  have hnot (act : Act) (hends : ends act = true) : act ∉ strides (life (deeds terminal.1 ⟨0⟩) 1) := fun hmem => by
    have hany : (strides (life (deeds terminal.1 ⟨0⟩) 1)).any ends = true := List.any_eq_true.2 ⟨act, hmem, hends⟩
    rw [hgoing] at hany
    cases hany
  have hpushed := mem_life_submitting (.terminal (.bare (.ready (.int 1)))) 40 rfl
  cases (hruns.fate_of_managed hrest hpushed).1 with
  | finalized begun hstrides hfinalizes =>
      obtain ⟨earlier, result, rfl⟩ := hfinalizes.eq_concat
      exact absurd (by simp [hstrides]) (hnot (.completed result) rfl)
  | unbegun hstrides => exact absurd (by simp [hstrides]) (hnot .givenUp rfl)
  | givenUp begun hstrides _ => exact absurd (by simp [hstrides]) (hnot .givenUp rfl)
  | discarded begun hstrides hforsakes _ => exact ⟨begun, _, hstrides, hforsakes⟩

end Manager
end EffectMachine
