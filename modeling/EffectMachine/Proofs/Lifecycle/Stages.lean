import EffectMachine.Lifecycle.Manager
import EffectMachine.Proofs.Lifecycle.Hooks

/-!
# The stages of a managed operation

The lifecycle of a managed operation is the body of one computation.  Its strides fall into stages, each of which
carries out the hooks of one kind and leaves behind an error when some of them failed.

* `Manager.Staged` are the acts of a stage whose hooks all run together, and the error it leaves behind.
* `Manager.Attempt` is how an operation is attempted, with one constructor for each way in which that ends;
  `Manager.Reporting` and `Manager.Closing` are what follows it.
* `Manager.stops_execute` is the main statement: the computation of a managed operation is an attempt, a report
  and a finalization, unless it comes no further than the operation.
-/

namespace EffectMachine

/-- The error that an outcome is, if it is one. -/
def Outcome.failure? : Outcome → Option Error
  | .ok _ => none
  | .error error => some error

namespace Manager

/-- Goes on with the rest unless there was a failure, which then is the outcome. -/
def unlessFailed (next : Outcome → Body) (rest : Body) : Option Cause → Body :=
  raised fun
    | some error => next (.error error)
    | none => rest

/-- Completes an operation that has succeeded, and goes on with the outcome. -/
def complete (manager : Manager) (value : Value) (next : Outcome → Body) : Body :=
  Hook.inSequence
    (unlessFailed next
      (stage "completion" (manager.listeners.map fun listener => listener.complete value)
        (unlessFailed next (next (.ok value)))))
    (manager.listeners.map fun listener => listener.preComplete value)

/-- Goes on with what the operation has ended with. -/
def afterwards (manager : Manager) (next : Outcome → Body) : Outcome → Body
  | .error error => next (.error error)
  | .ok value => manager.complete value next

/-- An operation is run once all listeners are prepared. -/
theorem run_eq (manager : Manager) (operation : Effect) (context : Context) (next : Outcome → Body) :
    manager.run operation context next =
      Hook.together true
        (fun failures =>
          unlessFailed next (.perform (.next operation false) (manager.afterwards next)) (failures.findSome? id))
        (manager.listeners.map fun listener => listener.prepare context) := by
  refine congrArg (Hook.together true · _) (funext fun failures => ?_)
  refine congrArg (unlessFailed next · _) (congrArg (Body.perform _) (funext fun outcome => ?_))
  cases outcome <;> rfl

/-! ## What the stages are -/

/-- All hooks of a stage are carried out together, by acts of the computation alone.  When some of them failed the
stage leaves behind an error with exactly their causes, in the order of the hooks. -/
inductive Staged (name : String) (hooks : List Hook) : List Act → Option Error → Prop
  | well {acts : List Act} {failures : List (Option Cause)} (halone : Alone acts)
      (hcarried : Hook.Carried hooks (Hook.steps acts) failures) (hwell : failures.filterMap id = []) :
      Staged name hooks acts none
  | failed {acts : List Act} {failures : List (Option Cause)} (identity : Nat) (halone : Alone acts)
      (hcarried : Hook.Carried hooks (Hook.steps acts) failures) (hfailed : failures.filterMap id ≠ []) :
      Staged name hooks (acts ++ [.acted (.mint 1) identity])
        (some (.failed ⟨identity, .listeners name (failures.filterMap id)⟩))

/-- All listeners are prepared, none of them with a failure. -/
def Prepared (manager : Manager) (context : Context) (acts : List Act) : Prop :=
  Alone acts ∧ ∃ failures,
    Hook.Carried (manager.listeners.map fun listener => listener.prepare context) (Hook.steps acts) failures ∧
    failures.filterMap id = []

/-- How an operation that gave a value is completed: the listeners may object, one after another, and when none
does all are told of the completion. -/
inductive Completion (manager : Manager) (value : Value) : List Act → Outcome → Prop
  | objected {objecting : List Act} {cause : Cause} (identity : Nat) (halone : Alone objecting)
      (hobjected : Hook.Sequence (manager.listeners.map fun listener => listener.preComplete value)
        (Hook.steps objecting) (some cause)) :
      Completion manager value (objecting ++ [.acted (.mint 1) identity]) (.error (.failed ⟨identity, cause⟩))
  | incomplete {objecting completing : List Act} {error : Error} (halone : Alone objecting)
      (hunopposed : Hook.Sequence (manager.listeners.map fun listener => listener.preComplete value)
        (Hook.steps objecting) none)
      (hincomplete : Staged "completion" (manager.listeners.map fun listener => listener.complete value) completing
        (some error)) :
      Completion manager value (objecting ++ completing) (.error error)
  | completed {objecting completing : List Act} (halone : Alone objecting)
      (hunopposed : Hook.Sequence (manager.listeners.map fun listener => listener.preComplete value)
        (Hook.steps objecting) none)
      (hcompleted : Staged "completion" (manager.listeners.map fun listener => listener.complete value) completing
        none) :
      Completion manager value (objecting ++ completing) (.ok value)

/-- How an operation is attempted: all listeners are prepared, the operation is run, and what gave a value is
completed. -/
inductive Attempt (manager : Manager) (operation : Effect) (context : Context) : List Act → Outcome → Prop
  /-- A listener fails to be prepared, and the operation is not run. -/
  | unprepared {preparing : List Act} {cause : Cause} (identity : Nat) (halone : Alone preparing)
      (hdropped : Hook.Dropped (manager.listeners.map fun listener => listener.prepare context)
        (Hook.steps preparing) cause) :
      Attempt manager operation context (preparing ++ [.acted (.mint 1) identity])
        (.error (.failed ⟨identity, cause⟩))
  /-- The operation fails. -/
  | failed {preparing : List Act} (error : Error) (hprepared : manager.Prepared context preparing) :
      Attempt manager operation context
        (preparing ++ [.performed (.next operation false), .resumed (.error error)]) (.error error)
  /-- The operation gives a value, and is completed or not. -/
  | gave {preparing completing : List Act} {value : Value} {outcome : Outcome}
      (hprepared : manager.Prepared context preparing) (hcompletion : manager.Completion value completing outcome) :
      Attempt manager operation context
        (preparing ++ .performed (.next operation false) :: .resumed (.ok value) :: completing) outcome

/-- How the listeners are told of an error: not at all when there is none.  A failure of theirs replaces it. -/
inductive Reporting (manager : Manager) : Outcome → List Act → Outcome → Prop
  | needless (value : Value) : Reporting manager (.ok value) [] (.ok value)
  | told {error : Error} {telling : List Act}
      (htold : Staged "error handling" (manager.listeners.map fun listener => listener.error error) telling none) :
      Reporting manager (.error error) (.acted (.emit (.taskFailed error)) () :: telling) (.error error)
  | replaced {error failure : Error} {telling : List Act}
      (hfailed : Staged "error handling" (manager.listeners.map fun listener => listener.error error) telling
        (some failure)) :
      Reporting manager (.error error)
        (.acted (.emit (.taskFailed error)) () :: telling ++ [.acted (.emit (.errorListenersFailed failure)) ()])
        (.error failure)

/-- How all listeners are finalized.  A failure of theirs replaces the outcome. -/
inductive Closing (manager : Manager) (error : Option Error) (outcome : Outcome) : List Act → Outcome → Prop
  | kept {acts : List Act}
      (hfinalized : Staged "finalization" (manager.listeners.map fun listener => listener.finalize error) acts none) :
      Closing manager error outcome acts outcome
  | replaced {acts : List Act} {failure : Error}
      (hfailed : Staged "finalization" (manager.listeners.map fun listener => listener.finalize error) acts
        (some failure)) :
      Closing manager error outcome (acts ++ [.acted (.emit (.finalizationFailed failure)) ()]) (.error failure)

/-- All hooks of a stage are carried out, whatever it leaves behind. -/
theorem Staged.exists_carried {name : String} {hooks : List Hook} {acts : List Act} {error : Option Error}
    (staged : Staged name hooks acts error) : ∃ failures, Hook.Carried hooks (Hook.steps acts) failures := by
  cases staged with
  | well _ hcarried _ => exact ⟨_, hcarried⟩
  | failed identity _ hcarried _ =>
      rw [Hook.steps_append]
      exact ⟨_, (List.append_nil (Hook.steps _)).symm ▸ hcarried⟩

/-- All listeners are finalized, whatever becomes of the outcome. -/
theorem Closing.exists_carried {manager : Manager} {error : Option Error} {outcome result : Outcome} {acts : List Act}
    (closing : manager.Closing error outcome acts result) :
    ∃ failures, Hook.Carried (manager.listeners.map fun listener => listener.finalize error) (Hook.steps acts)
      failures := by
  cases closing with
  | kept hfinalized => exact hfinalized.exists_carried
  | replaced hfailed =>
      rw [Hook.steps_append]
      exact (List.append_nil (Hook.steps _)).symm ▸ hfailed.exists_carried

end Manager

/-! ## What they end with -/

/-- A computation is not resumed while it does something by itself. -/
theorem resumptions_of_alone {acts : List Act} (halone : Alone acts) : resumptions acts = [] := by
  refine List.filterMap_eq_nil_iff.2 fun act hmem => ?_
  obtain ⟨action, reply, rfl⟩ := halone act hmem
  rfl

theorem alone_append {acts more : List Act} (halone : Alone acts) (hmore : Alone more) : Alone (acts ++ more) :=
  List.forall_mem_append.2 ⟨halone, hmore⟩

theorem alone_minted (identity : Nat) : Alone [.acted (.mint 1) identity] :=
  List.forall_mem_singleton.2 ⟨_, _, rfl⟩

theorem alone_emitted (event : Event) : Alone [.acted (.emit event) ()] :=
  List.forall_mem_singleton.2 ⟨_, _, rfl⟩

namespace Manager

variable {manager : Manager} {operation : Effect} {context : Context} {acts : List Act} {value : Value}

theorem Staged.alone {name : String} {hooks : List Hook} {error : Option Error} (staged : Staged name hooks acts error) :
    Alone acts := by
  cases staged with
  | well halone _ _ => exact halone
  | failed identity halone _ _ => exact alone_append halone (alone_minted identity)

/-- A stage leaves behind no error exactly when none of its hooks fails. -/
theorem Staged.eq_none_iff {name : String} {hooks : List Hook} {error : Option Error}
    (staged : Staged name hooks acts error) : error = none ↔ ∀ hook ∈ hooks, hook.failure? = none := by
  cases staged with
  | well _ hcarried hwell => simpa using hcarried.filterMap_eq_nil_iff.1 hwell
  | failed identity _ hcarried hfailed => simpa using mt hcarried.filterMap_eq_nil_iff.2 hfailed

theorem Completion.alone {outcome : Outcome} (completion : manager.Completion value acts outcome) : Alone acts := by
  cases completion with
  | objected identity halone _ => exact alone_append halone (alone_minted identity)
  | incomplete halone _ hstaged | completed halone _ hstaged => exact alone_append halone hstaged.alone

theorem Reporting.alone {attempted reported : Outcome} (reporting : manager.Reporting attempted acts reported) :
    Alone acts := by
  cases reporting with
  | needless => exact List.forall_mem_nil _
  | told htold => exact List.forall_mem_cons.2 ⟨⟨_, _, rfl⟩, htold.alone⟩
  | replaced hfailed =>
      exact List.forall_mem_cons.2 ⟨⟨_, _, rfl⟩, alone_append hfailed.alone (alone_emitted _)⟩

theorem Closing.alone {error : Option Error} {reported result : Outcome}
    (closing : manager.Closing error reported acts result) : Alone acts := by
  cases closing with
  | kept hfinalized => exact hfinalized.alone
  | replaced hfailed => exact alone_append hfailed.alone (alone_emitted _)

/-- Completing an operation ends well exactly when no listener objects and none fails when it is told. -/
theorem Completion.eq_ok_iff {outcome : Outcome} (completion : manager.Completion value acts outcome) (other : Value) :
    outcome = .ok other ↔ value = other ∧ ∀ listener ∈ manager.listeners,
      (listener.preComplete value).failure? = none ∧ (listener.complete value).failure? = none := by
  cases completion with
  | objected identity _ hobjected =>
      obtain ⟨hook, hmem, hfailed⟩ := List.exists_of_findSome?_eq_some hobjected.eq_findSome?.symm
      obtain ⟨listener, hlistener, rfl⟩ := List.mem_map.1 hmem
      refine iff_of_false nofun fun hwell => ?_
      rw [(hwell.2 listener hlistener).1] at hfailed
      cases hfailed
  | incomplete _ _ hstaged =>
      refine iff_of_false nofun fun hwell => nomatch hstaged.eq_none_iff.2 fun hook hmem => ?_
      obtain ⟨listener, hlistener, rfl⟩ := List.mem_map.1 hmem
      exact (hwell.2 listener hlistener).2
  | completed _ hunopposed hstaged =>
      have hobjects := List.findSome?_eq_none_iff.1 hunopposed.eq_findSome?.symm
      have htold := hstaged.eq_none_iff.1 rfl
      simp only [List.forall_mem_map] at hobjects htold
      simpa using fun _ listener hmem => ⟨hobjects listener hmem, htold listener hmem⟩

/-- An attempt ends well exactly when the operation did, and no listener failed before or after it. -/
theorem Attempt.eq_ok_iff {outcome : Outcome} (attempt : manager.Attempt operation context acts outcome) (value : Value) :
    outcome = .ok value ↔ resumptions acts = [.ok value] ∧ ∀ listener ∈ manager.listeners,
      (listener.prepare context).failure? = none ∧ (listener.preComplete value).failure? = none ∧
        (listener.complete value).failure? = none := by
  cases attempt with
  | unprepared identity halone _ =>
      refine iff_of_false nofun fun hwell => ?_
      rw [resumptions_of_alone (alone_append halone (alone_minted identity))] at hwell
      cases hwell.1
  | failed error hprepared =>
      refine iff_of_false nofun fun hwell => ?_
      rw [resumptions_append, resumptions_of_alone hprepared.1] at hwell
      cases hwell.1
  | @gave preparing completing gave _ hprepared hcompletion =>
      have hresumptions : resumptions (preparing ++ .performed (.next operation false) :: .resumed (.ok gave) ::
          completing) = [.ok gave] := by
        rw [resumptions_append, resumptions_of_alone hprepared.1]
        exact congrArg (_ :: ·) (resumptions_of_alone hcompletion.alone)
      obtain ⟨-, failures, hcarried, hwell⟩ := hprepared
      have hprepares := hcarried.filterMap_eq_nil_iff.1 hwell
      simp only [List.forall_mem_map] at hprepares
      rw [hcompletion.eq_ok_iff, hresumptions]
      constructor
      · rintro ⟨rfl, hagrees⟩
        exact ⟨rfl, fun listener hmem => ⟨hprepares listener hmem, hagrees listener hmem⟩⟩
      · rintro ⟨hgave, hagrees⟩
        cases hgave
        exact ⟨rfl, fun listener hmem => (hagrees listener hmem).2⟩

/-- A managed operation ends well exactly when the attempt did, and no listener fails to be finalized. -/
theorem Closing.eq_ok_iff {attempted reported result : Outcome} {reporting finalizing : List Act}
    (closing : manager.Closing attempted.failure? reported finalizing result)
    (hreporting : manager.Reporting attempted reporting reported) (value : Value) :
    result = .ok value ↔ attempted = .ok value ∧ ∀ listener ∈ manager.listeners,
      (listener.finalize none).failure? = none := by
  -- the attempt ends well exactly when there is nothing to report
  have hattempted : reported = .ok value ↔ attempted = .ok value := by
    cases hreporting with
    | needless => exact Iff.rfl
    | told | replaced => exact iff_of_false nofun nofun
  cases closing with
  | kept hfinalized =>
      rw [hattempted]
      refine ⟨?_, And.left⟩
      rintro rfl
      have hfinalizes := hfinalized.eq_none_iff.1 rfl
      simp only [List.forall_mem_map] at hfinalizes
      exact ⟨rfl, hfinalizes⟩
  | replaced hfailed =>
      refine iff_of_false nofun ?_
      rintro ⟨rfl, hfinalizes⟩
      exact nomatch hfailed.eq_none_iff.2 (List.forall_mem_map.2 hfinalizes)

end Manager

/-! ## The strides of a managed operation -/

namespace Stops

open Hook

variable {acts : List Act}

/-- An event is reported before anything else happens. -/
theorem emit {event : Event} {rest : Body} (stops : Stops (.emit event rest) acts) :
    ∃ later, acts = .acted (.emit event) () :: later ∧ Stops rest later := by
  cases stops with
  | act rest => exact ⟨_, rfl, rest⟩

/-- A computation that performs an effect waits for its outcome, or goes on with it. -/
theorem asks {effect : Effect} {resume : Outcome → Body} (stops : Stops (.perform effect resume) acts) :
    acts = [.performed effect] ∨
      ∃ answer rest, acts = .performed effect :: .resumed answer :: rest ∧ Stops (resume answer) rest := by
  cases stops with
  | asked => exact .inl rfl
  | perform rest => exact .inr ⟨_, _, rfl, rest⟩

/-- A failure is made an error before anything else happens. -/
theorem raised {next : Option Error → Body} {cause : Cause} (stops : Stops (Manager.raised next (some cause)) acts) :
    ∃ identity rest, acts = [.acted (.mint 1) identity] ++ rest ∧
      Works (Manager.raised next (some cause)) [.acted (.mint 1) identity] (next (some (.failed ⟨identity, cause⟩))) ∧
      Stops (next (some (.failed ⟨identity, cause⟩))) rest := by
  cases stops with
  | act rest => exact ⟨_, _, rfl, .act (.here _), rest⟩

/-- A stage is carried out, and the computation goes on with the error it leaves behind. -/
theorem stage {name : String} {hooks : List Hook} {next : Option Error → Body}
    (stops : Stops (Manager.stage name hooks (Manager.raised next)) acts) :
    ∃ first rest error, acts = first ++ rest ∧ Works (Manager.stage name hooks (Manager.raised next)) first (next error) ∧
      Manager.Staged name hooks first error ∧ Stops (next error) rest := by
  obtain ⟨first, rest, failures, rfl, hworks, hstops, ⟨hcarried, -⟩ | ⟨heager, -⟩⟩ := stops.together
  · rw [List.nil_append] at hcarried
    by_cases hwell : failures.filterMap id = []
    · have hnone : Manager.stageFailure name failures = none := by rw [Manager.stageFailure, hwell]
      simp only [hnone] at hworks hstops
      exact ⟨first, rest, none, rfl, hworks, .well hworks.alone hcarried hwell, hstops⟩
    · have hsome : Manager.stageFailure name failures = some (.listeners name (failures.filterMap id)) := by
        unfold Manager.stageFailure
        split
        · exact absurd ‹_› hwell
        · rfl
      simp only [hsome] at hworks hstops
      obtain ⟨identity, rest, rfl, hraised, hstops⟩ := hstops.raised
      exact ⟨_, rest, _, (List.append_assoc ..).symm, hworks.trans hraised,
        .failed identity hworks.alone hcarried hwell, hstops⟩
  · cases heager

end Stops

namespace Manager

variable {manager : Manager} {operation : Effect} {context : Context} {acts : List Act}

/-- Finalizing carries out the hooks of all listeners, and then nothing is left but to end. -/
theorem stops_finish {error : Option Error} {outcome : Outcome} (stops : Stops (manager.finish error outcome) acts) :
    ∃ finalizing result, acts = finalizing ++ [.completed result] ∧
      manager.Closing error outcome finalizing result := by
  obtain ⟨first, rest, failure, rfl, -, hstaged, hstops⟩ := Stops.stage stops
  cases failure with
  | none =>
      cases hstops
      exact ⟨first, outcome, rfl, .kept hstaged⟩
  | some failure =>
      obtain ⟨last, rfl, hend⟩ := Stops.emit hstops
      cases hend
      exact ⟨_, _, List.append_cons .., .replaced hstaged⟩

/-- Telling the listeners of an error goes on with an outcome. -/
theorem stops_report {error : Error} {next : Outcome → Body} (stops : Stops (manager.report error next) acts) :
    ∃ first rest outcome, acts = first ++ rest ∧ Works (manager.report error next) first (next outcome) ∧
      manager.Reporting (.error error) first outcome ∧ Stops (next outcome) rest := by
  obtain ⟨acts, rfl, htold⟩ := Stops.emit stops
  obtain ⟨first, rest, failure, rfl, hworks, hstaged, hstops⟩ := Stops.stage htold
  have hreported : Works (manager.report error next) (.acted (.emit (.taskFailed error)) () :: first) _ := .act hworks
  cases failure with
  | none => exact ⟨_, rest, _, rfl, hreported, .told hstaged, hstops⟩
  | some failure =>
      obtain ⟨rest, rfl, hend⟩ := Stops.emit hstops
      exact ⟨_, rest, _, by simp, hreported.trans (.act (.here _)), .replaced hstaged, hend⟩

/-- Completing an operation goes on with an outcome. -/
theorem stops_complete {value : Value} {next : Outcome → Body} (stops : Stops (manager.complete value next) acts) :
    ∃ first rest outcome, acts = first ++ rest ∧ Works (manager.complete value next) first (next outcome) ∧
      manager.Completion value first outcome ∧ Stops (next outcome) rest := by
  obtain ⟨objecting, rest, objection, rfl, hobjecting, hsequence, hstops⟩ := stops.inSequence
  cases objection with
  | some cause =>
      obtain ⟨identity, rest, rfl, hraised, hstops⟩ := hstops.raised
      exact ⟨_, rest, _, (List.append_assoc ..).symm, hobjecting.trans hraised,
        .objected identity hobjecting.alone hsequence, hstops⟩
  | none =>
      obtain ⟨completing, rest, failure, rfl, hcompleting, hstaged, hstops⟩ := Stops.stage hstops
      have hcompleted := hobjecting.trans hcompleting
      cases failure with
      | none =>
          exact ⟨_, rest, _, (List.append_assoc ..).symm, hcompleted, .completed hobjecting.alone hsequence hstaged, hstops⟩
      | some error =>
          exact ⟨_, rest, _, (List.append_assoc ..).symm, hcompleted, .incomplete hobjecting.alone hsequence hstaged, hstops⟩

/-- Attempting an operation goes on with an outcome, or comes no further than the operation. -/
theorem stops_run {next : Outcome → Body} (stops : Stops (manager.run operation context next) acts) :
    (∃ first rest outcome, acts = first ++ rest ∧ Reaches (manager.run operation context next) first (next outcome) ∧
      manager.Attempt operation context first outcome ∧ Stops (next outcome) rest) ∨
    ∃ earlier resume, acts = earlier ++ [.performed (.next operation false)] ∧
      Reaches (manager.run operation context next) earlier (.perform (.next operation false) resume) ∧
      manager.Prepared context earlier := by
  rw [run_eq] at stops ⊢
  obtain ⟨preparing, rest, failures, rfl, hworks, hstops, hended⟩ := stops.together
  rw [List.nil_append] at hended
  have hcause : failures.findSome? id = (failures.filterMap id).head? := (List.head?_filterMap ..).symm
  obtain ⟨hcarried, hwell⟩ | ⟨-, cause, hfailed, hdropped⟩ := hended
  · -- no listener has failed, so that the operation is run
    have hprepared : manager.Prepared context preparing := ⟨hworks.alone, failures, hcarried, hwell rfl⟩
    rw [hwell rfl] at hcause
    simp only [hcause, List.head?_nil] at hworks hstops
    rcases Stops.asks hstops with rfl | ⟨answer, rest, rfl, hnext⟩
    · exact .inr ⟨preparing, _, rfl, hworks.reaches, hprepared⟩
    · have hanswered := hworks.reaches.trans (@Reaches.perform _ _ answer _ _ (.here _))
      cases answer with
      | error error => exact .inl ⟨_, rest, _, by simp, hanswered, .failed error hprepared, hnext⟩
      | ok value =>
          have hcompletes : Stops (manager.complete value next) rest := hnext
          obtain ⟨completing, rest, outcome, rfl, hcompleted, hcompletion, hlast⟩ := stops_complete hcompletes
          have hreaches := hanswered.trans hcompleted.reaches
          rw [List.append_assoc] at hreaches
          exact .inl ⟨_, rest, outcome, by simp, hreaches, .gave hprepared hcompletion, hlast⟩
  · rw [hfailed] at hcause
    simp only [hcause, List.head?_cons] at hworks hstops
    obtain ⟨identity, rest, rfl, hraised, hstops⟩ := Stops.raised hstops
    exact .inl ⟨_, rest, _, (List.append_assoc ..).symm, (hworks.trans hraised).reaches,
      .unprepared identity hworks.alone hdropped, hstops⟩

/-- The computation of a managed operation is an attempt, a report and a finalization, unless it comes no further than
the operation. -/
theorem stops_execute (stops : Stops (manager.execute operation context) acts) :
    (∃ attempt reporting rest attempted reported, acts = attempt ++ (reporting ++ rest) ∧
      Reaches (manager.execute operation context) (attempt ++ reporting)
        (manager.finish attempted.failure? reported) ∧
      manager.Attempt operation context attempt attempted ∧ manager.Reporting attempted reporting reported ∧
      Stops (manager.finish attempted.failure? reported) rest) ∨
    ∃ earlier resume, acts = earlier ++ [.performed (.next operation false)] ∧
      Reaches (manager.execute operation context) earlier (.perform (.next operation false) resume) ∧
      manager.Prepared context earlier := by
  rcases stops_run stops with ⟨attempt, rest, attempted, rfl, hreaches, hattempt, hstops⟩ | hstuck
  · refine .inl ?_
    cases attempted with
    | ok value =>
        rw [← List.append_nil attempt] at hreaches
        exact ⟨attempt, [], rest, .ok value, _, rfl, hreaches, hattempt, .needless value, hstops⟩
    | error error =>
        obtain ⟨reporting, rest, reported, rfl, hworks, hreporting, hstops⟩ := stops_report hstops
        exact ⟨attempt, reporting, rest, .error error, reported, rfl, hreaches.trans hworks.reaches, hattempt, hreporting,
          hstops⟩
  · exact .inr hstuck

end Manager
end EffectMachine
