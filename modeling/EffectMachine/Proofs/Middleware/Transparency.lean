import EffectMachine.Proofs.Interleaving.Contexts
import EffectMachine.Proofs.Middleware.Systems

/-!
# Middleware is transparent

Middleware in front of other plugins changes no report of any process, and neither which computations are run nor for
which other handlers, in no order: as long as no core rule is applied that is about the frame of the middleware.

* `Middleware.Transparent` says so of two machines and a system.
* `Observer.Faithful` says that a system behind an observer is with the system without it, which every step keeps.
* `middleware_transparent` is the main statement, for tracing and for counting.
-/

namespace EffectMachine

namespace System

variable {machine : Machine} {system next : System}

theorem execute_of_step (hstep : system.step machine = some next) (steps : Nat) :
    system.execute machine (steps + 1) =
      (system.acts machine ++ (next.execute machine steps).1, (next.execute machine steps).2) := by
  rw [execute, hstep]

/-- A system that has stopped stays where it is. -/
theorem execute_of_stopped (hstopped : system.step machine = none) (steps : Nat) : system.execute machine steps = ([], system) := by
  cases steps with
  | zero => rfl
  | succ steps => rw [execute, hstopped]

/-- A report that is waited for is one that the process comes to. -/
theorem exists_runUntil_iff (sound : system.Sound) {task : TaskId} {report : Report} :
    (∃ steps, (system.runUntil machine task steps).map Prod.fst = some report) ↔
      ∃ steps, (system.execute machine steps).2.host.report? task = some report := by
  constructor
  · rintro ⟨steps, hreport⟩
    induction steps generalizing system with
    | zero => cases hreport
    | succ steps ih =>
        unfold runUntil at hreport
        cases hnow : system.host.report? task with
        | some now =>
            rw [hnow] at hreport
            cases hreport
            exact ⟨0, hnow⟩
        | none =>
            rw [hnow] at hreport
            cases hstep : system.step machine with
            | none =>
                rw [hstep] at hreport
                cases hreport
            | some next =>
                rw [hstep] at hreport
                obtain ⟨later, hlater⟩ := ih ((Moves.step hstep).sound sound) hreport
                exact ⟨later + 1, by rw [execute_of_step hstep]; exact hlater⟩
  · rintro ⟨steps, hreport⟩
    refine ⟨steps + 1, ?_⟩
    induction steps generalizing system with
    | zero =>
        have hnow : system.host.report? task = some report := hreport
        rw [runUntil, hnow]
        rfl
    | succ steps ih =>
        rw [runUntil]
        cases hnow : system.host.report? task with
        | some now =>
            -- reports stay, so that the last one is the first one
            have hlast := ((Scheduled.execute machine system (steps + 1)).cooperates.proceeds.lasts sound).reports hnow
            exact hlast.symm.trans hreport
        | none =>
            cases hstep : system.step machine with
            | none =>
                rw [execute_of_stopped hstep] at hreport
                cases hnow.symm.trans hreport
            | some next =>
                rw [execute_of_step hstep] at hreport
                exact ih ((Moves.step hstep).sound sound) hreport

/-- Nothing has begun yet, and nobody waits. -/
structure Unbegun (system : System) : Prop where
  processes : ∀ process ∈ system.host.processes, process.activity.stack? = none
  current : ∀ task activity, system.current = some (task, activity) → activity.stack? = none
  sound : system.Sound
  nobody : system.host.schedule.waiting = []

end System

/-- Without middleware in front all processes come to the same reports, and the same computations are run, for the same
handlers and in the same order. -/
structure Middleware.Transparent (kinds : List String) (observed plain : Machine) (system : System) : Prop where
  reports : ∀ task report, (∃ steps, (system.runUntil observed task steps).map Prod.fst = some report) ↔
    ∃ steps, (system.runUntil plain task steps).map Prod.fst = some report
  nothingMore : ∀ steps, ∃ more, served kinds (system.execute observed steps).1 <+: served [] (system.execute plain more).1
  nothingLess : ∀ steps, ∃ more, served [] (system.execute plain steps).1 <+: served kinds (system.execute observed more).1

namespace Observer

open Middleware

variable {observer : Observer} {fronted machine : Machine} {watched system : System} {owed : List (TaskId × Service)} {place : Rank}

/-- A system behind an observer is with the system without it, and will never depend on the observer. -/
structure Faithful (observer : Observer) (fronted machine : Machine) (watched system : System)
    (owed : List (TaskId × Service)) (place : Rank) : Prop where
  mirrors : observer.Mirrors machine watched system owed place
  patient : watched.Patient
  sound : watched.Sound
  plainPatient : system.Patient
  plainSound : system.Sound
  spares : ∀ steps, sparesNext observer.kinds fronted (watched.execute fronted steps).2 = true

/-- Both systems have stopped, or make a step and stay together. -/
def GoesOn (observer : Observer) (fronted machine : Machine) (watched system : System) : Prop :=
  (watched.step fronted = none ∧ system.step machine = none) ∨
  ∃ watchedNext next ahead later, watched.step fronted = some watchedNext ∧ system.step machine = some next ∧
    observer.Faithful fronted machine watchedNext next ahead later ∧
    served observer.kinds (watched.acts fronted) ++ ahead = served [] (system.acts machine)

/-- The system behind the observer comes to where the other one is after some steps, and has run the same then. -/
def Meets (observer : Observer) (fronted machine : Machine) (system : System) (steps : Nat) (watched : System)
    (owed : List (TaskId × Service)) : Prop :=
  ∃ more later, observer.Faithful fronted machine (watched.execute fronted more).2 (system.execute machine steps).2 [] later ∧
    served observer.kinds (watched.execute fronted more).1 = owed ++ served [] (system.execute machine steps).1

theorem Meets.of_step {next : System} {steps : Nat} {ahead : List (TaskId × Service)}
    (hstep : watched.step fronted = some next) (hserved : served observer.kinds (watched.acts fronted) ++ ahead = owed)
    (meets : observer.Meets fronted machine system steps next ahead) :
    observer.Meets fronted machine system steps watched owed := by
  obtain ⟨more, later, hlast, hmore⟩ := meets
  refine ⟨more + 1, later, by rwa [System.execute_of_step hstep], ?_⟩
  rw [System.execute_of_step hstep, served_append, hmore, ← List.append_assoc, hserved]

namespace Faithful

/-- Before anything has begun, a system is with itself. -/
theorem of_unbegun (unbegun : system.Unbegun)
    (hspares : ∀ steps, sparesNext observer.kinds fronted (system.execute fronted steps).2 = true) :
    observer.Faithful fronted machine system system [] (rank 0 0 0) := by
  have patient : system.Patient := .of_nobody unbegun.nobody
  refine ⟨?_, patient, unbegun.sound, patient, unbegun.sound, hspares⟩
  obtain ⟨hprocesses, hcurrent, -, -⟩ := unbegun
  obtain ⟨host, current⟩ := system
  cases current with
  | none => exact .idle (.refl_new hprocesses)
  | some running => exact .other running.1 (hcurrent running.1 running.2 rfl) (.refl_new hprocesses)

/-- It stays so: the observer makes a step, or both systems do, or both have stopped. -/
theorem step (hfronts : observer.Fronts fronted machine) (faithful : observer.Faithful fronted machine watched system owed place) :
    (∃ next ahead later, watched.step fronted = some next ∧ observer.Faithful fronted machine next system ahead later ∧
      served observer.kinds (watched.acts fronted) ++ ahead = owed ∧ later < place) ∨
    owed = [] ∧ observer.GoesOn fronted machine watched system := by
  obtain ⟨mirrors, patient, sound, plainPatient, plainSound, spares⟩ := faithful
  have hspares {next : System} (hstep : watched.step fronted = some next) (steps : Nat) :
      sparesNext observer.kinds fronted (next.execute fronted steps).2 = true := by
    have hlater := spares (steps + 1)
    rwa [System.execute_of_step hstep] at hlater
  rcases mirrors.step hfronts patient sound plainPatient plainSound (spares 0) with
    ⟨next, ahead, later, hstep, hmirrors, hserved, hless⟩ |
      ⟨hnone, hstopped | ⟨watchedNext, next, ahead, later, hwatched, hstep, hmirrors, hserved⟩⟩
  · exact .inl ⟨next, ahead, later, hstep, ⟨hmirrors, patient.step sound hstep, (Moves.step hstep).sound sound, plainPatient,
      plainSound, hspares hstep⟩, hserved, hless⟩
  · exact .inr ⟨hnone, .inl hstopped⟩
  · exact .inr ⟨hnone, .inr ⟨watchedNext, next, ahead, later, hwatched, hstep, ⟨hmirrors, patient.step sound hwatched,
      (Moves.step hwatched).sound sound, plainPatient.step plainSound hstep, (Moves.step hstep).sound plainSound,
      hspares hwatched⟩, hserved⟩⟩

/-- Whatever the system behind the observer does, the other one comes to the same, and may be ahead then. -/
theorem exists_plain (hfronts : observer.Fronts fronted machine)
    (faithful : observer.Faithful fronted machine watched system owed place) (steps : Nat) : ∃ more ahead later,
      observer.Faithful fronted machine (watched.execute fronted steps).2 (system.execute machine more).2 ahead later ∧
      served observer.kinds (watched.execute fronted steps).1 ++ ahead = owed ++ served [] (system.execute machine more).1 := by
  induction steps generalizing watched system owed place with
  | zero => exact ⟨0, owed, place, faithful, by simp [System.execute, served]⟩
  | succ steps ih =>
      rcases faithful.step hfronts with ⟨next, ahead, later, hstep, hnext, hserved, -⟩ |
        ⟨rfl, ⟨hstopped, hplain⟩ | ⟨watchedNext, next, ahead, later, hwatched, hstep, hnext, hserved⟩⟩
      · -- the observer makes a step
        obtain ⟨more, last, rank, hlast, hmore⟩ := ih hnext
        refine ⟨more, last, rank, by rwa [System.execute_of_step hstep], ?_⟩
        rw [System.execute_of_step hstep, served_append, List.append_assoc, hmore, ← List.append_assoc, hserved]
      · exact ⟨0, [], place, by rwa [System.execute_of_stopped hstopped], by
          rw [System.execute_of_stopped hstopped]
          rfl⟩
      · obtain ⟨more, last, rank, hlast, hmore⟩ := ih hnext
        refine ⟨more + 1, last, rank, by rwa [System.execute_of_step hwatched, System.execute_of_step hstep], ?_⟩
        rw [System.execute_of_step hwatched, System.execute_of_step hstep, served_append, served_append, List.append_assoc,
          hmore, ← List.append_assoc, hserved, List.nil_append]

/-- The observer comes to an end of its own steps, since the rank falls with each. -/
theorem catches_up (hfronts : observer.Fronts fronted machine) {motive : System → List (TaskId × Service) → Prop}
    (hown : ∀ {watched next : System} {owed ahead : List (TaskId × Service)}, watched.step fronted = some next →
      served observer.kinds (watched.acts fronted) ++ ahead = owed → motive next ahead → motive watched owed)
    (hboth : ∀ {watched : System} {place : Rank}, observer.Faithful fronted machine watched system [] place →
      observer.GoesOn fronted machine watched system → motive watched [])
    (faithful : observer.Faithful fronted machine watched system owed place) : motive watched owed := by
  induction place using WellFoundedLT.induction generalizing watched owed with
  | ind place ih =>
    rcases faithful.step hfronts with ⟨next, ahead, later, hstep, hnext, hserved, hless⟩ | ⟨rfl, hgoesOn⟩
    · exact hown hstep hserved (ih later hless hnext)
    · exact hboth faithful hgoesOn

/-- Whatever the other system does, the one behind the observer comes to the same. -/
theorem meets (hfronts : observer.Fronts fronted machine)
    (faithful : observer.Faithful fronted machine watched system owed place) (steps : Nat) :
    observer.Meets fronted machine system steps watched owed := by
  induction steps generalizing watched system owed place with
  | zero => exact faithful.catches_up hfronts Meets.of_step fun {_ place} faithful _ => ⟨0, place, faithful, rfl⟩
  | succ steps ih =>
      refine faithful.catches_up hfronts Meets.of_step fun {_ place} faithful hgoesOn => ?_
      rcases hgoesOn with ⟨hstopped, hplain⟩ | ⟨watchedNext, next, ahead, later, hwatched, hstep, hnext, hserved⟩
      · -- the other system has stopped, and makes no more steps
        exact ⟨0, place, by rwa [System.execute_of_stopped hplain], by
          rw [System.execute_of_stopped hplain]
          rfl⟩
      · obtain ⟨more, last, hlast, hmore⟩ := ih hnext
        refine ⟨more + 1, last, by rwa [System.execute_of_step hwatched, System.execute_of_step hstep], ?_⟩
        rw [System.execute_of_step hwatched, System.execute_of_step hstep, served_append, served_append, hmore,
          ← List.append_assoc, hserved, List.nil_append]

end Faithful

/-- An observer in front is transparent, as long as no step depends on it. -/
theorem Fronts.transparent (hfronts : observer.Fronts fronted machine) (unbegun : system.Unbegun)
    (hspares : ∀ steps, sparesNext observer.kinds fronted (system.execute fronted steps).2 = true) :
    Transparent observer.kinds fronted machine system := by
  have faithful : observer.Faithful fronted machine system system [] (rank 0 0 0) := .of_unbegun unbegun hspares
  refine ⟨fun task report => ?_, fun steps => ?_, fun steps => ?_⟩
  · rw [System.exists_runUntil_iff unbegun.sound, System.exists_runUntil_iff unbegun.sound]
    constructor
    · rintro ⟨steps, hreport⟩
      obtain ⟨more, _, _, hlast, -⟩ := faithful.exists_plain hfronts steps
      exact ⟨more, (hlast.mirrors.report?_eq task).trans hreport⟩
    · rintro ⟨steps, hreport⟩
      obtain ⟨more, _, hlast, -⟩ := faithful.meets hfronts steps
      exact ⟨more, (hlast.mirrors.report?_eq task).symm.trans hreport⟩
  · obtain ⟨more, ahead, _, -, hserved⟩ := faithful.exists_plain hfronts steps
    exact ⟨more, ahead, by rw [hserved, List.nil_append]⟩
  · obtain ⟨more, _, -, hserved⟩ := faithful.meets hfronts steps
    exact ⟨more, [], by rw [hserved, List.nil_append, List.append_nil]⟩

end Observer

namespace Middleware

/-- Middleware with qualified kinds is an observer in front. -/
theorem exists_observer {front : Plugin} {kinds : List String}
    (hfront : front = trace kinds ∨ ∃ meter, front = metrics meter kinds) :
    ∃ observer : Observer, observer.kinds = kinds ∧ observer.plugin = front := by
  rcases hfront with rfl | ⟨meter, rfl⟩
  · exact ⟨.tracing kinds, rfl, Observer.plugin_tracing kinds⟩
  · exact ⟨.measuring meter kinds, rfl, Observer.plugin_measuring meter kinds⟩

end Middleware

/-- Middleware is transparent.  Tracing or counting operations of any qualified kinds, other than delegations, changes no
report of any process that a run comes to, and neither which computations are run nor for which other handlers, as long as
no step of the run depends on the middleware. -/
theorem middleware_transparent {front : Plugin} {kinds : List String}
    (hfront : front = Middleware.trace kinds ∨ ∃ meter, front = Middleware.metrics meter kinds)
    (hqualified : ∀ kind ∈ kinds, Kind.isQualified kind = true) (hnext : Kind.next ∉ kinds) {plugins : List Plugin}
    {plain : Registry} (hplain : Registry.build plugins = .ok plain) :
    ∃ observed, Registry.build (front :: plugins) = .ok observed ∧ ∀ (library : Library) (system : System), system.Unbegun →
      (∀ steps, Middleware.sparesNext kinds ⟨observed, library⟩ (system.execute ⟨observed, library⟩ steps).2 = true) →
      Middleware.Transparent kinds ⟨observed, library⟩ ⟨plain, library⟩ system := by
  obtain ⟨observer, rfl, rfl⟩ := Middleware.exists_observer hfront
  obtain ⟨observed, hobserved, hfronts⟩ := observer.exists_build hqualified hnext hplain
  exact ⟨observed, hobserved, fun library system unbegun hspares => (hfronts library).transparent unbegun hspares⟩

/-! ## A run that does not depend on middleware -/

/-- A test that all systems pass until they stop is passed for good. -/
theorem System.test_of_passes {machine : Machine} {test : System → Bool} {system : System} {steps : Nat}
    (hpasses : system.passes machine test (steps + 1) = true)
    (hstopped : ((system.execute machine steps).2.step machine).isNone = true) (number : Nat) :
    test (system.execute machine number).2 = true := by
  induction number generalizing system steps with
  | zero => exact (Bool.and_eq_true_iff.1 hpasses).1
  | succ number ih =>
      obtain ⟨hnow, hrest⟩ := Bool.and_eq_true_iff.1 hpasses
      cases hstep : system.step machine with
      | none =>
          rw [execute_of_stopped hstep]
          exact hnow
      | some next =>
          rw [hstep] at hrest
          rw [execute_of_step hstep]
          cases steps with
          | zero =>
              have hnone : (system.step machine).isNone = true := hstopped
              rw [hstep] at hnone
              cases hnone
          | succ steps =>
              rw [execute_of_step hstep] at hstopped
              exact ih hrest hstopped

namespace Middleware

/-- A plugin that answers questions. -/
def answering : Plugin :=
  .intercepting ["@test/ask"] fun _ _ => .ready (.str "answer")

/-- A computation that forks another one, defers a third one and ends with the answer to a question. -/
def inquiring : Computation :=
  .named "inquiring" <|
    .perform (.fork (.bare (.ready .null))) fun _ =>
      .perform (.defer (.bare (.ready .null))) fun _ =>
        .perform (.custom "@test/ask" .unit) .done

/-- A system whose client is about to submit the computation. -/
def inquiry : System :=
  .submitting (.blank 0) (.bare inquiring)

/-- The kinds of operations that are traced. -/
def tracedKinds : List String :=
  [Kind.start, Kind.execute, Kind.fork, "@test/ask"]

/-- The machine of some plugins, for programs that call no functions. -/
def machineOf (plugins : List Plugin) : Machine where
  registry := ((Registry.build plugins).toOption).getD {}
  library := ⟨fun _ _ => default⟩

theorem unbegun_inquiry : inquiry.Unbegun where
  processes process hmem := by
    obtain rfl := List.mem_singleton.1 hmem
    rfl
  current task activity hcurrent := by
    cases hcurrent
    rfl
  sound task activity hcurrent := by
    cases hcurrent
    exact ⟨_, rfl, rfl⟩
  nobody := rfl

/-- The traced inquiry succeeds as the one that is not traced does. -/
theorem transparent_inquiry :
    (Registry.build [answering]).toOption.isSome = true ∧
      inquiry.passes (machineOf [trace tracedKinds, answering])
        (sparesNext tracedKinds (machineOf [trace tracedKinds, answering])) 61 = true ∧
      Transparent tracedKinds (machineOf [trace tracedKinds, answering]) (machineOf [answering]) inquiry ∧
      ((inquiry.execute (machineOf [trace tracedKinds, answering]) 60).2.host.outcome? ⟨0⟩).any Except.isOk = true := by
  have hpasses : inquiry.passes (machineOf [trace tracedKinds, answering])
      (sparesNext tracedKinds (machineOf [trace tracedKinds, answering])) 61 = true := by decide +kernel
  have hstopped : ((inquiry.execute (machineOf [trace tracedKinds, answering]) 60).2.step
      (machineOf [trace tracedKinds, answering])).isNone = true := by decide +kernel
  have hplain : Registry.build [answering] = .ok (machineOf [answering]).registry := rfl
  obtain ⟨observed, hobserved, htransparent⟩ :=
    middleware_transparent (.inl rfl : trace tracedKinds = trace tracedKinds ∨ _) (by decide) (by decide) hplain
  obtain rfl : (machineOf [trace tracedKinds, answering]).registry = observed := Except.ok.inj hobserved
  exact ⟨rfl, hpasses, htransparent _ inquiry unbegun_inquiry (System.test_of_passes hpasses hstopped), by decide +kernel⟩

/-! ## Runs that do -/

/-- A computation that defers the recovery from its own failure. -/
def relapsing : Computation :=
  .named "relapsing" (.perform (.defer (.bare (.named "cleanup" (.perform .recover fun _ => .ok .null)))) fun _ =>
    .fail (.type "broken"))

/-- A computation that is replaced by another one before it fails. -/
def replaced : Computation :=
  .named "replaced" (.perform (.terminal (.bare (.ready .null))) fun _ => .fail (.type "broken"))

/-- Whether a computation succeeds that is submitted to the machine of some plugins. -/
def succeeds (plugins : List Plugin) (computation : Computation) : Option Bool :=
  ((System.submitting (.blank 0) (.bare computation)).runUntil (machineOf plugins) ⟨0⟩ 40).bind fun ended =>
    ended.1.outcome?.map Except.isOk

/-- A computation that runs another one. -/
def executing : Computation :=
  .named "executing" (.perform (.execute (.ready .null)) .done)

/-- A computation that asks. -/
def asking : Computation :=
  .named "asking" (.perform (.custom "@test/ask" .unit) .done)

/-- A plugin that refuses the core operations of a name. -/
def forbidding (name : String) : Plugin where
  space := some "@cuillere/core"
  validators := [(name, fun _ => .done (some (.validation "forbidden")))]

/-- A plugin that fails whenever an operation is delegated. -/
def obstructing : Plugin :=
  .intercepting [Kind.next] fun _ _ => .named "obstruct" (.fail (.type "broken"))

/-- A plugin that delegates a question from within a start operation. -/
def forwarding : Plugin :=
  .intercepting ["@test/ask"] fun operation _ => .named "forward" (.perform (.start (.next operation false)) .done)

/-- A plugin that recovers for others. -/
def rescuing : Plugin :=
  .intercepting ["@test/rescue"] fun _ _ => .named "rescue" (.perform .recover fun _ => .ok .null)

/-- A computation that has another one recover from its failure. -/
def rescued : Computation :=
  .named "rescued" (.perform (.defer (.custom "@test/rescue" .unit)) fun _ => .fail (.type "broken"))

/-- Deferring, replacing and delegating are about the frame on top, and recovering is about the one below it.  These are
frames of the middleware when such operations are traced, or the start operations around them, or the operation that a
handler recovers for: no error is found to recover from, the deferred computation runs at once, and the middleware is
replaced, or delegates what it does not handle.  The delegations of the middleware are checked and handled as all
delegations are, and so is the start operation that is there for the middleware only. -/
theorem traced_core_operations_differ :
    (succeeds [] relapsing = some true ∧ succeeds [trace [Kind.recover]] relapsing = some false) ∧
      (succeeds [rescuing] rescued = some true ∧ succeeds [trace ["@test/rescue"], rescuing] rescued = some false) ∧
      (succeeds [] relapsing = some true ∧ succeeds [trace [Kind.defer]] relapsing = some false) ∧
      (succeeds [] replaced = some true ∧ succeeds [trace [Kind.terminal]] replaced = some false) ∧
      (succeeds [forwarding, answering] asking = some true ∧
        succeeds [trace [Kind.start], forwarding, answering] asking = some false) ∧
      (succeeds [forbidding "next"] executing = some true ∧
        succeeds [trace [Kind.execute], forbidding "next"] executing = some false) ∧
      (succeeds [obstructing] executing = some true ∧ succeeds [trace [Kind.execute], obstructing] executing = some false) ∧
      (succeeds [forbidding "start"] executing = some true ∧
        succeeds [trace [Kind.start], forbidding "start"] executing = some false) := by
  decide +kernel

end Middleware
end EffectMachine
