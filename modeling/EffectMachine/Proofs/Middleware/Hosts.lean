import EffectMachine.Proofs.Coalescing.Steps
import EffectMachine.Proofs.Middleware.Stacks

/-!
# Hosts behind an observer

Hosts are alike when all stacks that wait on the one cover those that wait on the other.  Journals do not count: an
observer is there to write things down.

* `Observer.Alike` is the relation, with one lemma for each operation of a host.
* `Observer.Alike.react`: hosts that are alike react to actions alike.
-/

namespace EffectMachine
namespace Observer

variable {observer : Observer}

/-- What a process is doing, behind an observer and without. -/
inductive SameActivity (observer : Observer) : Activity → Activity → Prop
  | driving {watched stack : Stack} (driver : Driver) (hcovers : observer.Covers watched stack)
      (hrests : observer.Rests watched) : SameActivity observer (driver.activity watched) (driver.activity stack)
  | other (activity : Activity) (hstack : activity.stack? = none) : SameActivity observer activity activity

/-- The same process, behind an observer and without. -/
structure SameProcess (observer : Observer) (watched process : Process) : Prop where
  activity : observer.SameActivity watched.activity process.activity
  canceled : process.canceled = watched.canceled
  collected : process.collected = watched.collected

/-- The same at one place of two lists, or nothing at both. -/
inductive SameAt (observer : Observer) : Option Process → Option Process → Prop
  | none : SameAt observer none none
  | some {watched process : Process} (hsame : observer.SameProcess watched process) :
      SameAt observer (some watched) (some process)

/-- The same process has the same report, was asked to cancel on both sides, and had its outcome taken on both. -/
theorem SameAt.same {watched process : Option Process} (hsame : observer.SameAt watched process) :
    process.bind Process.report? = watched.bind Process.report? ∧
      process.map Process.canceled = watched.map Process.canceled ∧
      process.map Process.collected = watched.map Process.collected := by
  cases hsame with
  | none => exact ⟨rfl, rfl, rfl⟩
  | @some earlier later hsame =>
      obtain ⟨watched, canceled, collected⟩ := earlier
      obtain ⟨activity, _, _⟩ := later
      obtain ⟨hactivity, rfl, rfl⟩ := hsame
      refine ⟨?_, rfl, rfl⟩
      cases hactivity with
      | driving driver => cases driver <;> rfl
      | other => rfl

theorem SameAt.map {watched process : Option Process} (hsame : observer.SameAt watched process)
    {watchedChange change : Process → Process}
    (hchange : ∀ earlier later, observer.SameProcess earlier later →
      observer.SameProcess (watchedChange earlier) (change later)) :
    observer.SameAt (watched.map watchedChange) (process.map change) := by
  cases hsame with
  | none => exact .none
  | some hsame => exact .some (hchange _ _ hsame)

/-- Hosts that differ in their journals, and in what an observer adds to the stacks of their processes. -/
structure Alike (observer : Observer) (watched host : Host) : Prop where
  shared : host.shared = watched.shared
  nextIdentity : host.nextIdentity = watched.nextIdentity
  timers : host.timers = watched.timers
  batches : host.batches = watched.batches
  schedule : host.schedule = watched.schedule
  scheduled : host.scheduled = watched.scheduled
  length : host.processes.length = watched.processes.length
  processes : ∀ index : Nat, observer.SameAt watched.processes[index]? host.processes[index]?

/-- What a host makes of an action, behind an observer and without. -/
inductive SameReaction (observer : Observer) {α : Type} : Reaction α → Reaction α → Prop
  | reply {watched host : Host} (halike : observer.Alike watched host) (answer : α) :
      SameReaction observer (.reply watched answer) (.reply host answer)
  | giveWay {watched host : Host} (halike : observer.Alike watched host) (answer : α) :
      SameReaction observer (.giveWay watched answer) (.giveWay host answer)
  | wait {watched host : Host} (halike : observer.Alike watched host) (occasions : List Occasion) :
      SameReaction observer (.wait watched occasions) (.wait host occasions)

namespace Alike

variable {watched host : Host} (halike : observer.Alike watched host)

/-- Hosts on which nothing has begun are alike. -/
theorem refl_new (hnew : ∀ process ∈ host.processes, process.activity.stack? = none) : observer.Alike host host where
  shared := rfl
  nextIdentity := rfl
  timers := rfl
  batches := rfl
  schedule := rfl
  scheduled := rfl
  length := rfl
  processes index := by
    cases hprocess : host.processes[index]? with
    | none => exact .none
    | some process => exact .some ⟨.other _ (hnew process (List.mem_of_getElem? hprocess)), rfl, rfl⟩

include halike

theorem withEvents (watchedEvents events : Array Event) :
    observer.Alike { watched with events := watchedEvents } { host with events } :=
  { halike with }

/-- What only leaves a trace in the journal does not count. -/
theorem quiet_left {later : Host} (hquiet : later.quiet = watched.quiet) (hidentity : later.nextIdentity = watched.nextIdentity) :
    observer.Alike later host where
  shared := halike.shared.trans (congrArg Host.shared hquiet :).symm
  nextIdentity := halike.nextIdentity.trans hidentity.symm
  timers := halike.timers.trans (congrArg Host.timers hquiet :).symm
  batches := halike.batches.trans (congrArg Host.batches hquiet :).symm
  schedule := halike.schedule.trans (congrArg Host.schedule hquiet :).symm
  scheduled := halike.scheduled.trans (congrArg Host.scheduled hquiet :).symm
  length := halike.length.trans (congrArg (List.length ∘ Host.processes) hquiet :).symm
  processes index := by
    have hprocesses : later.processes = watched.processes := (congrArg Host.processes hquiet :)
    rw [hprocesses]
    exact halike.processes index

theorem emit (watchedEvent event : Event) : observer.Alike (watched.emit watchedEvent) (host.emit event) :=
  { halike with }

theorem emit_left (event : Event) : observer.Alike (watched.emit event) host :=
  { halike with }

/-- A probe comes to the same. -/
theorem run {α : Type} (probe : Probe α) :
    (host.run probe).1 = (watched.run probe).1 ∧ observer.Alike (watched.run probe).2 (host.run probe).2 := by
  induction probe generalizing watched host with
  | done answer => exact ⟨rfl, halike⟩
  | note value rest ih => exact ih { halike with }
  | mint count rest ih =>
      have hminted : observer.Alike (watched.mint count).2 (host.mint count).2 :=
        { halike with nextIdentity := congrArg (· + count) halike.nextIdentity }
      -- the identities are the same, and so is the rest of the probe
      have hrest := ih watched.nextIdentity hminted
      rw [← halike.nextIdentity] at hrest
      show ((host.mint count).2.run (rest host.nextIdentity)).1 = ((watched.mint count).2.run (rest watched.nextIdentity)).1 ∧
        observer.Alike ((watched.mint count).2.run (rest watched.nextIdentity)).2 ((host.mint count).2.run (rest host.nextIdentity)).2
      rw [← halike.nextIdentity]
      exact hrest

theorem withSchedule (schedule : Schedule) : observer.Alike { watched with schedule } { host with schedule } :=
  { halike with schedule := rfl }

/-- The schedules change alike. -/
theorem reschedule (change : Schedule → Schedule) :
    observer.Alike { watched with schedule := change watched.schedule } { host with schedule := change host.schedule } :=
  { halike with schedule := congrArg change halike.schedule }

theorem announce (occasion : Occasion) : observer.Alike (watched.announce occasion) (host.announce occasion) :=
  halike.reschedule (Schedule.announce · occasion)

theorem withTimers (timers : Timers) : observer.Alike { watched with timers } { host with timers } :=
  { halike with timers := rfl }

theorem withBatches (batches : Batches) : observer.Alike { watched with batches } { host with batches } :=
  { halike with batches := rfl }

@[simp] theorem report? (task : TaskId) : host.report? task = watched.report? task :=
  (halike.processes task.index).same.1

theorem isCanceled (task : TaskId) : host.isCanceled task = watched.isCanceled task :=
  congrArg (Option.getD · false) (halike.processes task.index).same.2.1

theorem isCollected (task : TaskId) : host.isCollected task = watched.isCollected task :=
  congrArg (Option.getD · false) (halike.processes task.index).same.2.2

theorem outcome? (task : TaskId) : host.outcome? task = watched.outcome? task := by
  unfold Host.outcome?
  rw [halike.report?]

theorem isSettled (task : TaskId) : host.isSettled task = watched.isSettled task := by
  unfold Host.isSettled
  rw [halike.outcome?]

/-- One process changes on both. -/
theorem modify (task : TaskId) {watchedChange change : Process → Process}
    (hchange : ∀ earlier later, observer.SameProcess earlier later →
      observer.SameProcess (watchedChange earlier) (change later)) :
    observer.Alike { watched with processes := watched.processes.modify task.index watchedChange }
      { host with processes := host.processes.modify task.index change } :=
  { halike with
    length := by simpa using halike.length
    processes := by
      intro index
      simp only [List.getElem?_modify]
      refine (halike.processes index).map fun earlier later hsame => ?_
      split
      · exact hchange earlier later hsame
      · exact hsame }

theorem cancel (task : TaskId) : observer.Alike (watched.cancel task) (host.cancel task) :=
  halike.modify task fun _ _ hsame => ⟨hsame.activity, rfl, hsame.collected⟩

theorem park (task : TaskId) {earlier later : Activity} (hsame : observer.SameActivity earlier later) :
    observer.Alike (watched.park task earlier) (host.park task later) :=
  halike.modify task fun _ _ hprocess => ⟨hsame, hprocess.canceled, hprocess.collected⟩

theorem collect (task : TaskId) : observer.Alike (watched.collect task) (host.collect task) := by
  unfold Host.collect
  rw [halike.isSettled, halike.isCollected]
  split
  · have hmarked : observer.Alike
        { watched with processes := watched.processes.modify task.index fun process => { process with collected := true } }
        { host with processes := host.processes.modify task.index fun process => { process with collected := true } } :=
      halike.modify task fun _ _ hsame => ⟨hsame.activity, hsame.canceled, rfl⟩
    rw [halike.schedule]
    exact hmarked.withSchedule _
  · exact halike

theorem collectAll (tasks : List TaskId) : observer.Alike (tasks.foldl Host.collect watched) (tasks.foldl Host.collect host) := by
  induction tasks generalizing watched host with
  | nil => exact halike
  | cons task tasks ih => exact ih (halike.collect task)

/-- Both get the same new process. -/
theorem spawn {activity : Activity} (hstack : activity.stack? = none) :
    (host.spawn activity).1 = (watched.spawn activity).1 ∧
      observer.Alike (watched.spawn activity).2 (host.spawn activity).2 := by
  have htask : (host.spawn activity).1 = (watched.spawn activity).1 := congrArg TaskId.mk halike.length
  refine ⟨htask, ?_⟩
  refine { halike with schedule := ?_, length := ?_, processes := fun index => ?_ }
  · show host.schedule.enqueue _ = watched.schedule.enqueue _
    rw [halike.schedule, halike.length]
  · simp [Host.spawn, halike.length]
  · show observer.SameAt (watched.processes ++ [_])[index]? (host.processes ++ [_])[index]?
    rw [List.getElem?_append, List.getElem?_append, halike.length]
    split
    · exact halike.processes index
    · cases hplace : index - watched.processes.length with
      | zero => exact .some ⟨.other activity hstack, rfl, rfl⟩
      | succ place => exact .none

theorem settle (slot : Slot) (state : SlotState) : observer.Alike (watched.settle slot state) (host.settle slot state) := by
  unfold Host.settle
  rw [halike.batches]
  split
  · exact (halike.withBatches _).announce _
  · exact halike

theorem close (slots : List Slot) : observer.Alike (watched.close slots) (host.close slots) := by
  unfold Host.close
  induction slots generalizing watched host with
  | nil => exact halike
  | cons slot slots ih => exact ih (halike.settle slot .closed)

theorem allOutcomes? (tasks : List TaskId) : host.allOutcomes? tasks = watched.allOutcomes? tasks := by
  induction tasks with
  | nil => rfl
  | cons task tasks ih => simp only [Host.allOutcomes?, halike.outcome?, ih]

theorem firstFailure? (tasks : List TaskId) : host.firstFailure? tasks = watched.firstFailure? tasks := by
  induction tasks with
  | nil => rfl
  | cons task tasks ih => simp only [Host.firstFailure?, halike.outcome?, ih]

theorem untilFailure (tasks : List TaskId) : host.untilFailure tasks = watched.untilFailure tasks := by
  induction tasks with
  | nil => rfl
  | cons task tasks ih => simp only [Host.untilFailure, halike.outcome?, ih]

theorem look {α : Type} (looked tasks : List TaskId) (answer : Option α) :
    observer.SameReaction (watched.look looked tasks answer) (host.look looked tasks answer) := by
  unfold Host.look
  cases answer with
  | none => exact .wait (halike.collectAll looked) _
  | some answer => exact .reply (halike.collectAll looked) answer

/-- Hosts that are alike react to actions alike. -/
theorem react (action : Action) : observer.SameReaction (watched.react action) (host.react action) := by
  cases action with
  | log entry => exact .reply ({ halike with } : observer.Alike (watched.write entry) (host.write entry)) ()
  | emit event => exact .reply (halike.emit event event) ()
  | load name =>
      simp only [Host.react, Host.load, halike.shared]
      exact .reply halike _
  | store name value =>
      have hstored : observer.Alike (watched.store name value) (host.store name value) :=
        { halike with shared := by simp only [Host.store, halike.shared] }
      exact .reply hstored ()
  | count meter tally =>
      have hcounted : observer.Alike { watched with tallies := (meter, tally) :: watched.tallies }
          { host with tallies := (meter, tally) :: host.tallies } := { halike with }
      exact .reply hcounted ()
  | mint count =>
      obtain ⟨hanswer, hminted⟩ := halike.run (.mint count fun identity => .done identity)
      have hanswer : (host.mint count).1 = (watched.mint count).1 := hanswer
      simp only [Host.react, hanswer]
      exact .reply hminted _
  | now =>
      simp only [Host.react, halike.timers]
      exact .reply halike _
  | settlements =>
      simp only [Host.react, funext halike.isSettled]
      exact .reply halike _
  | settled task =>
      simp only [Host.react, halike.isSettled]
      exact .reply halike _
  | cancel task => exact .reply (halike.cancel task) ()
  | join tasks =>
      simp only [Host.react, halike.allOutcomes?]
      exact halike.look _ _ _
  | firstFailure tasks =>
      simp only [Host.react, halike.firstFailure?, halike.untilFailure]
      exact halike.look _ _ _
  | yieldTurn => exact .giveWay halike ()
  | arm delay =>
      have hwaits : (host.scheduled && decide (0 < delay)) = (watched.scheduled && decide (0 < delay)) := by
        rw [halike.scheduled]
      simp only [Host.react, hwaits, halike.timers]
      split
      · exact .reply (halike.withTimers _) _
      · exact .reply halike _
  | expired timers =>
      simp only [Host.react, halike.timers]
      split
      · exact .reply (halike.withTimers _) _
      · exact .wait halike _
  | disarm timers =>
      simp only [Host.react, halike.timers]
      exact .reply (halike.withTimers _) ()
  | enroll group args =>
      simp only [Host.react, halike.batches]
      exact .reply (halike.withBatches _) _
  | collect group =>
      simp only [Host.react, halike.batches]
      exact .reply (halike.withBatches _) _
  | abandon group =>
      simp only [Host.react, halike.batches]
      exact .reply ((halike.withBatches _).close _) ()
  | answer slot outcome => exact .reply (halike.settle slot _) ()
  | receive slot =>
      simp only [Host.react, halike.batches]
      split
      · exact .reply halike _
      · exact .reply halike _
      · exact .wait halike _

end Alike
end Observer
end EffectMachine
