import EffectMachine.Proofs.Cancellation.Calls
import EffectMachine.Proofs.Concurrent.Results
import EffectMachine.Proofs.Interleaving.Occurrences

/-!
# Failures of all

When a task of `all` fails, the operation meets the failure at one moment.  From then on it cancels its tasks one after
another: it looks whether a task has settled by then, asks those that have not to cancel, and waits for these.  Running
processes may be stopped at any point in between, so every task has a moment of its own at which it is looked at.

* `Concurrent.CancelCall` says what canceling one task came to, and `Concurrent.Aborted` how a failure is reported with it.
* `Concurrent.answers_of_signals` goes through the tasks in order.
* `Concurrent.failure_of_all` is the main statement.
-/

namespace EffectMachine
namespace Concurrent

variable {machine : Machine} {first : Host} {trace : Trace} {system : System} {task : TaskId}

/-! ## What is reported -/

/-- What canceling a task comes to on the way from one system to another.  The process looks whether the task has settled
by then.  If it has, there is nothing to report; otherwise it is asked to cancel, and the outcome of the task tells what
there is to report: an error, or nothing. -/
inductive CancelCall (machine : Machine) (system : System) (trace : Trace) (final : System) (task forked : TaskId) :
    Option Error → Prop
  | spared {before after : Trace} {seen : System}
      (hlook : ActsAt machine system trace final task (.acted (.settled forked) true) before seen after)
      (hsettled : seen.host.isSettled forked = true) : CancelCall machine system trace final task forked none
  | awaited {before after : Trace} {seen : System} {outcome : Outcome} {answer : Option Error}
      (hlook : ActsAt machine system trace final task (.acted (.settled forked) false) before seen after)
      (hunsettled : seen.host.isSettled forked = false) (hasked : (task, .acted (.cancel forked) ()) ∈ trace)
      (houtcome : final.host.outcome? forked = some outcome) (hanswer : CancelAnswer outcome answer) :
      CancelCall machine system trace final task forked answer

/-- The errors among answers that are not the one that was observed. -/
def otherFailures (observed : Error) (answers : List (Option Error)) : List Error :=
  (answers.filterMap id).filter fun failure => !failure.same observed

/-- A failure of a task of `all` is reported. -/
structure Aborted (machine : Machine) (first : Host) (trace : Trace) (system : System) (task : TaskId)
    (tasks : List TaskId) (outcome : Outcome) (observed reported : Error) (answers : List (Option Error))
    (earlier : Trace) (seen : System) (later : Trace) : Prop where
  /-- It is observed at one moment: it is the first one that is found among the tasks as they are then. -/
  observes : ActsAt machine { host := first } trace system task (.acted (.firstFailure tasks) (.error observed)) earlier
    seen later
  found : seen.host.firstFailure? tasks = some (.error observed)
  /-- From this moment on all tasks are canceled; these are the answers, in the order of the tasks. -/
  calls : List.Forall₂ (CancelCall machine seen ((task, .acted (.firstFailure tasks) (.error observed)) :: later) system task)
    tasks answers
  /-- A task that has settled by this moment, even with a failure, contributes nothing. -/
  settled : List.Forall₂ (fun forked answer => seen.host.isSettled forked = true → answer = none) tasks answers
  delivered : outcome = .error reported
  same : reported.same observed = true
  /-- Without any other failure it is reported as it was. -/
  plain : otherFailures observed answers = [] → reported = observed
  /-- Other failures are attached, in order. -/
  attached : otherFailures observed answers ≠ [] → reported = .aggregate observed (otherFailures observed answers)

/-! ## Going through the tasks -/

theorem exists_of_forall₂ {α β : Type} {related : α → β → Prop} {left : List α} {right : List β}
    (hrelated : List.Forall₂ related left right) {a : α} (hmem : a ∈ left) : ∃ b ∈ right, related a b := by
  induction hrelated with
  | nil => cases hmem
  | cons hfirst _ ih =>
      rcases List.mem_cons.1 hmem with rfl | hrest
      · exact ⟨_, List.mem_cons_self, hfirst⟩
      · obtain ⟨b, hb, h⟩ := ih hrest
        exact ⟨b, List.mem_cons_of_mem _ hb, h⟩

/-- Asking tasks to cancel, and waiting for those that were asked, has an answer for each task; the failures are those
that are found in the outcomes. -/
theorem answers_of_signals {tasks asked : List TaskId} {acts : List Act} (signals : Signals tasks acts asked)
    {host : Host} {outcomes : List Outcome}
    (houtcomes : List.Forall₂ (fun task outcome => host.outcome? task = some outcome) asked outcomes)
    (answered : TaskId → Option Error → Prop)
    (hover : ∀ task, .acted (.settled task) true ∈ acts → answered task none)
    (hawaited : ∀ task outcome answer, .acted (.settled task) false ∈ acts → .acted (.cancel task) () ∈ acts →
      host.outcome? task = some outcome → CancelAnswer outcome answer → answered task answer) :
    ∃ answers, List.Forall₂ answered tasks answers ∧ answers.filterMap id = outcomes.filterMap cancelFailure := by
  induction signals generalizing outcomes with
  | done =>
      cases houtcomes
      exact ⟨[], .nil, rfl⟩
  | spared task rest ih =>
      obtain ⟨answers, hanswers, hfailures⟩ := ih houtcomes
        (fun other hmem => hover other (List.mem_cons_of_mem _ hmem))
        fun other outcome answer hlook hcancel =>
          hawaited other outcome answer (List.mem_cons_of_mem _ hlook) (List.mem_cons_of_mem _ hcancel)
      exact ⟨none :: answers, .cons (hover task List.mem_cons_self) hanswers, hfailures⟩
  | ask task rest ih =>
      cases houtcomes with
      | @cons _ outcome _ outcomes houtcome houtcomes =>
          have hlater {act : Act} {acts : List Act} {look told ask : Act} (hmem : act ∈ acts) :
              act ∈ look :: told :: ask :: acts :=
            List.mem_cons_of_mem _ (List.mem_cons_of_mem _ (List.mem_cons_of_mem _ hmem))
          obtain ⟨answers, hanswers, hfailures⟩ := ih houtcomes (fun other hmem => hover other (hlater hmem))
            fun other outcome answer hlook hcancel => hawaited other outcome answer (hlater hlook) (hlater hcancel)
          have hfirst : answered task (cancelFailure outcome) :=
            hawaited task outcome _ List.mem_cons_self (by simp) houtcome (cancelAnswer outcome)
          refine ⟨cancelFailure outcome :: answers, .cons hfirst hanswers, ?_⟩
          rw [List.filterMap_cons, List.filterMap_cons, hfailures]
          rfl

/-- What is looked for at some moment tells whether the task has settled by then. -/
theorem isSettled_of_react {host : Host} {forked : TaskId} {settled : Bool}
    (hreact : ∃ later, host.react (.settled forked) = .reply later settled ∨
      host.react (.settled forked) = .giveWay later settled) : host.isSettled forked = settled := by
  obtain ⟨later, hreact | hreact⟩ := hreact
  · cases hreact
    rfl
  · cases hreact

/-- A look at a task on the way from one system to another happens at a moment, and tells whether the task has settled by
then. -/
theorem exists_look {final : System} {forked : TaskId} {settled : Bool} (proceeds : Proceeds machine system trace final)
    (hsound : system.Sound) (hmem : (task, .acted (.settled forked) settled) ∈ trace) :
    ∃ before seen after, ActsAt machine system trace final task (.acted (.settled forked) settled) before seen after ∧
      seen.host.isSettled forked = settled := by
  obtain ⟨before, after, hsplit⟩ := List.append_of_mem hmem
  obtain ⟨seen, hlook, hreact⟩ := proceeds.actsAt hsound hsplit
  exact ⟨before, seen, after, hlook, isSettled_of_react hreact⟩

/-- The failure that is observed is the first one that is found among the tasks. -/
theorem firstFailure?_of_react {host : Host} {tasks : List TaskId} {reply : Except Error (List Value)}
    (hreact : ∃ later, host.react (.firstFailure tasks) = .reply later reply ∨
      host.react (.firstFailure tasks) = .giveWay later reply) : host.firstFailure? tasks = some reply := by
  obtain ⟨later, hreact⟩ := hreact
  simp only [Host.react, Host.look] at hreact
  split at hreact
  · rename_i answer hanswer
    rcases hreact with hreact | hreact
    · cases hreact
      exact hanswer
    · cases hreact
  · rcases hreact with hreact | hreact <;> cases hreact

/-- Failure of `all`.  If a task of `all` fails, then whatever the order in which tasks settle, an outcome that is
delivered reports the failure that the operation observed; the tasks are those of the effects, in order. -/
theorem failure_of_all (runs : Runs machine first trace system)
    (hfork : machine.registry.hasHandlers Kind.fork = false) {number : Nat} {operation : Effect} {effects : List Effect}
    (heffects : effectsOf operation = .ok effects) {tag : Option HandlerTag}
    (hpushed : .pushed (allComputation operation) tag ∈ life (deeds trace task) number)
    (hcalm : .noticed ∉ deeds trace task) (haccepted : ¬ Refused (life (deeds trace task) number)) {outcome : Outcome}
    (hdelivered : .completed outcome ∈ life (deeds trace task) number)
    (hfailed : ∃ forked ∈ handles (life (deeds trace task) number), ∃ error,
      system.host.outcome? forked = some (.error error)) :
    List.Forall₂ (Offspring machine trace system) effects (handles (life (deeds trace task) number)) ∧
      ∃ observed reported answers earlier seen later,
        Aborted machine first trace system task (handles (life (deeds trace task) number)) outcome observed reported
          answers earlier seen later := by
  have hreplies : RepliesHold (life (deeds trace task) number) system.host :=
    fun action reply hacted => runs.reply_holds hacted
  constructor
  · have horder := runs.forksInOrder hfork hcalm Gathering.awaitAll (body_all heffects) hpushed haccepted
    obtain ⟨before, after, hsplit⟩ := List.append_of_mem hdelivered
    obtain ⟨-, hlength, hsame⟩ := horder.first before _ after hsplit rfl
    have hoffspring := horder.offspring
    rwa [← hsame, hlength, List.take_length, hsame] at hoffspring
  · obtain ⟨begun, path, hstrides, completes⟩ := runs.completes hpushed hdelivered
    rw [body_all heffects] at completes
    rcases refused_or_forked awaitAll hstrides completes fun h => (strides_awaitAll h).1 with
      ⟨⟨answer, hanswer, error, hrefused, -⟩, -⟩ | ⟨-, before, later, rfl, hlater, hawaited⟩
    · exact absurd ⟨answer, hanswer, error, hrefused⟩ haccepted
    · rcases (strides_awaitAll hawaited).2 with
        ⟨values, hvalues, -⟩ | ⟨observed, asked, outcomes, called, rfl, signals, rfl⟩
      · -- a task that has failed is none of those that have all succeeded
        obtain ⟨forked, hforked, error, herror⟩ := hfailed
        have hsucceeded := forall₂_of_allOutcomes? (hreplies _ _ (hlater.subset hvalues))
        obtain ⟨outcome, hmem, houtcome⟩ := exists_of_forall₂ hsucceeded hforked
        obtain ⟨value, -, rfl⟩ := List.mem_map.1 hmem
        rw [herror] at houtcome
        cases houtcome
      · -- the moment at which the failure is observed, and what the process does since
        have hacts : strides (life (deeds trace task) number) = .resumed begun :: before ++
            .acted (.firstFailure (handles (life (deeds trace task) number))) (.error observed) :: (called ++ _) := hstrides
        obtain ⟨done, further, hdeeds, hfurther⟩ := exists_of_strides_cons hacts
        obtain ⟨earlier, rest, htrace, -, hrest⟩ := exists_of_deeds hdeeds
        obtain ⟨seen, hseen, hobserved⟩ := runs.proceeds.actsAt (fun _ _ hnone => nomatch hnone) htrace
        have hsound := hseen.comes.sound (fun _ _ hnone => nomatch hnone)
        have hcalled {act : Act} (hmem : act ∈ called) :
            (task, act) ∈ (task, .acted (.firstFailure (handles (life (deeds trace task) number))) (.error observed)) :: rest :=
          List.mem_cons_of_mem _ (mem_deeds_iff.1 (hrest ▸ hfurther (List.mem_append_left _ hmem)))
        have hjoined := forall₂_of_allOutcomes? (hreplies (.join asked) outcomes (hlater.subset (by simp)))
        obtain ⟨answers, hanswers, hfailures⟩ := answers_of_signals signals hjoined
          (fun forked answer =>
            CancelCall machine seen
              ((task, .acted (.firstFailure (handles (life (deeds trace task) number))) (.error observed)) :: rest) system
              task forked answer ∧ (seen.host.isSettled forked = true → answer = none))
          (fun forked hmem => by
            obtain ⟨_, _, _, hlook, hsettled⟩ := exists_look hseen.goesOn hsound (hcalled hmem)
            exact ⟨.spared hlook hsettled, fun _ => rfl⟩)
          (fun forked outcome answer hmem hcanceled houtcome hanswer => by
            obtain ⟨_, _, _, hlook, hunsettled⟩ := exists_look hseen.goesOn hsound (hcalled hmem)
            -- a task that had settled by the failure would still have at its look
            refine ⟨.awaited hlook hunsettled (hcalled hcanceled) houtcome hanswer, fun hsettled => ?_⟩
            rw [(hlook.comes.lasts hsound).isSettled hsettled] at hunsettled
            cases hunsettled)
        rw [← hfailures]
        exact ⟨observed, _, answers, earlier, seen, rest,
          { observes := hseen
            found := firstFailure?_of_react hobserved
            calls := hanswers.imp fun _ _ h => h.1
            settled := hanswers.imp fun _ _ h => h.2
            delivered := rfl
            same := (Error.same_withErrors _ _ _).trans observed.same_refl
            plain := fun hnone => congrArg observed.withErrors hnone
            attached := fun hsome => if_neg fun hempty => hsome (List.isEmpty_iff.1 hempty) }⟩

/-! ## A run in which a sibling fails to clean up -/

/-- An effect that takes some time before it goes on, and fails to clean up. -/
def untidy : Effect :=
  .bare ⟨none, .perform (.defer (.bare (.failing (.type "left open")))) fun _ => .sleep 10 (.perform slow .done)⟩

/-- Two effects that take some time, and one that fails. -/
def aborting : Trace × System :=
  gathering (all [untidy, slow, .bare (.failing (.type "broken"))])

theorem exists_error {outcome : Option Outcome} (hfailed : outcome.any (fun outcome => !outcome.isOk) = true) :
    ∃ error, outcome = some (.error error) := by
  cases outcome with
  | none => cases hfailed
  | some outcome =>
      cases outcome with
      | error error => exact ⟨error, rfl⟩
      | ok value => cases hfailed

/-- The failure of one of three effects is reported with the one failure of its siblings to clean up. -/
theorem failure_of_aborting :
    ∃ host observed reported answers earlier seen later,
      Aborted serving host aborting.1 aborting.2 ⟨0⟩ [⟨1⟩, ⟨2⟩, ⟨3⟩] (.error reported) observed reported answers earlier seen
        later ∧
      failureOf aborting = some reported ∧ reported.attached.length = 1 := by
  have hfork : serving.registry.hasHandlers Kind.fork = false := by decide +kernel
  have runs : Runs serving _ aborting.1 aborting.2 := Runs.submitted serving (.blank 0) _ 61
  obtain ⟨haccepted, hcalm⟩ := accepted_of_calm aborting (by decide +kernel) (by decide +kernel)
  have hhandles : handles (life (deeds aborting.1 ⟨0⟩) 1) = [⟨1⟩, ⟨2⟩, ⟨3⟩] := by decide +kernel
  have hpushed := all_mem_life_gathering [untidy, slow, .bare (.failing (.type "broken"))]
  obtain ⟨delivered, hdelivered⟩ : ∃ error, failureOf aborting = some error :=
    Option.isSome_iff_exists.1 (by decide +kernel)
  have hattached : (failureOf aborting).map (fun error => error.attached.length) = some 1 := by decide +kernel
  have hfailed : ∃ forked ∈ handles (life (deeds aborting.1 ⟨0⟩) 1), ∃ error,
      aborting.2.host.outcome? forked = some (.error error) := by
    refine ⟨⟨3⟩, by simp [hhandles], exists_error ?_⟩
    decide +kernel
  obtain ⟨-, observed, reported, answers, earlier, seen, later, aborted⟩ :=
    failure_of_all runs hfork (effectsOf_all _) hpushed hcalm haccepted (completed_of_failureOf hdelivered) hfailed
  cases aborted.delivered
  rw [hhandles] at aborted
  rw [hdelivered] at hattached
  exact ⟨_, observed, delivered, answers, earlier, seen, later, aborted, hdelivered, Option.some.inj hattached⟩

end Concurrent
end EffectMachine
