import EffectMachine.Plugin.Concurrent
import EffectMachine.Proofs.Interleaving.Execution
import EffectMachine.Proofs.Interleaving.Replies

/-!
# Orphans

The operations `all` and `allSettled` fork tasks and answer for them: when an outcome is delivered, no task
is left running.  This is so as long as every effect is accepted when it is forked.  One that is refused ends
the operation at once, whatever became of the tasks that were forked before it.

* `Concurrent.handles` are the tasks that a frame forked, `Concurrent.Refused` says that one of its effects was not forked.
* `Completes.of_forkEach`, `Completes.of_cancelEach` follow the computations through their phases.
* `Concurrent.settled_of_delivered` is the main statement: if nothing was refused, every task has settled, and those
  that were running at a failure were asked to cancel and awaited first; after a refusal nothing is done.
* `Concurrent.orphan_of_refusing` is a run in which a refusal leaves a task running.
-/

namespace EffectMachine
namespace Concurrent

/-- The task that an effect was forked as. -/
def taskOf (answer : Outcome) : Except Error TaskId :=
  answer.bind Value.intoTask

/-- The tasks that a frame forked. -/
def handles (acts : List Act) : List TaskId :=
  (answers acts).filterMap fun answer => (taskOf answer).toOption

/-- Some effect was not forked. -/
def Refused (acts : List Act) : Prop :=
  ∃ answer ∈ answers acts, ∃ error, taskOf answer = .error error

/-- A computation that does nothing by itself. -/
def Passive (acts : List Act) : Prop :=
  ∀ (action : Action) (reply : action.Reply), .acted action reply ∉ acts

/-- A task of a failed operation was stopped before the failure was delivered: after the failure was observed the
operation looked whether the task had settled by then, and one that had not was asked to cancel and awaited. -/
inductive Stopped (acts : List Act) (outcome : Outcome) (task : TaskId) : Prop
  | settled (error : Error)
      (hacts : [.acted (.firstFailure (handles acts)) (.error error), .acted (.settled task) true,
        .completed outcome].Sublist acts) : Stopped acts outcome task
  | awaited (error : Error) {asked : List TaskId} (outcomes : List Outcome) (hmem : task ∈ asked)
      (hasked : asked.Sublist (handles acts))
      (hacts : [.acted (.firstFailure (handles acts)) (.error error), .acted (.settled task) false,
        .acted (.cancel task) (), .acted (.join asked) outcomes, .completed outcome].Sublist acts) :
      Stopped acts outcome task

/-- What a computation does that asks tasks to cancel one after another, and those that it asked: the ones that had not
settled when it looked. -/
inductive Signals : List TaskId → List Act → List TaskId → Prop
  | done : Signals [] [] []
  | spared (task : TaskId) {tasks asked : List TaskId} {acts : List Act} (rest : Signals tasks acts asked) :
      Signals (task :: tasks) (.acted (.settled task) true :: acts) asked
  | ask (task : TaskId) {tasks asked : List TaskId} {acts : List Act} (rest : Signals tasks acts asked) :
      Signals (task :: tasks)
        (.acted (.settled task) false :: .acted (.emit (.cancelling task)) () :: .acted (.cancel task) () :: acts)
        (task :: asked)

namespace Signals

variable {tasks asked : List TaskId} {acts : List Act}

/-- Asking tasks to cancel performs no effect. -/
theorem resumptions_eq (signals : Signals tasks acts asked) : resumptions acts = [] := by
  induction signals with
  | done => rfl
  | spared _ _ ih | ask _ _ ih => exact ih

/-- Only tasks of the list are asked to cancel. -/
theorem asked_sublist (signals : Signals tasks acts asked) : asked.Sublist tasks := by
  induction signals with
  | done => exact .slnil
  | spared task _ ih => exact ih.cons task
  | ask task _ ih => exact ih.cons_cons task

/-- Every task of the list had settled when the computation looked, or was asked to cancel next. -/
theorem looked (signals : Signals tasks acts asked) {task : TaskId} (hmem : task ∈ tasks) :
    .acted (.settled task) true ∈ acts ∨
      task ∈ asked ∧ [.acted (.settled task) false, .acted (.cancel task) ()].Sublist acts := by
  induction signals with
  | done => cases hmem
  | spared other _ ih =>
      rcases List.mem_cons.1 hmem with rfl | hrest
      · exact .inl List.mem_cons_self
      · exact (ih hrest).imp (List.mem_cons_of_mem _) fun h => ⟨h.1, h.2.cons _⟩
  | ask other _ ih =>
      rcases List.mem_cons.1 hmem with rfl | hrest
      · exact .inr ⟨List.mem_cons_self, .cons_cons _ (.cons _ (.cons_cons _ (List.nil_sublist _)))⟩
      · refine (ih hrest).imp (fun h => ?_) fun h => ⟨List.mem_cons_of_mem _ h.1, ?_⟩
        · exact List.mem_cons_of_mem _ (List.mem_cons_of_mem _ (List.mem_cons_of_mem _ h))
        · exact ((h.2.cons _).cons _).cons _

end Signals

end Concurrent

open Concurrent

namespace Completes

variable {acts : List Act} {outcome : Outcome}

/-- Forking effects one after another ends with a refusal, or goes on with all tasks. -/
theorem of_forkEach {tasks : List TaskId} {rest : List TaskId → Body} {effects : List Effect}
    (completes : Completes (forkEach tasks rest effects) acts outcome) :
    (∃ answer ∈ resumptions acts, ∃ error, taskOf answer = .error error ∧ outcome = .error error ∧
      Passive acts) ∨
    ∃ forked before later, acts = before ++ later ∧
      resumptions before = forked.map (fun task => .ok (.task task)) ∧
      Completes (rest (tasks ++ forked)) later outcome := by
  induction effects generalizing tasks acts with
  | nil =>
      unfold forkEach at completes
      exact .inr ⟨[], [], acts, rfl, rfl, by simpa using completes⟩
  | cons effect effects ih =>
      unfold forkEach Body.andThen at completes
      cases completes with
      | @perform _ _ answer later _ hrest =>
          cases answer with
          | error error =>
              cases hrest
              refine .inl ⟨.error error, by simp [resumptions, Act.resumption?], error, rfl, rfl, ?_⟩
              intro action reply hmem
              simp at hmem
          | ok value =>
              cases htask : value.intoTask with
              | error error =>
                  simp only [htask] at hrest
                  cases hrest
                  refine .inl ⟨.ok value, by simp [resumptions, Act.resumption?], error, htask, rfl, ?_⟩
                  intro action reply hmem
                  simp at hmem
              | ok task =>
                  simp only [htask] at hrest
                  have hvalue : value = .task task := by
                    unfold Value.intoTask at htask
                    split at htask
                    · cases htask
                      rfl
                    · cases htask
                  rcases ih hrest with ⟨answer, hanswer, error, hrefused, houtcome, hpassive⟩ |
                    ⟨forked, before, after, rfl, hbefore, hafter⟩
                  · refine .inl ⟨answer, List.mem_cons_of_mem _ hanswer, error, hrefused, houtcome, ?_⟩
                    intro action reply hmem
                    exact hpassive action reply (by simpa using hmem)
                  · refine .inr ⟨task :: forked, .performed (.fork effect) :: .resumed (.ok value) :: before,
                      after, rfl, ?_, by simpa using hafter⟩
                    show Except.ok value :: resumptions before = _
                    rw [hbefore, hvalue]
                    rfl

/-- Asking tasks to cancel looks at each of them, and goes on with those that were asked. -/
theorem of_signalEach {tasks : List TaskId} {rest : List TaskId → Body}
    (completes : Completes (signalEach tasks rest) acts outcome) :
    ∃ asked before later, acts = before ++ later ∧ Signals tasks before asked ∧ Completes (rest asked) later outcome := by
  induction tasks generalizing rest acts with
  | nil => exact ⟨[], [], acts, rfl, .done, completes⟩
  | cons task tasks ih =>
      unfold signalEach Body.emit at completes
      cases completes with
      | @act _ _ settled _ _ hlooked =>
          cases settled with
          | true =>
              obtain ⟨asked, before, later, rfl, signals, hlater⟩ := ih hlooked
              exact ⟨asked, _ :: before, later, rfl, .spared task signals, hlater⟩
          | false =>
              cases hlooked with
              | act htold =>
                  cases htold with
                  | act hrest =>
                      obtain ⟨asked, before, later, rfl, signals, hlater⟩ := ih hrest
                      exact ⟨task :: asked, _ :: _ :: _ :: before, later, rfl, .ask task signals, hlater⟩

/-- Canceling tasks asks those that have not settled to cancel, and waits for them. -/
theorem of_cancelEach {tasks : List TaskId} {rest : List Error → Body}
    (completes : Completes (cancelEach tasks rest) acts outcome) :
    ∃ (asked : List TaskId) (outcomes : List Outcome) (before later : List Act),
      acts = before ++ .acted (.join asked) outcomes :: later ∧ Signals tasks before asked ∧
      Completes (rest (outcomes.filterMap cancelFailure)) later outcome := by
  obtain ⟨asked, before, later, rfl, signals, hlater⟩ := of_signalEach completes
  cases hlater with
  | @act _ _ outcomes later _ hjoined => exact ⟨asked, outcomes, before, later, rfl, signals, hjoined⟩

end Completes

namespace Concurrent

/-- What `all` does with its tasks once all effects are forked. -/
def awaitAll (tasks : List TaskId) : Body :=
  .act (.firstFailure tasks) fun
    | .ok values => .ok (.list values)
    | .error error =>
      cancelEach tasks fun failures =>
        .fail (error.withErrors (failures.filter fun failure => !failure.same error))

/-- What `allSettled` does with its tasks once all effects are forked. -/
def awaitAllSettled (tasks : List TaskId) : Body :=
  .act (.join tasks) fun (outcomes : List Outcome) => .ok (.list (outcomes.map Value.settled))

/-- The strides of `all` after the forks: a success of all tasks, or a failure after which the tasks are canceled one
after another and awaited. -/
theorem strides_awaitAll {tasks : List TaskId} {acts : List Act} {outcome : Outcome}
    (completes : Completes (awaitAll tasks) acts outcome) :
    resumptions acts = [] ∧
      ((∃ values, .acted (.firstFailure tasks) (.ok values) ∈ acts ∧ outcome = .ok (.list values)) ∨
      ∃ (error : Error) (asked : List TaskId) (outcomes : List Outcome) (before : List Act),
        acts = .acted (.firstFailure tasks) (.error error) ::
          (before ++ [.acted (.join asked) outcomes, .completed outcome]) ∧
        Signals tasks before asked ∧
        outcome = .error (error.withErrors
          ((outcomes.filterMap cancelFailure).filter fun failure => !failure.same error))) := by
  unfold awaitAll at completes
  cases completes with
  | @act _ _ reply later _ hrest =>
      cases reply with
      | ok values =>
          cases hrest
          exact ⟨rfl, .inl ⟨values, List.mem_cons_self, rfl⟩⟩
      | error error =>
          obtain ⟨asked, outcomes, before, after, rfl, signals, hafter⟩ := Completes.of_cancelEach hrest
          cases hafter
          refine ⟨?_, .inr ⟨error, asked, outcomes, before, rfl, signals, rfl⟩⟩
          show resumptions (before ++ _) = []
          rw [resumptions_append, signals.resumptions_eq]
          rfl

/-- The strides of `allSettled` after the forks: all tasks are awaited. -/
theorem strides_awaitAllSettled {tasks : List TaskId} {acts : List Act} {outcome : Outcome}
    (completes : Completes (awaitAllSettled tasks) acts outcome) :
    ∃ outcomes : List Outcome,
      acts = [.acted (.join tasks) outcomes, .completed outcome] ∧
        outcome = .ok (.list (outcomes.map Value.settled)) := by
  unfold awaitAllSettled at completes
  cases completes with
  | @act _ _ outcomes later _ hrest =>
      cases hrest
      exact ⟨outcomes, rfl, rfl⟩

section Life

variable {life path : List Act} {begun outcome : Outcome}

/-- The outcomes of the forks are those that the computation was resumed with after it began. -/
theorem answers_eq (hstrides : strides life = .resumed begun :: path) : answers life = resumptions path := by
  rw [answers, ← resumptions_strides, hstrides]
  rfl

/-- What a computation does is done in the life of its frame. -/
theorem sublist_of_path (hstrides : strides life = .resumed begun :: path) : path.Sublist life := by
  have hsublist : (strides life).Sublist life := List.filter_sublist
  rw [hstrides] at hsublist
  exact (List.sublist_cons_self _ path).trans hsublist

/-- A computation whose strides are passive is passive. -/
theorem passive_of_path (hstrides : strides life = .resumed begun :: path) (hpassive : Passive path) :
    Passive life := by
  intro action reply hmem
  have hstride : .acted action reply ∈ strides life := mem_strides.2 ⟨hmem, rfl⟩
  rw [hstrides] at hstride
  exact hpassive action reply (by simpa using hstride)

/-- What becomes of forking the effects of an operation: one is refused, which ends the operation at once, or
the operation goes on with the tasks of all. -/
theorem refused_or_forked (rest : List TaskId → Body) {effects : List Effect}
    (hstrides : strides life = .resumed begun :: path)
    (completes : Completes (forkEach [] rest effects) path outcome)
    (hquiet : ∀ {tasks later}, Completes (rest tasks) later outcome → resumptions later = []) :
    ((∃ answer ∈ answers life, ∃ error, taskOf answer = .error error ∧ outcome = .error error) ∧
      Passive life) ∨
    (¬ Refused life ∧ ∃ before later, path = before ++ later ∧ later.Sublist life ∧
      Completes (rest (handles life)) later outcome) := by
  have hanswers := answers_eq hstrides
  rcases completes.of_forkEach with ⟨answer, hanswer, error, hrefused, houtcome, hpassive⟩ |
    ⟨forked, before, later, rfl, hbefore, hlater⟩
  · exact .inl ⟨⟨answer, hanswers ▸ hanswer, error, hrefused, houtcome⟩, passive_of_path hstrides hpassive⟩
  · rw [resumptions_append, hbefore, hquiet hlater, List.append_nil] at hanswers
    have hhandles : handles life = forked := by
      rw [handles, hanswers, List.filterMap_map]
      exact List.filterMap_some
    refine .inr ⟨?_, before, later, rfl, (List.sublist_append_right _ _).trans (sublist_of_path hstrides), ?_⟩
    · rintro ⟨answer, hanswer, error, hrefused⟩
      rw [hanswers] at hanswer
      obtain ⟨task, _, rfl⟩ := List.mem_map.1 hanswer
      cases hrefused
    · rw [hhandles]
      exact hlater

/-- An operation whose effects cannot be read forks nothing. -/
theorem answers_of_unreadable {error : Error} (hstrides : strides life = .resumed begun :: path)
    (completes : Completes (.fail error) path outcome) : answers life = [] := by
  rw [answers_eq hstrides]
  cases completes
  rfl

/-- The tasks of an operation that delivers an outcome are accounted for: all of them have settled, or else
an effect was refused, with which the operation ended, and nothing was done about them. -/
structure Accounted (host : Host) (life : List Act) (outcome : Outcome) : Prop where
  settled : ¬ Refused life → ∀ forked ∈ handles life, host.isSettled forked = true
  refused : Refused life →
    (∃ answer ∈ answers life, ∃ error, taskOf answer = .error error ∧ outcome = .error error) ∧
      Passive life

/-- An operation that forked nothing has nothing to account for. -/
theorem Accounted.of_answers_eq_nil (host : Host) (hanswers : answers life = []) :
    Accounted host life outcome where
  settled := by simp [handles, hanswers]
  refused := by simp [Refused, hanswers]

variable {host : Host} {operation : Effect}

/-- The tasks of `all` are accounted for, and if it failed, those that were running were stopped. -/
theorem all_accounted (hreplies : RepliesHold life host)
    (hstrides : strides life = .resumed begun :: path)
    (completes : Completes (allComputation operation).body path outcome) :
    Accounted host life outcome ∧
      (¬ Refused life → ∀ error, outcome = .error error → ∀ forked ∈ handles life,
        Stopped life outcome forked) := by
  unfold allComputation Computation.named at completes
  cases heffects : effectsOf operation with
  | error error =>
      simp only [heffects] at completes
      have hanswers := answers_of_unreadable hstrides completes
      exact ⟨.of_answers_eq_nil host hanswers, by simp [handles, hanswers]⟩
  | ok effects =>
      simp only [heffects] at completes
      rcases refused_or_forked awaitAll hstrides completes fun h => (strides_awaitAll h).1 with
        hrefused | ⟨haccepted, _, later, -, hlater, hawaited⟩
      · have hrefusal : Refused life := by
          obtain ⟨⟨answer, hanswer, error, hrefused, _⟩, _⟩ := hrefused
          exact ⟨answer, hanswer, error, hrefused⟩
        exact ⟨⟨fun h => absurd hrefusal h, fun _ => hrefused⟩, fun h => absurd hrefusal h⟩
      · rcases (strides_awaitAll hawaited).2 with ⟨values, hvalues, rfl⟩ |
          ⟨error, asked, outcomes, before, rfl, signals, -⟩
        · have hall := hreplies _ _ (hlater.subset hvalues)
          exact ⟨⟨fun _ => Host.isSettled_of_allOutcomes? hall, fun h => absurd h haccepted⟩,
            fun _ error herror => nomatch herror⟩
        · have hjoined := hreplies (.join asked) outcomes (hlater.subset (by simp))
          refine ⟨⟨fun _ forked hforked => ?_, fun h => absurd h haccepted⟩, fun _ _ _ forked hforked => ?_⟩
          · rcases signals.looked hforked with hsettled | ⟨hasked, -⟩
            · exact hreplies (.settled forked) true (hlater.subset (by simp [hsettled])) rfl
            · exact Host.isSettled_of_allOutcomes? hjoined forked hasked
          · rcases signals.looked hforked with hsettled | ⟨hasked, hcanceled⟩
            · refine .settled error (List.Sublist.trans (.cons_cons _ ?_) hlater)
              exact (List.singleton_sublist.2 hsettled).append (List.sublist_cons_self _ _)
            · refine .awaited error outcomes hasked signals.asked_sublist (List.Sublist.trans (.cons_cons _ ?_) hlater)
              exact hcanceled.append (.refl _)

/-- The tasks of `allSettled` are accounted for. -/
theorem allSettled_accounted (hreplies : RepliesHold life host)
    (hstrides : strides life = .resumed begun :: path)
    (completes : Completes (allSettledComputation operation).body path outcome) :
    Accounted host life outcome := by
  unfold allSettledComputation Computation.named at completes
  cases heffects : effectsOf operation with
  | error error =>
      simp only [heffects] at completes
      exact .of_answers_eq_nil host (answers_of_unreadable hstrides completes)
  | ok effects =>
      simp only [heffects] at completes
      have hquiet {tasks : List TaskId} {later : List Act}
          (hawaited : Completes (awaitAllSettled tasks) later outcome) : resumptions later = [] := by
        obtain ⟨outcomes, rfl, _⟩ := strides_awaitAllSettled hawaited
        rfl
      rcases refused_or_forked awaitAllSettled hstrides completes hquiet with
        hrefused | ⟨haccepted, _, later, -, hlater, hawaited⟩
      · have hrefusal : Refused life := by
          obtain ⟨⟨answer, hanswer, error, hrefused, _⟩, _⟩ := hrefused
          exact ⟨answer, hanswer, error, hrefused⟩
        exact ⟨fun h => absurd hrefusal h, fun _ => hrefused⟩
      · obtain ⟨outcomes, rfl, _⟩ := strides_awaitAllSettled hawaited
        have hjoined := hreplies (.join (handles life)) outcomes (hlater.subset List.mem_cons_self)
        exact ⟨fun _ => Host.isSettled_of_allOutcomes? hjoined, fun h => absurd h haccepted⟩

end Life

/-- No orphans.  Whenever `all` or `allSettled` delivers an outcome, whatever the order in which tasks
succeed, fail or are canceled, its tasks are accounted for: every task has settled, unless an effect was
refused when it was to be forked; the outcome is then the refusal, and nothing was done about the tasks that
were forked before.  If `all` failed otherwise, those that were running at the failure were asked to cancel
and awaited first. -/
theorem settled_of_delivered {machine : Machine} {first : Host} {trace : Trace} {system : System}
    (runs : Runs machine first trace system) {task : TaskId} {number : Nat} {operation : Effect}
    {tag : Option HandlerTag} {outcome : Outcome}
    (hpushed : .pushed (allComputation operation) tag ∈ life (deeds trace task) number ∨
      .pushed (allSettledComputation operation) tag ∈ life (deeds trace task) number)
    (hdelivered : .completed outcome ∈ life (deeds trace task) number) :
    Accounted system.host (life (deeds trace task) number) outcome ∧
      (.pushed (allComputation operation) tag ∈ life (deeds trace task) number →
        ¬ Refused (life (deeds trace task) number) → ∀ error, outcome = .error error →
          ∀ forked ∈ handles (life (deeds trace task) number),
            Stopped (life (deeds trace task) number) outcome forked) := by
  have hreplies : RepliesHold (life (deeds trace task) number) system.host :=
    fun action reply hacted => runs.reply_holds hacted
  have hall (hpushed : .pushed (allComputation operation) tag ∈ life (deeds trace task) number) :
      Accounted system.host (life (deeds trace task) number) outcome ∧
        (¬ Refused (life (deeds trace task) number) → ∀ error, outcome = .error error →
          ∀ forked ∈ handles (life (deeds trace task) number),
            Stopped (life (deeds trace task) number) outcome forked) := by
    obtain ⟨begun, path, hstrides, completes⟩ := runs.completes hpushed hdelivered
    exact all_accounted hreplies hstrides completes
  rcases hpushed with hpushed | hpushed
  · exact ⟨(hall hpushed).1, fun h => (hall h).2⟩
  · obtain ⟨begun, path, hstrides, completes⟩ := runs.completes hpushed hdelivered
    exact ⟨allSettled_accounted hreplies hstrides completes, fun h => (hall h).2⟩

/-! ## Two runs of `all` -/

/-- A machine that serves `all`. -/
def sideBySide : Machine where
  registry :=
    { handlers :=
        [(Kind.under Kind.concurrent "all", .ofHandle fun operation _ => allComputation operation)] }
  library := ⟨fun _ _ => default⟩

/-- An effect that takes some time. -/
def slow : Effect :=
  .bare ⟨none, .sleep 10 (.ok .null)⟩

/-- A client that runs effects side by side, after some steps. -/
def running (effects : List Effect) (steps : Nat) : Trace × System :=
  (System.submitting (.blank 0) (all effects)).execute sideBySide (steps + 1)

theorem mem_life_running (effects : List Effect) (steps : Nat) :
    .pushed (allComputation (all effects)) (some ⟨(all effects).kind, 0⟩) ∈
      life (deeds (running effects steps).1 ⟨0⟩) 1 := by
  have hsubmission : sideBySide.submission (all effects) = all effects := by
    have hstart : sideBySide.registry.hasHandlers Kind.start = false := by decide +kernel
    simp [Machine.submission, hstart]
  have hhandlers : sideBySide.registry.handlersOf (all effects).operation.kind =
      [.ofHandle fun operation _ => allComputation operation] := by
    simp [Registry.handlersOf, sideBySide, all, Effect.operation, Effect.kind]
  exact Runs.mem_life_submitted hsubmission rfl hhandlers steps

/-- What the first frame of the client ended with, if it ended with an error. -/
def failureOf (run : Trace × System) : Option Error :=
  (life (deeds run.1 ⟨0⟩) 1).findSome? fun
    | .completed (.error error) => some error
    | _ => none

theorem completed_of_failureOf {run : Trace × System} {error : Error} (herror : failureOf run = some error) :
    .completed (.error error) ∈ life (deeds run.1 ⟨0⟩) 1 := by
  obtain ⟨act, hmem, hact⟩ := List.exists_of_findSome?_eq_some herror
  split at hact
  · cases hact
    exact hmem
  · cases hact

/-- Whether an effect of the first frame of the client was not forked. -/
def refuses (run : Trace × System) : Bool :=
  (answers (life (deeds run.1 ⟨0⟩) 1)).any fun answer => (taskOf answer).toOption.isNone

theorem refused_iff (run : Trace × System) :
    Refused (life (deeds run.1 ⟨0⟩) 1) ↔ refuses run = true := by
  unfold Refused refuses
  rw [List.any_eq_true]
  refine exists_congr fun answer => and_congr_right fun _ => ?_
  cases taskOf answer <;> simp [Except.toOption]

/-- A run in which one of two effects fails. -/
def failing : Trace × System :=
  running [slow, .bare (.failing .cancelled)] 50

/-- One of two effects fails: the other one is stopped, and has settled when the failure is delivered. -/
theorem settled_of_failing :
    handles (life (deeds failing.1 ⟨0⟩) 1) = [⟨1⟩, ⟨2⟩] ∧ ¬ Refused (life (deeds failing.1 ⟨0⟩) 1) ∧
      ∃ error, .completed (.error error) ∈ life (deeds failing.1 ⟨0⟩) 1 ∧
        Accounted failing.2.host (life (deeds failing.1 ⟨0⟩) 1) (.error error) ∧
        Stopped (life (deeds failing.1 ⟨0⟩) 1) (.error error) ⟨1⟩ := by
  have hhandles : handles (life (deeds failing.1 ⟨0⟩) 1) = [⟨1⟩, ⟨2⟩] := by decide +kernel
  have haccepted : ¬ Refused (life (deeds failing.1 ⟨0⟩) 1) := by
    rw [refused_iff]
    decide +kernel
  have hfailed : (failureOf failing).isSome = true := by decide +kernel
  obtain ⟨error, herror⟩ := Option.isSome_iff_exists.1 hfailed
  have hruns : Runs sideBySide _ failing.1 failing.2 := Runs.submitted sideBySide (.blank 0) _ 51
  have hpushed : .pushed (allComputation _) _ ∈ life (deeds failing.1 ⟨0⟩) 1 := mem_life_running _ 50
  have hcompleted := completed_of_failureOf herror
  obtain ⟨haccounted, hstopped⟩ := settled_of_delivered hruns (.inl hpushed) hcompleted
  have hmem : (⟨1⟩ : TaskId) ∈ handles (life (deeds failing.1 ⟨0⟩) 1) := by
    rw [hhandles]
    exact List.mem_cons_self
  exact ⟨hhandles, haccepted, error, hcompleted, haccounted,
    hstopped hpushed haccepted error rfl ⟨1⟩ hmem⟩

/-- A run in which the second of two effects is refused, for a terminal operation may not fork. -/
def refusing : Trace × System :=
  running [slow, .terminal (.fork (.bare (.ready .null)))] 20

/-- A refused effect leaves an orphan: `all` delivers the refusal while the task it forked before runs on. -/
theorem orphan_of_refusing :
    Refused (life (deeds refusing.1 ⟨0⟩) 1) ∧
      (∃ error, .completed (.error error) ∈ life (deeds refusing.1 ⟨0⟩) 1) ∧
      handles (life (deeds refusing.1 ⟨0⟩) 1) = [⟨1⟩] ∧ refusing.2.host.isSettled ⟨1⟩ = false ∧
      refusing.2.host.isCanceled ⟨1⟩ = false := by
  have hfailed : (failureOf refusing).isSome = true := by decide +kernel
  obtain ⟨error, herror⟩ := Option.isSome_iff_exists.1 hfailed
  refine ⟨(refused_iff refusing).2 (by decide +kernel), ⟨error, completed_of_failureOf herror⟩, ?_, ?_, ?_⟩
  · decide +kernel
  · decide +kernel
  · decide +kernel

end Concurrent
end EffectMachine
