import EffectMachine.Proofs.Batch.Delivery
import EffectMachine.Proofs.Batch.Openers
import EffectMachine.Proofs.Interleaving.Answers

/-!
# Enrolled calls are collected

A call that enrolls takes part in the batch that some call has opened.  The flush that this call launches collects the
batch, with all calls that have enrolled since.

* `Batch.exists_batch` finds the call that opened the batch which another call is enrolled in.
* `Batch.Setting.opened_before_acted` says that a batch is opened before the flush does anything by itself that was
  launched for it.
* `Batch.Setting.mem_of_collect` says that the flush collects all calls that are enrolled in the batch.
-/

namespace EffectMachine
/-- A computation that no handler asks to fork, and no validator checks, becomes a task of its own. -/
theorem Machine.handleActs_fork {machine : Machine} (hfork : machine.registry.hasHandlers Kind.fork = false)
    (hvalid : machine.registry.validator? Kind.fork = none) (computation : Computation) {run : Run}
    (hscheduled : run.host.scheduled = true) :
    machine.handleActs (.fork (.bare computation)) run = [.forked (.bare computation)] := by
  have hvalidate : machine.registry.validate (.fork (.bare computation)) = .done none := by
    simp [Registry.validate, Registry.validateOne, Registry.terminalRefusal, Effect.kind, hvalid]
  rw [(handle_eq_core hvalidate hfork run).2]
  simp [core, coreActs, fork, hscheduled, failureActs]

namespace Batch

variable {machine : Machine} {underlying : Nat → Function} {first : Host} {trace : Trace} {system : System}
variable {descent : Descent} {task opener flusher : TaskId} {number frame place : Nat} {group : BatchGroup}

/-- A call that is enrolled takes part in a batch that was opened and not closed since. -/
theorem exists_batch (recorded : Recorded trace) {before after : Trace} {args : List Value} {enrolment : Enrolment}
    (htrace : trace = before ++ (task, .acted (.enroll group args) enrolment) :: after) :
    ∃ earlier opener more opening mid, before ++ [(task, .acted (.enroll group args) enrolment)] =
        earlier ++ (opener, .acted (.enroll group more) opening) :: mid ∧
      (opening : Enrolment).opened = true ∧ ∀ entry ∈ mid, entry.2.removes group = false := by
  have hopen : booked group (before ++ [(task, .acted (.enroll group args) enrolment)]) ≠ [] := by
    rw [booked_concat]
    simp [Act.removes, Act.joins]
  obtain ⟨earlier, opener, more, opening, mid, hsplit, hempty, hkept⟩ := exists_opening hopen
  have hopening : trace = earlier ++ (opener, .acted (.enroll group more) opening) :: (mid ++ after) := by
    rw [htrace, List.append_cons, hsplit]
    simp
  exact ⟨earlier, opener, more, opening, mid, hsplit, (recorded earlier opener _ _ hopening).2.2 hempty, hkept⟩

/-- A flush that completes has collected its batch. -/
theorem Flushing.exists_collected {function : Function} {acts : List Act} {outcome : Outcome}
    (flushing : Flushing group function acts) (hcompleted : .completed outcome ∈ acts) :
    ∃ calls, .acted (.collect group) calls ∈ acts := by
  cases flushing with
  | waiting hprelude => cases hprelude _ hcompleted
  | calling calls => exact ⟨calls, by simp⟩
  | answering begun calls returned => exact ⟨calls, by simp⟩

/-- A flush that is not interrupted collects its batch. -/
theorem exists_collected (runs : Runs machine first trace system) {function : Function} {window : Nat}
    {tag : Option HandlerTag} (hpushed : .pushed (flush group function window) tag ∈ life (deeds trace task) number)
    (uninterrupted : Uninterrupted trace system task number) :
    ∃ calls, .acted (.collect group) calls ∈ life (deeds trace task) number := by
  obtain ⟨outcome, hcompleted⟩ := runs.completed_of_rest uninterrupted.rest hpushed
    (runs.not_mem_givenUp uninterrupted.calm number) uninterrupted.kept
  obtain ⟨calls, hcollected⟩ := (flushing_of_pushed runs hpushed).exists_collected (mem_strides.2 ⟨hcompleted, rfl⟩)
  exact ⟨calls, (mem_strides.1 hcollected).1⟩

namespace Setting

variable (setting : Setting machine underlying) (unintercepted : Unintercepted machine) (fresh : Fresh underlying first)
  (runs : Runs machine first trace system)
include setting fresh runs

/-- The service of a call enrolls nothing else. -/
theorem enrolled_alone {args more : List Value} {enrolment another : Enrolment} {other : BatchGroup} {acts rest : List Act}
    (henrolled : .acted (.enroll group args) enrolment ∈ life (deeds trace task) number)
    (hstrides : strides (life (deeds trace task) number) = acts ++ rest)
    (hacts : .acted (.enroll other more) another ∈ acts) :
    .acted (.enroll group args) enrolment ∈ acts ∧ other = group := by
  obtain ⟨kind, window, tag, begun, later, -, -, hcourse, joining⟩ := setting.service_of_enroll fresh runs henrolled
  rw [hcourse] at hstrides
  have hlater : .acted (.enroll other more) another ∉ later := fun hmem => by
    rcases joining.abandons_or_receives hmem rfl with hact | hact <;> cases hact
  rcases acts with _ | ⟨head, _ | ⟨second, acts⟩⟩
  · cases hacts
  · obtain rfl := List.mem_singleton.1 hacts
    cases (List.cons.inj hstrides).1
  · obtain ⟨rfl, hsecond⟩ := List.cons.inj hstrides
    obtain ⟨rfl, rfl⟩ := List.cons.inj hsecond
    refine ⟨List.mem_cons_of_mem _ List.mem_cons_self, ?_⟩
    simp only [List.mem_cons, reduceCtorEq, false_or] at hacts
    rcases hacts with hsame | hmem
    · cases hsame
      rfl
    · exact absurd (List.mem_append_left _ hmem) hlater

variable (lineage : Lineage machine underlying first descent trace system.parked)
include unintercepted lineage

/-- A batch is opened before a flush does anything by itself that was launched for it. -/
theorem opened_before_acted {window : Nat} {more : List Value} {opening : Enrolment}
    (hlaunched : LaunchedBy descent trace opener frame (flush group (underlying group.definition) window) flusher place)
    (hopening : .acted (.enroll group more) opening ∈ life (deeds trace opener) frame)
    {before after : Trace} {action : Action} {reply : action.Reply}
    (htrace : trace = before ++ (flusher, .acted action reply) :: after)
    (hactor : (Roll.after (deeds before flusher)).actor (.acted action reply) = place) :
    ∃ earlier mid, before = earlier ++ (opener, .acted (.enroll group more) opening) :: mid ∧
      (Roll.after (deeds earlier opener)).actor (.acted (.enroll group more) opening) = frame := by
  have hflushes : Flushes underlying (flush group (underlying group.definition) window) := ⟨group, window, rfl⟩
  -- the call was enrolled by the time its service launched the flush
  have hservice {effect : Effect} (hlaunch : effect.LaunchOf (flush group (underlying group.definition) window))
      {seen rest : List Act} (hdeeds : deeds trace opener = seen ++ .performed effect :: rest)
      (hperformed : (Roll.after seen).actor (.performed effect) = frame) :
      .acted (.enroll group more) opening ∈ life seen frame := by
    obtain ⟨_, _, _, _, _, -, -, -, hstrides⟩ :=
      setting.service_of_launch unintercepted fresh runs hflushes hlaunch hdeeds hperformed
    obtain ⟨later, hlater⟩ := exists_strides_of_split hdeeds hperformed rfl
    rw [hstrides] at hlater
    have halone := setting.enrolled_alone fresh runs hopening hlater (List.mem_cons_of_mem _ List.mem_cons_self)
    rw [← hstrides] at halone
    exact (mem_strides.1 halone.1).1
  have hearlier : .acted (.enroll group more) opening ∈ life (deeds before opener) frame := by
    cases hlaunched with
    | @here seen rest hdeeds hperformed =>
        have hmem := hservice (.inl rfl) hdeeds hperformed
        have hsplit : deeds trace opener = deeds before opener ++ .acted action reply :: deeds after opener := by
          rw [htrace, deeds_append]
          simp [deeds]
        rcases order_of_splits (hdeeds.symm.trans hsplit) with ⟨-, hact, -⟩ | ⟨mid, hbefore, -⟩ | ⟨mid, hseen, -⟩
        · cases hact
        · rw [hbefore]
          exact mem_life_append _ hmem
        · -- the frame that acts was not there before
          have hless := Roll.actor_lt_next (deeds before opener) (show ∀ _ _, Act.acted action reply ≠ .pushed _ _ by simp)
          have hgrows := Roll.next_after_le_append (deeds before opener) (.acted action reply :: mid)
          rw [← hseen] at hgrows
          omega
    | @apart others later seen _ hforked hdeeds hperformed hbirth =>
        have hsplit : deeds trace opener = seen ++
            .performed (.fork (.bare (flush group (underlying group.definition) window))) ::
              .forked (.bare (flush group (underlying group.definition) window)) :: deeds later opener := by
          rw [hforked, deeds_append, hdeeds]
          simp [deeds]
        have hmem := hservice (.inr rfl) hsplit hperformed
        obtain ⟨forked, _, hborn, -, -, hdone, -, -⟩ := lineage.origins.careers _ opener _ later hforked
        obtain rfl := lineage.origins.only forked flusher _ hborn hbirth
        rcases order_of_splits (hforked.symm.trans htrace) with ⟨-, hact, -⟩ | ⟨mid, rfl, -⟩ | ⟨mid, rfl, -⟩
        · cases hact
        · rw [deeds_append, hdeeds]
          exact mem_life_append _ (mem_life_append _ hmem)
        · rw [deeds_append] at hdone
          simp [deeds] at hdone
  obtain ⟨earlier, mid, hbefore, henrolled⟩ := exists_of_life hearlier
  exact ⟨earlier, mid, hbefore, henrolled⟩

/-- A flush collects all calls that are enrolled in the batch which it was launched for. -/
theorem mem_of_collect {window : Nat} {args more : List Value} {enrolment opening : Enrolment}
    (hlaunched : LaunchedBy descent trace opener frame (flush group (underlying group.definition) window) flusher place)
    (hopened : opening.opened = true) {seen later earlier mid : Trace}
    (henrolled : trace = seen ++ (task, .acted (.enroll group args) enrolment) :: later)
    (hbatch : seen ++ [(task, .acted (.enroll group args) enrolment)] =
      earlier ++ (opener, .acted (.enroll group more) opening) :: mid)
    (hframe : (Roll.after (deeds earlier opener)).actor (.acted (.enroll group more) opening) = frame)
    (hkept : ∀ entry ∈ mid, entry.2.removes group = false) {calls : List Enrolled}
    (hcollected : .acted (.collect group) calls ∈ life (deeds trace flusher) place) :
    ⟨args, enrolment.slot⟩ ∈ calls := by
  have recorded := (setting.books fresh runs).recorded
  obtain ⟨before, after, htrace, hactor⟩ := exists_of_life hcollected
  have hopening : trace = earlier ++ (opener, .acted (.enroll group more) opening) :: (mid ++ later) := by
    rw [henrolled, List.append_cons, hbatch]
    simp
  obtain ⟨others, between, hbefore, hactors⟩ := setting.opened_before_acted unintercepted fresh runs lineage hlaunched
    (mem_life_of_split hopening hframe) htrace hactor
  have hagain : trace = others ++ (opener, .acted (.enroll group more) opening) ::
      (between ++ (flusher, .acted (.collect group) calls) :: after) := by
    rw [htrace, hbefore]
    simp
  obtain ⟨rfl, -⟩ := recorded.enrolled_once hopening hagain rfl
  have hopen := setting.open_until_closed unintercepted fresh runs lineage htrace (.collect calls hactor hlaunched) hbefore
    ⟨hopened, hframe⟩
  rw [show calls = booked group before from recorded before flusher _ after htrace]
  rcases order_of_splits (henrolled.symm.trans htrace) with ⟨-, hentry, -⟩ | ⟨since, hsince, -⟩ | ⟨since, hseen, -⟩
  · cases hentry
  · refine mem_booked_iff.2 ⟨seen, task, enrolment, since, hsince, rfl, fun entry hmem => hopen entry ?_⟩
    rw [hsince, List.append_cons, hbatch] at hbefore
    obtain rfl : mid ++ since = between := by simpa using hbefore
    exact List.mem_append_right _ hmem
  · -- the batch that the call is enrolled in would have been collected before
    have hremoved : (flusher, Act.acted (.collect group) calls) ∈ mid := by
      rw [hseen, hbefore] at hbatch
      obtain rfl : between ++ (flusher, Act.acted (.collect group) calls) :: (since ++
          [(task, Act.acted (.enroll group args) enrolment)]) = mid := by simpa using hbatch
      simp
    have hfalse := hkept _ hremoved
    simp [Act.removes] at hfalse

omit setting fresh runs in
/-- A flush that was launched was put on its stack, or its task has not begun. -/
theorem pushed_or_waiting {window : Nat}
    (hlaunched : LaunchedBy descent trace opener frame (flush group (underlying group.definition) window) flusher place) :
    .pushed (flush group (underlying group.definition) window) none ∈ life (deeds trace flusher) place ∨
      life (deeds trace flusher) place = [] ∧
        ∃ context effect, system.parked.activities[flusher.index]? = some (.forked context effect) := by
  cases hlaunched with
  | @here before after hdeeds hactor =>
      have hpushed : deeds trace opener = (before ++ [.performed (.bare (flush group (underlying group.definition) window))]) ++
          .pushed (flush group (underlying group.definition) window) none :: after := by
        rw [hdeeds, List.append_assoc]
        rfl
      have hnext : (Roll.after (before ++ [.performed (.bare (flush group (underlying group.definition) window))])).actor
          (.pushed (flush group (underlying group.definition) window) none) = (Roll.after before).next := by
        rw [Roll.after_concat]
        rfl
      obtain ⟨later, hlater⟩ := exists_life_of_split hpushed hnext
      exact .inl (by simp [hlater])
  | @apart before after seen _ htrace hdeeds hactor hbirth =>
      obtain ⟨forked, activity, hforked, hother, -, hdone, hactivity, career⟩ :=
        lineage.origins.careers _ opener _ after htrace
      obtain rfl := lineage.origins.only forked flusher _ hforked hbirth
      have hown : deeds trace forked = deeds after forked := by
        rw [htrace, deeds_append, hdone]
        simp [deeds, Ne.symm hother]
      rw [hown]
      generalize deeds after forked = own at career
      have hbegins {acts : List Act} (hacts : ∃ host rest, acts = machine.handleActs
          (.bare (flush group (underlying group.definition) window))
          { stack := { context := descent.context opener, signal := some forked }, host } ++ rest) :
          .pushed (flush group (underlying group.definition) window) none ∈ life acts 1 := by
        obtain ⟨host, rest, rfl⟩ := hacts
        rw [Machine.handleActs_bare unintercepted.execute]
        exact mem_life_append _ List.mem_cons_self
      cases career with
      | waiting => exact .inr ⟨rfl, _, _, hactivity⟩
      | going history => exact .inl (hbegins history.begins)
      | done history => exact .inl (hbegins history.begins)

omit setting fresh runs in
/-- A flush that has begun was put on its stack. -/
theorem pushed_of_launch {window : Nat}
    (hlaunched : LaunchedBy descent trace opener frame (flush group (underlying group.definition) window) flusher place)
    (hbegun : life (deeds trace flusher) place ≠ []) :
    .pushed (flush group (underlying group.definition) window) none ∈ life (deeds trace flusher) place :=
  (pushed_or_waiting unintercepted lineage hlaunched).resolve_right fun hwaiting => hbegun hwaiting.1

omit lineage in
/-- The service that launched a flush is not told an error when nothing is deferred on the flush and it is not
interrupted. -/
theorem not_told_of_undeferred {window : Nat} {error : Error}
    (hlaunched : LaunchedBy descent trace opener frame (flush group (underlying group.definition) window) flusher place)
    (hcollected : ∃ calls, .acted (.collect group) calls ∈ life (deeds trace flusher) place)
    (uninterrupted : Uninterrupted trace system flusher place)
    (hundeferred : ∀ deferred, .deferred deferred ∉ life (deeds trace flusher) place) {other : BatchGroup} {length : Nat} :
    ¬ [.performed (launch other (underlying other.definition) length), .resumed (.error error)] <:+:
      strides (life (deeds trace opener) frame) := by
  generalize hlaunch : launch other (underlying other.definition) length = effect
  rintro ⟨path, later, htold⟩
  have hstrides : strides (life (deeds trace opener) frame) =
      path ++ .performed effect :: .resumed (.error error) :: later := by
    simpa using htold.symm
  have hflushes : Flushes underlying (flush group (underlying group.definition) window) := ⟨group, window, rfl⟩
  obtain ⟨computation, hcomputation, hsame⟩ := Launches.eq ⟨other, length, hlaunch.symm⟩
  obtain ⟨seen, rest, hdeeds, hactor, hpath⟩ := exists_of_strides hstrides
  cases hlaunched with
  | @here before after hlaunched hperformed =>
      obtain ⟨rfl, rfl, -⟩ := setting.launch_once unintercepted fresh runs hflushes hcomputation (.inl rfl) hsame hlaunched
        hdeeds hperformed hactor
      obtain ⟨calls, hcollected⟩ := hcollected
      obtain ⟨length, tag, hpushed⟩ := setting.flush_of_collect fresh runs hcollected
      have flushing := flushing_of_pushed runs hpushed
      have hpos : 0 < (Roll.after before).next := Roll.lt_next_after before 0 List.mem_cons_self
      have hresumed : .resumed (.error error) ∈ strides (life (deeds trace opener) frame) := by simp [hstrides]
      obtain ⟨_, _, hframe⟩ := runs.exists_pushed rfl (mem_strides.1 hresumed).1
      obtain ⟨others, _, hagain, hhead, -, hanswer⟩ := runs.answer_of_strides uninterrupted.calm (pos_of_pushed hframe)
        (Machine.handleActs_bare unintercepted.execute _) hstrides
      obtain ⟨rfl, -, -⟩ := setting.launch_once unintercepted fresh runs hflushes hflushes (.inl rfl) (.inl rfl) hlaunched
        hagain hperformed (Roll.actor_of_head hhead (by simp))
      rcases hanswer (runs.not_starting hpos hundeferred) uninterrupted.kept with hnone | ⟨own, more, hcompleted, hown⟩
      · cases hnone
      · obtain rfl := Act.resumed.inj (List.cons.inj hown).1
        obtain ⟨_, -, hnull, -⟩ := flushing.answered_of_completed (mem_strides.2 ⟨hcollected, rfl⟩)
          (mem_strides.2 ⟨hcompleted, rfl⟩)
        cases hnull
  | @apart before after others _ htrace hlaunched hperformed hbirth =>
      have hsplit : deeds trace opener = others ++
          .performed (.fork (.bare (flush group (underlying group.definition) window))) ::
            .forked (.bare (flush group (underlying group.definition) window)) :: deeds after opener := by
        rw [htrace, deeds_append, hlaunched]
        simp [deeds]
      obtain ⟨rfl, rfl, -⟩ := setting.launch_once unintercepted fresh runs hflushes hcomputation (.inr rfl) hsame hsplit
        hdeeds hperformed hactor
      rw [← hpath] at hstrides
      exact runs.not_refused_of_forked unintercepted.fork hsplit hperformed hstrides

omit unintercepted lineage in
/-- Nothing is deferred on a flush as long as no frame of its stack is discarded: it performs nothing but the call of its
function. -/
theorem not_deferring_of_collect {calls : List Enrolled}
    (hcollected : .acted (.collect group) calls ∈ life (deeds trace flusher) place) (hkept : .dropped ∉ deeds trace flusher)
    (deferred : Effect) : .deferred deferred ∉ life (deeds trace flusher) place := by
  obtain ⟨length, tag, hpushed⟩ := setting.flush_of_collect fresh runs hcollected
  refine runs.not_deferring hkept (pos_of_pushed hpushed) (fun effect hmem => ?_) deferred
  obtain ⟨calls, rfl⟩ := (flushing_of_pushed runs hpushed).performs (mem_strides.2 ⟨hmem, rfl⟩)
  rfl

omit lineage in
/-- The service that launched a flush is not told an error when the flush is not interrupted. -/
theorem not_told_of_launch {window : Nat} {error : Error}
    (hlaunched : LaunchedBy descent trace opener frame (flush group (underlying group.definition) window) flusher place)
    (hcollected : ∃ calls, .acted (.collect group) calls ∈ life (deeds trace flusher) place)
    (uninterrupted : Uninterrupted trace system flusher place) (hkept : .dropped ∉ deeds trace flusher)
    {other : BatchGroup} {length : Nat} :
    ¬ [.performed (launch other (underlying other.definition) length), .resumed (.error error)] <:+:
      strides (life (deeds trace opener) frame) := by
  obtain ⟨calls, hmem⟩ := hcollected
  exact setting.not_told_of_undeferred unintercepted fresh runs hlaunched ⟨calls, hmem⟩ uninterrupted
    (setting.not_deferring_of_collect fresh runs hmem hkept)

omit setting unintercepted fresh runs in
/-- What a computation has forked is launched as a task of its own. -/
theorem launched_of_forked {computation : Computation} {before after : List Act}
    (hdeeds : deeds trace opener = before ++ .performed (.fork (.bare computation)) :: .forked (.bare computation) :: after)
    (hactor : (Roll.after before).actor (.performed (.fork (.bare computation))) = frame) :
    ∃ forked, LaunchedBy descent trace opener frame computation forked 1 := by
  rw [List.append_cons] at hdeeds
  obtain ⟨others, _, htrace, hothers, -⟩ := exists_of_deeds hdeeds
  obtain ⟨forked, _, hbirth, -⟩ := lineage.origins.careers _ opener _ _ htrace
  exact ⟨forked, .apart htrace hothers hactor hbirth⟩

omit setting fresh runs in
/-- A computation that a process performs as a fork becomes a task of its own, if there is a scheduler and no validator has
a say in it. -/
theorem launched_of_performed (hforks : machine.registry.validator? Kind.fork = none)
    (hscheduled : system.parked.scheduled = true) (hcalm : .noticed ∉ deeds trace opener) {computation : Computation}
    (hperformed : .performed (.fork (.bare computation)) ∈ life (deeds trace opener) frame) :
    ∃ forked, LaunchedBy descent trace opener frame computation forked 1 := by
  obtain ⟨before, after, hdeeds, hactor⟩ := exists_of_mem_life hperformed
  rcases lineage.origins.handled opener before _ after hdeeds with ⟨rest, rfl⟩ | ⟨run, rest, -, hrun, rfl⟩
  · exact absurd (by simp [hdeeds]) hcalm
  · rw [Machine.handleActs_fork unintercepted.fork hforks _ (hrun.trans hscheduled)] at hdeeds
    exact launched_of_forked lineage hdeeds hactor

/-- A call that opens a batch launches its flush, unless its service is interrupted or the flush cannot be forked. -/
theorem launched_of_opening {more : List Value} {opening : Enrolment}
    (hopening : .acted (.enroll group more) opening ∈ life (deeds trace opener) frame) (hopened : opening.opened = true) :
    ∃ kind window tag, .pushed (handle group.batcher window (.custom kind
        (.batchCall group.definition (underlying group.definition) (some group.key) more))) tag ∈
          life (deeds trace opener) frame ∧
      (Uninterrupted trace system opener frame → machine.registry.validator? Kind.fork = none →
        (window ≠ 0 → system.parked.scheduled = true) → ∃ flusher place,
          LaunchedBy descent trace opener frame (flush group (underlying group.definition) window) flusher place) := by
  obtain ⟨kind, window, tag, begun, rest, hpushed, -, hstrides, joining⟩ := setting.service_of_enroll fresh runs hopening
  refine ⟨kind, window, tag, hpushed, fun served hforks hscheduled => ?_⟩
  obtain ⟨outcome, hcompleted⟩ := runs.completed_of_rest served.rest hpushed (runs.not_mem_givenUp served.calm frame)
    served.kept
  -- the service has performed the launch
  have hlaunch : .performed (launch group (underlying group.definition) window) ∈ rest := by
    have hstride : .completed outcome ∈ strides (life (deeds trace opener) frame) := mem_strides.2 ⟨hcompleted, rfl⟩
    rw [hstrides] at hstride
    simp only [List.mem_cons, reduceCtorEq, false_or] at hstride
    cases joining with
    | opening _ hprelude => cases hprelude _ hstride
    | launching => exact List.mem_cons_of_mem _ List.mem_cons_self
    | refused => exact List.mem_cons_of_mem _ List.mem_cons_self
    | waiting hlaunched =>
        rcases hlaunched with ⟨hjoined, -⟩ | ⟨-, value, rfl⟩
        · rw [hopened] at hjoined
          cases hjoined
        · exact List.mem_append_left _ (List.mem_cons_of_mem _ List.mem_cons_self)
  have hperformed : .performed (launch group (underlying group.definition) window) ∈ life (deeds trace opener) frame :=
    (mem_strides.1 (hstrides ▸ List.mem_cons_of_mem _ (List.mem_cons_of_mem _ hlaunch))).1
  unfold launch at hperformed
  split at hperformed
  · obtain ⟨before, after, hdeeds, hactor⟩ := exists_of_mem_life hperformed
    rcases lineage.origins.handled opener before _ after hdeeds with ⟨rest, rfl⟩ | ⟨run, rest, -, -, rfl⟩
    · exact absurd (by simp [hdeeds]) served.calm
    · rw [Machine.handleActs_bare unintercepted.execute] at hdeeds
      exact ⟨opener, _, .here hdeeds hactor⟩
  · rename_i hwindow
    obtain ⟨forked, hlaunched⟩ :=
      launched_of_performed unintercepted lineage hforks (hscheduled hwindow) served.calm hperformed
    exact ⟨forked, 1, hlaunched⟩

end Setting
end Batch
end EffectMachine
